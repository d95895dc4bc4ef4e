import DesktopSearch.Proofs.Parser.Answer
import DesktopSearch.Proofs.Parser.Piece

/-!
# Pieces are read as pieces

Given pieces, a reading answers with pieces (`Reading.keeps_piece`), provided that its property has
values of the sort that its domain reads (`Reading.Suits`). All the phrasings that are tried on a text
are of this kind (`suits_of_mem_ofDates`, `suits_of_mem_afterDates`).
-/

namespace DesktopSearch

open Vocabulary

theorem Answer.piece {settings : Settings} {t : Term} (h : Answer settings t) : Piece t := by
  cases h with
  | literal s l read => exact .literal s l
  | types s u => exact .types s u []
  | absoluteField s p n => exact .field _ _ _ n rfl
  | relativeField s p n => exact .field _ _ _ n rfl
  | fileName s c r word =>
    refine .value s _ _ r _ rfl (hasLiterals_of_mem ?_)
    simp [Ontology.literalProperties]

namespace Reading

/-- The comparator in a piece without a property works on resources too. -/
theorem ne_regexp_of_value? {t v : Term} {c : Option Comparator} (ht : Piece t ∨ t = .nothing)
    (h : value? t = some (v, c)) : c ≠ some .regexp := by
  rcases ht with ht | rfl
  · cases ht with
    | literal s l =>
      obtain ⟨rfl, rfl⟩ := Prod.mk.inj (Option.some.inj h)
      simp
    | unbound s c' r l free plain =>
      rw [value?, free] at h
      obtain ⟨rfl, rfl⟩ := Prod.mk.inj (Option.some.inj h)
      simpa using plain
    | field s c' r n equal =>
      rw [value?] at h
      split at h
      · obtain ⟨rfl, rfl⟩ := Prod.mk.inj (Option.some.inj h)
        simp [equal]
      · simp at h
    | types s u us => simp [value?] at h
    | value s c' p r l bound => simp [value?, bound] at h
    | resource s c' p r u bound => simp [value?, bound] at h
    | nested s c' p v bound => simp [value?, bound] at h
  · simp [value?, Term.nothing] at h

theorem keeps_readComparator (settings : Settings) {c : Comparator} (hc : c ≠ .regexp) :
    Keeps Piece (readComparator settings c) := by
  intro ts _ u hu
  obtain ⟨s, l, -, rfl⟩ := eq_of_mem_readComparator hu
  exact .unbound _ _ s l rfl hc

theorem keeps_readProperty (directory : Directory) {p : Uri} {d : Domain} (hd : d.Fits p) :
    Keeps Piece (readProperty directory p d) := by
  intro ts hts u hu
  obtain ⟨t, ht, v, c, w, hvalue, hconvert, rfl⟩ := eq_of_mem_readProperty hu
  have hc := ne_regexp_of_value? (hts t ht) hvalue
  rcases Domain.eq_of_convert? hconvert with ⟨s, l, -, rfl, hfits⟩ | ⟨s, r, rfl, hfits⟩
  · exact .value _ _ p s l rfl (hfits p hd)
  · refine .resource _ _ p s r rfl (hfits p hd) ?_
    cases c with
    | some c => simpa using hc
    | none => simp [Term.string?, Term.literal?]

theorem keeps_readSubquery (settings : Settings) (flags : ParserFlags) {p : Uri}
    (hp : HasResources p) : Keeps Piece (readSubquery settings flags p) := by
  intro ts hts u hu
  obtain ⟨hvalid, rfl⟩ := eq_of_mem_readSubquery hu
  exact .nested _ _ p _ rfl hp rfl (fuse_of_pieces hts hvalid)

/-! ## All readings -/

/-- What a reading binds fits the property that it is bound to. -/
def Suits : Reading → Prop
  | comparators c => c ≠ .regexp
  | properties p d => d.Fits p
  | subqueries p => HasResources p
  | _ => True

theorem IsBeforeDates.suits {r : Reading} (h : r.IsBeforeDates) : r.Suits := by
  cases r <;> first | exact h | exact h.elim

/-- A reading answers pieces with pieces. -/
theorem keeps_piece (x : Surroundings) {r : Reading} (h : r.Suits) : Keeps Piece (r.apply x) := by
  cases r with
  | comparators c => exact keeps_readComparator x.settings h
  | properties p d => exact keeps_readProperty x.directory h
  | subqueries p => exact keeps_readSubquery x.settings x.flags h
  | _ =>
    intro ts _ u hu
    refine (answer_of_mem_apply ?_ hu).piece
    trivial

end Reading

/-! ## Phrasings -/

namespace Phrasing

theorem suits_of_mem_ofDates {flags : ParserFlags} {ph : Phrasing} (h : ph ∈ ofDates flags) :
    ph.reading.Suits :=
  (isBeforeDates_of_mem_ofDates h).suits

theorem suits_of_mem_ofComparators {ph : Phrasing} (h : ph ∈ ofComparators) :
    ph.reading.Suits := by
  have hall : ∀ ph ∈ ofComparators, ph.reading.Suits := by
    simp [ofComparators, proposed, Reading.Suits]
  exact hall ph h

/-- Every phrasing of a property reads values of the sort that the property has. -/
theorem suits_of_mem_ofProperties {ph : Phrasing} (h : ph ∈ ofProperties) :
    ph.reading.Suits := by
  have literals {p : Uri} (hp : p ∈ Ontology.literalProperties) : HasLiterals p :=
    hasLiterals_of_mem hp
  have named {name : String} (hname : name ∈ literalNames) : HasLiterals (.pseudo name) :=
    hasLiterals_pseudo hname
  have resources {p : Uri} (hp : p ∈ Ontology.resourceProperties) : HasResources p :=
    hasResources_of_mem hp
  have hall : ∀ ph ∈ ofProperties, ph.reading.Suits := by
    simp only [ofProperties, List.forall_mem_cons]
    refine ⟨literals ?_, literals ?_, resources ?_, named ?_, resources ?_, literals ?_,
      literals ?_, hasResources_author, named ?_, named ?_, named ?_, named ?_, resources ?_,
      by simp⟩ <;>
      simp [Ontology.literalProperties, Ontology.resourceProperties, literalNames]
  exact hall ph h

theorem suits_of_mem_afterDates {ph : Phrasing} (h : ph ∈ afterDates) : ph.reading.Suits := by
  rw [afterDates, List.mem_append, List.mem_append] at h
  rcases h with (h | h) | h
  · exact suits_of_mem_ofComparators h
  · exact suits_of_mem_ofProperties h
  · obtain rfl := List.mem_singleton.1 h
    exact hasResources_of_mem (by simp [Ontology.resourceProperties])

end Phrasing

end DesktopSearch
