import DesktopSearch.Parser.Basic
import DesktopSearch.Proofs.Dates.Folding
import DesktopSearch.Proofs.Dates.Run
import DesktopSearch.Proofs.Pattern.Rewriting

/-!
# What reading a text keeps

The tokens of a text are literals, and all that happens to them before they are fused is that phrasings
rewrite them and that dates are folded in between. So a property of terms that does not look at spans and
that the readings keep holds of all terms until dates are folded; what holds of those that are no fields
then, and is kept by the readings that follow, holds of the terms of the finished draft
(`Draft.tryAll?_keeps`).

There is a finished draft unless dates cannot be folded. So a text is parsed exactly if the specifications
that its dates are folded to describe moments (`parse?_isSome_iff`), and the query that is read is fused
from the finished draft (`Parser.read_eq_some_iff`).
-/

namespace DesktopSearch

/-! ## Tokens -/

theorem Token.exists_of_mem_read {s : Settings} {place : Nat} {cs : List Char} {t : Term}
    (h : t ∈ Token.read s place cs) : ∃ span word, t = .literal span (.string word) := by
  fun_induction Token.read s place cs with
  | case1 => simp at h
  | case2 place cs text rest length tokens hempty ih => exact ih h
  | case3 place cs text rest length tokens hfull ih =>
    rcases List.mem_cons.1 h with rfl | h
    · exact ⟨_, _, rfl⟩
    · exact ih h
  | case4 place c cs _ _ ih => exact ih h
  | case5 place c cs _ _ _ ih =>
    rcases List.mem_cons.1 h with rfl | h
    · exact ⟨_, _, rfl⟩
    · exact ih h
  | case6 place c cs _ _ _ more length ih =>
    rcases List.mem_cons.1 h with rfl | h
    · exact ⟨_, _, rfl⟩
    · exact ih h

/-- A token is a string literal. -/
theorem exists_of_mem_tokenize {s : Settings} {text : String} {t : Term}
    (h : t ∈ tokenize s text) : ∃ span word, t = .literal span (.string word) :=
  Token.exists_of_mem_read h

/-! ## Drafts -/

namespace Draft

variable {P : Term → Prop} {x : Surroundings} {cursor : Option Nat} {d : Draft} {ph : Phrasing}

theorem tryPattern_keeps (hspan : IgnoresSpans P) (hph : Keeps P (ph.reading.apply x))
    (hd : ∀ t ∈ d.terms, P t) (pattern : String) :
    ∀ t ∈ (d.tryPattern x cursor ph pattern).terms, P t := by
  rw [tryPattern]
  split
  · exact hd
  · exact rewrite_keeps hspan hph hd

theorem tryPhrasing_keeps (hspan : IgnoresSpans P) (hph : Keeps P (ph.reading.apply x))
    (hd : ∀ t ∈ d.terms, P t) : ∀ t ∈ (d.tryPhrasing x cursor ph).terms, P t :=
  List.foldlRecOn (motive := fun d : Draft => ∀ t ∈ d.terms, P t) ph.patterns _ hd
    fun _ hd pattern _ => tryPattern_keeps hspan hph hd pattern

theorem tryPhrasings_keeps (hspan : IgnoresSpans P) {phs : List Phrasing}
    (hphs : ∀ ph ∈ phs, Keeps P (ph.reading.apply x)) (hd : ∀ t ∈ d.terms, P t) :
    ∀ t ∈ (phs.foldl (tryPhrasing x cursor) d).terms, P t :=
  List.foldlRecOn (motive := fun d : Draft => ∀ t ∈ d.terms, P t) phs _ hd
    fun _ hd ph hph => tryPhrasing_keeps hspan (hphs ph hph) hd

/-- A finished draft is one whose dates have been folded on the way. -/
theorem tryAll?_eq_some_iff {now : Instant} {e : Draft} : d.tryAll? x now cursor = some e ↔
    ∃ dated,
      ((Phrasing.ofDates x.flags).foldl (tryPhrasing x cursor) d).foldDates? x.settings now = some dated ∧
      Phrasing.afterDates.foldl (tryPhrasing x cursor) dated = e := by
  rw [tryAll?, Option.map_eq_some_iff]

theorem foldDates?_eq_some_iff {settings : Settings} {now : Instant} {e : Draft} :
    d.foldDates? settings now = some e ↔
      ∃ ts, DesktopSearch.foldDates? settings now d.terms = some ts ∧ { d with terms := ts } = e := by
  rw [foldDates?, Option.map_eq_some_iff]

/-- What the readings keep until dates are folded holds until then; and what they keep afterwards holds of
the finished draft, if moments have it and all terms that are no fields then. -/
theorem tryAll?_keeps {Q : Term → Prop} {now : Instant} {e : Draft} (hspan : IgnoresSpans P)
    (hdates : ∀ ph ∈ Phrasing.ofDates x.flags, Keeps P (ph.reading.apply x))
    (hmoment : ∀ s (spec : DateSpec) m, spec.moment? now = some m → Q (.literal s (.dateTime m)))
    (hfold : ∀ t, P t → t.field? = none → Q t)
    (hspan' : IgnoresSpans Q) (hafter : ∀ ph ∈ Phrasing.afterDates, Keeps Q (ph.reading.apply x))
    (hd : ∀ t ∈ d.terms, P t) (he : d.tryAll? x now cursor = some e) : ∀ t ∈ e.terms, Q t := by
  obtain ⟨dated, hdated, rfl⟩ := tryAll?_eq_some_iff.1 he
  obtain ⟨ts, hts, rfl⟩ := foldDates?_eq_some_iff.1 hdated
  refine tryPhrasings_keeps hspan' hafter (foldDates?_keeps hmoment ?_ hts)
  exact fun t ht => hfold t (tryPhrasings_keeps hspan hdates hd t ht)

end Draft

/-! ## Texts -/

/-- The specifications that a text's dates are folded to. -/
def dateSpecs (x : Surroundings) (cursor : Option Nat) (text : String) : List DateSpec :=
  specsAfter x.settings none
    ((Phrasing.ofDates x.flags).foldl (Draft.tryPhrasing x cursor) ⟨tokenize x.settings text, [], []⟩).terms

/-- A text is parsed exactly if the sums of the hours, minutes and seconds by which its dates are moved have
64 bits. -/
theorem parse?_isSome_iff (x : Surroundings) (now : Instant) (cursor : Option Nat) (text : String) :
    (parse? x now cursor text).isSome = true ↔ ∀ s ∈ dateSpecs x cursor text, s.TimeShiftFits := by
  rw [parse?, Option.isSome_map, Draft.tryAll?, Option.isSome_map, Draft.foldDates?, Option.isSome_map,
    foldDates?_isSome_iff, dateSpecs]

namespace Parser

variable {p : Parser} {flags : ParserFlags} {cursor : Option Nat} {text : String}

theorem accept_fst (p : Parser) (parsed? : Option Parsed) :
    (p.accept parsed?).1 = parsed?.map Parsed.query := by
  cases parsed? <;> rfl

theorem accept_proposals (p : Parser) (parsed? : Option Parsed) :
    (p.accept parsed?).2.2.proposals = (parsed?.map Parsed.proposals).getD [] := by
  cases parsed? <;> rfl

/-- The query that is read is fused from a finished draft. -/
theorem read_eq_some_iff {q : Query} : (p.read flags cursor text).1 = some q ↔
    ∃ d,
      Draft.tryAll? ⟨p.settings, flags, p.directory⟩ p.now cursor ⟨tokenize p.settings text, [], []⟩ = some d ∧
      q = .ofTerm (fuse p.settings flags d.terms 0).1 := by
  rw [read, accept_fst, parse?, Option.map_map, Option.map_eq_some_iff]
  simp only [Function.comp_apply, Draft.parsed, eq_comm]

/-- The proposals are those of a finished draft. -/
theorem mem_proposals_read_iff {q : Proposal} : q ∈ (p.read flags cursor text).2.2.proposals ↔
    ∃ d,
      Draft.tryAll? ⟨p.settings, flags, p.directory⟩ p.now cursor ⟨tokenize p.settings text, [], []⟩ = some d ∧
      q ∈ d.proposals := by
  rw [read, accept_proposals, parse?, Option.map_map]
  cases Draft.tryAll? ⟨p.settings, flags, p.directory⟩ p.now cursor ⟨tokenize p.settings text, [], []⟩ <;>
    simp [Draft.parsed]

end Parser

/-! ## The order of phrasings -/

/-- Numbers are cut off their units first, then they are read, then they get their decimals ; and none of the
later phrasings cuts words or looks for decimals. -/
theorem Phrasing.exists_ofDates (flags : ParserFlags) : ∃ phs, ofDates flags =
      ⟨.units, ["%1"], none⟩ :: ⟨.numbers, ["%1"], none⟩ :: ⟨.decimals, ["%1 \\. %2"], none⟩ :: phs ∧
    ∀ ph ∈ phs ++ afterDates, ph.reading ≠ .units ∧ ph.reading ≠ .decimals := by
  refine ⟨_, rfl, ?_⟩
  cases flags.fileNames <;>
    simp [ofPeriods, ofWrittenDates, afterDates, ofComparators, ofProperties, ofRelations, proposed]

end DesktopSearch
