import DesktopSearch.Proofs.Parser.Recordable
import DesktopSearch.Proofs.Query.Markup
import DesktopSearch.Query.Change

/-!
# Queries that can be made

A query is `Reachable` if it was made from a term, read from a text or is empty, and was changed and joined
to others any number of times after that. The changes keep queries sound (`IsSound.apply`), those about
files by making the query a file query, and so all reachable queries are sound (`Reachable.isSound`). The
document of one is read as a query that differs in the spans of its term at most, provided that its term is
exact, as that of a query is that is read from a text.
-/

namespace DesktopSearch.Query

/-- The numbers of a change are ones that the program can hold. -/
def Change.Fits : Change → Prop
  | setTerm t => t.Fits
  | joinTerm _ t => t.Fits
  | setLimit n => n < Text.nat64Limit
  | setOffset n => n < Text.nat64Limit
  | _ => True

/-- A query that can be made : by a constructor, by reading a text, by changing a query or by joining
two. -/
inductive Reachable : Query → Prop
  | empty : Reachable {}
  | ofTerm (t : Term) (fits : t.Fits) : Reachable (ofTerm t)
  | fileQuery (t : Term) (m : FileMode) (fits : t.Fits) : Reachable (fileQuery t m)
  | read (p : Parser) (fits : p.settings.Fits) (flags : ParserFlags) (cursor : Option Nat)
    (text : String) (q : Query) (isRead : (p.read flags cursor text).1 = some q) : Reachable q
  | apply (q : Query) (c : Change) (fits : c.Fits) (made : Reachable q) : Reachable (q.apply c)
  | join (k : Connective) (q r : Query) (left : Reachable q) (right : Reachable r) :
    Reachable (join k q r)

/-! ## Soundness -/

namespace IsSound

variable {q : Query}

theorem nat64Limit_pos : 0 < Text.nat64Limit := by decide

theorem ofTerm {t : Term} (h : t.Fits) : (ofTerm t).IsSound :=
  ⟨fun _ => ⟨rfl, rfl, rfl⟩, nat64Limit_pos, nat64Limit_pos, h⟩

theorem fileQuery {t : Term} (h : t.Fits) (m : FileMode) : (fileQuery t m).IsSound :=
  ⟨fun hplain => by contradiction, nat64Limit_pos, nat64Limit_pos, h⟩

theorem withTerm (h : q.IsSound) {t : Term} (ht : t.Fits) : IsSound { q with term := t } :=
  ⟨h.plain, h.limit_lt, h.offset_lt, ht⟩

/-- What is said about files may change in a file query. -/
theorem withFiles (h : q.IsSound) (fileMode : FileMode) (includeFolders : List Folder)
    (excludeFolders : List String) :
    IsSound { q with isFileQuery := true, fileMode, includeFolders, excludeFolders } :=
  ⟨fun hplain => by contradiction, h.limit_lt, h.offset_lt, h.fits⟩

/-- Changes keep queries sound. -/
theorem apply (h : q.IsSound) {c : Change} (hc : c.Fits) : (q.apply c).IsSound := by
  cases c with
  | setTerm t => exact h.withTerm hc
  | joinTerm k t => exact h.withTerm (h.fits.join hc k)
  | negate => exact h.withTerm h.fits.negate
  | setLimit n => exact ⟨h.plain, hc, h.offset_lt, h.fits⟩
  | setOffset n => exact ⟨h.plain, h.limit_lt, hc, h.fits⟩
  | setFileMode m => exact h.withFiles m _ _
  | addIncludeFolder f => exact h.withFiles _ _ _
  | addExcludeFolder url => exact h.withFiles _ _ _
  | setFlags flags => exact ⟨h.plain, h.limit_lt, h.offset_lt, h.fits⟩
  | setScoring scoring => exact ⟨h.plain, h.limit_lt, h.offset_lt, h.fits⟩
  | setScoringOrder order => exact ⟨h.plain, h.limit_lt, h.offset_lt, h.fits⟩
  | addRequestProperty r => exact ⟨h.plain, h.limit_lt, h.offset_lt, h.fits⟩
  | setRequestProperties rs => exact ⟨h.plain, h.limit_lt, h.offset_lt, h.fits⟩

theorem of_read {p : Parser} {flags : ParserFlags} {cursor : Option Nat} {text : String}
    (h : p.settings.Fits) (hread : (p.read flags cursor text).1 = some q) : q.IsSound := by
  obtain ⟨t, rfl, -, hfits⟩ := Parser.exists_eq_ofTerm_of_read hread
  exact ofTerm (hfits h)

end IsSound

theorem Reachable.isSound {q : Query} (h : q.Reachable) : q.IsSound := by
  induction h with
  | empty => exact .ofTerm Term.fits_nothing
  | ofTerm t fits => exact .ofTerm fits
  | fileQuery t m fits => exact .fileQuery fits m
  | read p fits flags cursor text q isRead => exact .of_read fits isRead
  | apply q c fits _ ih => exact ih.apply fits
  | join k q r _ _ ihq ihr => exact ihq.withTerm (ihq.fits.join ihr.fits k)

/-- Any changes, one after the other, make a query that can be made. -/
theorem Reachable.foldl_apply {q : Query} (h : q.Reachable) {cs : List Change}
    (hcs : ∀ c ∈ cs, c.Fits) : (cs.foldl Query.apply q).Reachable :=
  List.foldlRecOn cs _ h fun q hq c hc => .apply q c (hcs c hc) hq

/-! ## Reading back -/

theorem same_withTerm (q : Query) {t : Term} (h : t.same q.term = true) :
    same { q with term := t } q = true := by
  simp [same, h]

/-- The document of a query that can be made is read as the same query, if its term is exact and its
doubles are spelled by their texts. The term of a query that is read from a text is exact. -/
theorem ofMarkup_markup_same :
    (∀ q : Query, q.Reachable → q.term.IsExact → q.term.SpellsDoubles →
      (ofMarkup q.markup).same q = true) ∧
    ∀ (p : Parser) (flags : ParserFlags) (cursor : Option Nat) (text : String) (q : Query),
      (p.read flags cursor text).1 = some q → q.term.IsExact := by
  refine ⟨fun q hq hexact hdoubles => ?_, fun p flags cursor text q hread => ?_⟩
  · rw [ofMarkup_markup_eq hq.isSound hdoubles]
    exact q.same_withTerm hexact.same_recorded
  · obtain ⟨t, rfl, hexact, -⟩ := Parser.exists_eq_ofTerm_of_read hread
    exact hexact

/-- A query for files with something in every field, joined to one that was negated. -/
def folderQuery : Query :=
  join .or
    ([.setLimit 25, .setOffset 50, .setScoring true, .setScoringOrder .descending,
      .setFlags ⟨true, true⟩, .addIncludeFolder ⟨"file:///home/<é&\">", true⟩,
      .addExcludeFolder "file:///home/<é&\">/日本", .addIncludeFolder ⟨"", false⟩,
      .addRequestProperty ⟨⟨"nie:title'\n"⟩, true⟩, .addRequestProperty ⟨⟨"nfo:fileSize"⟩, false⟩,
      .joinTerm .or (.comparison ⟨3, 4⟩
        { property := some ⟨"é"⟩, sortWeight := -2, sortOrder := .descending } .nothing)].foldl apply
      (fileQuery (.ofLiteral (.double ⟨0x3FB999999999999A⟩)) .files))
    ((ofTerm (.types ⟨7, 1⟩ [⟨"nfo:Image"⟩, ⟨"nfo:Video"⟩])).apply .negate)

theorem ofMarkup_folderQuery : folderQuery.Reachable ∧ folderQuery.term.IsExact ∧
    folderQuery.term.SpellsDoubles ∧ (ofMarkup folderQuery.markup).same folderQuery = true := by
  have hreachable : folderQuery.Reachable := by
    refine .join _ _ _ (.foldl_apply (.fileQuery _ _ ?_) ?_) (.apply _ .negate trivial (.ofTerm _ ?_))
    · simp [Term.Fits, Term.ofLiteral, Term.literals, Term.comparisons, Literal.Fits]
    · simp [Change.Fits, Text.nat64Limit, Term.Fits, Term.literals, Term.comparisons,
        Comparison.Fits, Text.int32Limit, Term.nothing]
    · simp [Term.Fits, Term.literals, Term.comparisons]
  have hexact : folderQuery.term.IsExact := Term.isExact_iff.2 rfl
  have hdoubles : folderQuery.term.SpellsDoubles := by
    have hliterals : folderQuery.term.literals = [.double ⟨0x3FB999999999999A⟩] := by decide +kernel
    intro d hd
    rw [hliterals, List.mem_singleton] at hd
    rw [Literal.double.inj hd]
    decide +kernel
  exact ⟨hreachable, hexact, hdoubles, ofMarkup_markup_same.1 _ hreachable hexact hdoubles⟩

end DesktopSearch.Query
