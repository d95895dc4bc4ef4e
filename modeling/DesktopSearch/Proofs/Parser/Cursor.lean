import DesktopSearch.Proofs.Parser.Session

/-!
# The cursor

The cursor of a text decides which proposals are made and nothing else. Reading with a cursor, less the
proposals, is reading without one: this is shown for one pattern (`Draft.silent_tryPattern`) and carried
through the folds over patterns and phrasings, which never look back at the proposals. `Parser.read_cursors`
compares two cursors through the reading that has none.
-/

namespace DesktopSearch

/-! ## One text -/

namespace Draft

/-- The draft without its proposals. -/
def silent (d : Draft) : Draft := { d with proposals := [] }

variable {x : Surroundings} {cursor : Option Nat}

/-- A pattern that is tried without a cursor writes and asks what it does with one. -/
theorem silent_tryPattern (ph : Phrasing) (d : Draft) (pattern : String) :
    d.silent.tryPattern x none ph pattern = (d.tryPattern x cursor ph pattern).silent := by
  unfold tryPattern
  split <;> rfl

theorem silent_tryPhrasing (d : Draft) (ph : Phrasing) :
    d.silent.tryPhrasing x none ph = (d.tryPhrasing x cursor ph).silent :=
  List.foldl_hom silent fun d pattern => silent_tryPattern ph d pattern

theorem silent_tryPhrasings (cursor : Option Nat) (d : Draft) (phs : List Phrasing) :
    phs.foldl (tryPhrasing x none) d.silent = (phs.foldl (tryPhrasing x cursor) d).silent :=
  List.foldl_hom silent silent_tryPhrasing

theorem silent_foldDates? (settings : Settings) (now : Instant) (d : Draft) :
    d.silent.foldDates? settings now = (d.foldDates? settings now).map silent := by
  rw [foldDates?, foldDates?, Option.map_map]
  rfl

theorem silent_tryAll? (x : Surroundings) (now : Instant) (cursor : Option Nat) (d : Draft) :
    d.silent.tryAll? x now none = (d.tryAll? x now cursor).map silent := by
  rw [tryAll?, tryAll?, Option.map_map, silent_tryPhrasings cursor, silent_foldDates?, Option.map_map]
  refine Option.map_congr fun dated _ => ?_
  rw [Function.comp_apply, Function.comp_apply, silent_tryPhrasings cursor]

end Draft

/-- What has been parsed without the proposals. -/
def Parsed.silent (r : Parsed) : Parsed := { r with proposals := [] }

/-- Reading with a cursor finds the query that reading without one finds, by the same inquiries. -/
theorem parse?_withoutCursor (x : Surroundings) (now : Instant) (cursor : Option Nat) (text : String) :
    parse? x now none text = (parse? x now cursor text).map Parsed.silent := by
  have hsilent := Draft.silent_tryAll? x now cursor ⟨tokenize x.settings text, [], []⟩
  have hstart : Draft.silent ⟨tokenize x.settings text, [], []⟩ = ⟨tokenize x.settings text, [], []⟩ := rfl
  rw [hstart] at hsilent
  rw [parse?, parse?, hsilent, Option.map_map, Option.map_map]
  rfl

/-! ## Many texts -/

namespace Parser

/-- The parser without its proposals. -/
def silent (p : Parser) : Parser := { p with proposals := [] }

theorem silent_fresh (settings : Settings) (store : Option Store) (now : Instant) :
    (fresh settings store now).silent = fresh settings store now := rfl

theorem silent_settings (p : Parser) : p.silent.settings = p.settings := rfl

theorem silent_now (p : Parser) : p.silent.now = p.now := rfl

theorem silent_directory (p : Parser) : p.silent.directory = p.directory := rfl

theorem silent_inquire (p : Parser) (i : Inquiry) :
    p.silent.inquire i = ((p.inquire i).1, (p.inquire i).2.silent) := by
  unfold inquire
  by_cases h : p.lookups.knows i
  · rw [if_pos h, if_pos (show p.silent.lookups.knows i from h)]
  · rw [if_neg h, if_neg (show ¬p.silent.lookups.knows i from h)]
    rfl

theorem silent_ask : ∀ (p : Parser) (is : List Inquiry),
    p.silent.ask is = ((p.ask is).1, (p.ask is).2.silent)
  | _, [] => rfl
  | p, i :: is => by
    unfold ask
    simp only [silent_inquire, silent_ask (p.inquire i).2 is]

theorem silent_accept (p : Parser) (parsed? : Option Parsed) :
    p.silent.accept (parsed?.map Parsed.silent) =
      ((p.accept parsed?).1, (p.accept parsed?).2.1, (p.accept parsed?).2.2.silent) := by
  cases parsed? with
  | none => rfl
  | some parsed =>
    simp only [Option.map_some, accept, Parsed.silent, silent_ask]
    rfl

/-- Reading with a cursor, less the proposals, is reading without one. -/
theorem read_withoutCursor (p : Parser) (flags : ParserFlags) (cursor : Option Nat) (text : String) :
    p.silent.read flags none text =
      ((p.read flags cursor text).1, (p.read flags cursor text).2.1,
        (p.read flags cursor text).2.2.silent) := by
  rw [read, read, silent_settings, silent_directory, silent_now, parse?_withoutCursor _ _ cursor,
    silent_accept]

theorem read_withoutCursor_fst (p : Parser) (flags : ParserFlags) (cursor : Option Nat) (text : String) :
    (p.silent.read flags none text).1 = (p.read flags cursor text).1 := by
  rw [read_withoutCursor p flags cursor]

/-- A text that tells of a size is read as a query that says something, wherever the cursor is. -/
theorem exists_read_size (cursor : Option Nat) :
    let now : Instant :=
      .midnight ⟨2024, 2, 29, by decide, by decide, by decide, by decide, by decide, by decide⟩
    ∃ q, ((fresh .english none now).read {} cursor "size > 2KB").1 = some q ∧ q.isValid = true := by
  intro now
  have hvalid : ((fresh .english none now).read {} none "size > 2KB").1.any Query.isValid = true := by
    decide +kernel
  obtain ⟨q, hq, hvalid⟩ := (Option.any_eq_true _ _).1 hvalid
  have hcursor := read_withoutCursor_fst (fresh .english none now) {} cursor "size > 2KB"
  rw [silent_fresh] at hcursor
  exact ⟨q, hcursor.symm.trans hq, hvalid⟩

/-- The cursor of a text has no influence on the query that is read, spans included, nor on the inquiries
that are sent to the store, and afterwards the parser differs in its proposals alone. -/
theorem read_cursors (p : Parser) (flags : ParserFlags) (cursor cursor' : Option Nat)
    (text : String) :
    (p.read flags cursor text).1 = (p.read flags cursor' text).1 ∧
      (p.read flags cursor text).2.1 = (p.read flags cursor' text).2.1 ∧
      (p.read flags cursor text).2.2.silent = (p.read flags cursor' text).2.2.silent := by
  have h := (read_withoutCursor p flags cursor text).symm.trans
    (read_withoutCursor p flags cursor' text)
  simpa only [Prod.mk.injEq] using h

end Parser

end DesktopSearch
