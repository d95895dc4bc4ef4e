import DesktopSearch.Proofs.Parser.Answer
import DesktopSearch.Proofs.Parser.Spelled
import DesktopSearch.Proofs.Pattern.Ending

/-!
# Phrasings that end

Readings write as many terms as they like: a number that is cut off its unit becomes two terms or more, a
written date one for each of its slots. But each of them is after terms of a sort that it does not write
(`Reading.usesUp`). Cutting leaves no word that can be cut again, numbers and names are read from words and
become something else, decimals are read from integers, and whatever answers with comparisons takes away a
term that is none : the word that it reads, the integer in a slot of a written date, or the literal that a
keyword of the pattern stands for.

Whether a pattern has such a slot or such a keyword can be checked (`Reading.isFed`), and the phrasings that
are tried on a text pass the check. So none of their patterns can be rewritten with forever
(`Phrasing.rewrite_ends`).
-/

namespace DesktopSearch

variable {ts : List Term} {t u : Term}

/-! ## What is used up -/

namespace Reading

/-- The terms that a reading is after. -/
def usesUp : Reading → Term → Bool
  | units, t => t.string?.any fun word => isCuttable word.toList
  | decimals, t => t.integer?.isSome
  | numbers, t | fileSize, t | kinds, t | fileNames, t | calendarNames, t => t.string?.isSome
  | periods .., t | writtenDate .., t | comparators _, t | properties .., t | subqueries _, t =>
    !t.isComparison

theorem usesUp_withSpan (r : Reading) (t : Term) (s : Span) : r.usesUp (t.withSpan s) = r.usesUp t := by
  cases r <;> cases t <;> rfl

/-! ## Readings of literals -/

/-- The reading answers only if there is a literal of the sort `P` among the given terms, and not with terms
of the sort. -/
def Trades (P : Term → Bool) (reader : Reader) : Prop :=
  ∀ ts, reader ts = [] ∨
    (∃ s l, .literal s l ∈ ts ∧ P (.literal s l) = true) ∧ ∀ u ∈ reader ts, P u = false

variable {settings : Settings}

theorem trades_readUnits : Trades units.usesUp readUnits := by
  intro ts
  obtain hnil | ⟨s, word, rest, g, rfl, hsorted, hcut, hflatten, hpieces⟩ := readUnits_cases ts
  · exact Or.inl hnil
  refine Or.inr ⟨⟨s, _, List.mem_cons_self, isCuttable_iff.2 ⟨g, hsorted, hcut, hflatten⟩⟩, fun u hu => ?_⟩
  obtain ⟨cs, hcs, place, rfl⟩ := exists_of_mem_pieceTerms (hpieces ▸ hu)
  have hpiece := (hsorted.of_mem_pieces cs hcs).2
  simpa [usesUp, Term.string?, Term.literal?, Literal.string?] using hpiece

/-- A number is read for a word. -/
theorem trades_readNumbers : Trades numbers.usesUp (readNumbers settings) := by
  intro ts
  obtain hnil | ⟨s, word, rest, n, rfl, -, hread⟩ := readNumbers_cases settings ts
  · exact Or.inl hnil
  · rw [hread]
    exact Or.inr ⟨⟨s, _, List.mem_cons_self, rfl⟩, List.forall_mem_singleton.2 rfl⟩

theorem trades_readDecimals : Trades decimals.usesUp readDecimals := by
  intro ts
  obtain hnil | ⟨s, _, n, _, rest, d, rfl, hread⟩ := readDecimals_cases ts
  · exact Or.inl hnil
  · rw [hread]
    exact Or.inr ⟨⟨s, _, List.mem_cons_self, rfl⟩, List.forall_mem_singleton.2 rfl⟩

/-- A size is read for the word of its unit. -/
theorem trades_readFileSize : Trades fileSize.usesUp readFileSize := by
  intro ts
  obtain hnil | ⟨amount, s, word, rest, n, rfl, -, hread⟩ := readFileSize_cases ts
  · exact Or.inl hnil
  · rw [hread]
    exact Or.inr ⟨⟨s, _, List.mem_cons_of_mem _ List.mem_cons_self, rfl⟩,
      List.forall_mem_singleton.2 rfl⟩

theorem trades_readKinds : Trades kinds.usesUp readKinds := by
  intro ts
  obtain hnil | ⟨s, word, rest, u, rfl, -, hread⟩ := readKinds_cases ts
  · exact Or.inl hnil
  · rw [hread]
    exact Or.inr ⟨⟨s, _, List.mem_cons_self, rfl⟩, List.forall_mem_singleton.2 rfl⟩

theorem trades_readFileNames : Trades fileNames.usesUp readFileNames := by
  intro ts
  obtain hnil | ⟨s, word, rest, c, name, rfl, hread⟩ := readFileNames_cases ts
  · exact Or.inl hnil
  · rw [hread]
    exact Or.inr ⟨⟨s, _, List.mem_cons_self, rfl⟩, List.forall_mem_singleton.2 rfl⟩

theorem trades_readCalendarNames : Trades calendarNames.usesUp (readCalendarNames settings) := by
  intro ts
  obtain hnil | ⟨s, word, rest, p, n, rfl, -, hread⟩ := readCalendarNames_cases settings ts
  · exact Or.inl hnil
  · rw [hread]
    exact Or.inr ⟨⟨s, _, List.mem_cons_self, rfl⟩, List.forall_mem_singleton.2 rfl⟩

/-- A period that is named is read from its name. -/
theorem trades_readPeriods (counting : Counting) (number : Int) :
    Trades (periods none counting number).usesUp (readPeriods settings none counting number) := by
  intro ts
  obtain hnil | ⟨p, n, hperiod, -, hread⟩ := readPeriods_cases settings none counting number ts
  · exact Or.inl hnil
  · obtain ⟨t, ht, hword⟩ := Option.bind_eq_some_iff.1 hperiod
    obtain ⟨word, hword, -⟩ := Option.bind_eq_some_iff.1 hword
    obtain ⟨s, rfl⟩ := exists_literal_of_string? hword
    rw [hread]
    refine Or.inr ⟨⟨s, _, List.mem_of_head? ht, rfl⟩, List.forall_mem_singleton.2 ?_⟩
    cases counting <;> rfl

theorem trades_readComparator (c : Comparator) :
    Trades (comparators c).usesUp (readComparator settings c) := by
  intro ts
  refine or_iff_not_imp_left.2 fun h => ?_
  obtain ⟨u, hu⟩ := List.exists_mem_of_ne_nil _ h
  obtain ⟨s, l, hl, -⟩ := eq_of_mem_readComparator hu
  refine ⟨⟨s, l, hl, rfl⟩, fun u hu => ?_⟩
  obtain ⟨-, -, -, rfl⟩ := eq_of_mem_readComparator hu
  rfl

/-- A reading of literals uses them up, whatever its pattern is. -/
theorem Trades.usesUp {P : Term → Bool} {p : Pattern} {reader : Reader} (h : Trades P reader)
    (hruns : p.parts.countP Part.isRun ≤ 1) : UsesUp P p reader := by
  intro window after taken hmatch hlen hnew
  obtain ⟨⟨s, l, hl, hP⟩, hanswers⟩ := (h _).resolve_left hnew
  refine ⟨⟨_, ?_, hP⟩, hanswers⟩
  exact (p.mem_window_of_mem_captures hruns hmatch hlen hl).resolve_right (by simp [Term.nothing])

/-! ## Readings that answer with comparisons -/

/-- A written date has a value for each slot that says something. -/
theorem isSome_slotValue?_of_slotFields? {afternoon numericMonths : Bool} {slots : List (Period × Term)}
    {fields : List Term} (h : slotFields? afternoon numericMonths slots = some fields) :
    ∀ e ∈ slots, e.2.isValid = true → (slotValue? afternoon numericMonths e.1 e.2).isSome := by
  induction slots generalizing fields with
  | nil => simp
  | cons slot slots ih =>
    obtain ⟨p, t⟩ := slot
    rw [slotFields?] at h
    split at h
    · rename_i hinvalid
      refine List.forall_mem_cons.2 ⟨fun hvalid => ?_, ih h⟩
      simp [hvalid] at hinvalid
    · obtain ⟨n, hn, h⟩ := Option.bind_eq_some_iff.1 h
      obtain ⟨rest, hrest, -⟩ := Option.bind_eq_some_iff.1 h
      exact List.forall_mem_cons.2 ⟨fun _ => by rw [hn]; rfl, ih hrest⟩

theorem isComparison_of_mem_readPeriods {fixed : Option Period} {counting : Counting} {number : Int}
    (hu : u ∈ readPeriods settings fixed counting number ts) : u.isComparison = true := by
  obtain hnil | ⟨p, n, -, -, hread⟩ := readPeriods_cases settings fixed counting number ts
  · simp [hnil] at hu
  · obtain rfl := List.mem_singleton.1 (hread ▸ hu)
    cases counting <;> rfl

theorem isComparison_of_mem_readWrittenDate {afternoon numericMonths : Bool}
    (hu : u ∈ readWrittenDate afternoon numericMonths ts) : u.isComparison = true := by
  obtain ⟨p, t, n, -, -, -, rfl⟩ := exists_of_mem_readWrittenDate hu
  rfl

/-- A property answers with a comparison. -/
theorem isComparison_of_mem_readProperty {directory : Directory} {p : Uri} {d : Domain}
    (hu : u ∈ readProperty directory p d ts) : u.isComparison = true := by
  obtain ⟨t, -, v, c, w, -, -, rfl⟩ := eq_of_mem_readProperty hu
  rfl

theorem isComparison_of_mem_readSubquery {flags : ParserFlags} {p : Uri}
    (hu : u ∈ readSubquery settings flags p ts) : u.isComparison = true := by
  obtain ⟨-, rfl⟩ := eq_of_mem_readSubquery hu
  rfl

/-- The periods of a written date whose values are integers, rather than fields. -/
def isCounted : Period → Bool
  | .month | .week | .dayOfWeek => false
  | _ => true

/-- A slot that is counted is filled by an integer. -/
theorem integer?_of_slotValue? {afternoon numericMonths : Bool} {p : Period} (hp : isCounted p = true)
    (h : (slotValue? afternoon numericMonths p t).isSome) : t.integer?.isSome := by
  have hrange {low high : Int} (h : (inRange? low high t).isSome) : t.integer?.isSome := by
    obtain ⟨n, hn⟩ := Option.isSome_iff_exists.1 h
    rw [(Option.filter_eq_some_iff.1 hn).1]
    rfl
  cases p with
  | month => simp [isCounted] at hp
  | week => simp [isCounted] at hp
  | dayOfWeek => simp [isCounted] at hp
  | hour =>
    rw [slotValue?] at h
    split at h
    · exact hrange (by simpa using h)
    · exact hrange h
  | _ => exact hrange h

/-- Whether the part is a slot of a written date that takes an integer. -/
def isCountedSlot : Part → Bool
  | .capture slot => slotPeriods[slot]?.any isCounted
  | _ => false

/-- A reading with comparisons for answers uses up the literal that a keyword stands for. -/
theorem usesUp_of_keyword {p : Pattern} {reader : Reader} (hruns : p.parts.countP Part.isRun ≤ 1)
    (hanswers : ∀ ts, ∀ u ∈ reader ts, u.isComparison = true)
    (hkeyword : ∃ part ∈ p.parts, part.isKeyword = true) : UsesUp (!·.isComparison) p reader := by
  intro window after taken hmatch hlen hnew
  refine ⟨?_, fun u hu => by simp [hanswers _ u hu]⟩
  obtain ⟨part, hpart, hkeyword⟩ := hkeyword
  cases part with
  | keyword k =>
    obtain ⟨t, ht, l, hl⟩ := p.exists_literal_mem_window hruns hmatch hlen hpart
    refine ⟨t, ht, ?_⟩
    cases t with
    | literal s l => rfl
    | _ => simp [Term.literal?] at hl
  | _ => contradiction

/-- A written date uses up the integers in its slots. -/
theorem usesUp_of_isCountedSlot {p : Pattern} {afternoon numericMonths : Bool}
    (hruns : p.parts.countP Part.isRun ≤ 1) (hslot : ∃ part ∈ p.parts, isCountedSlot part = true) :
    UsesUp (!·.isComparison) p (readWrittenDate afternoon numericMonths) := by
  intro window after taken hmatch hlen hnew
  refine ⟨?_, fun u hu => by simp [isComparison_of_mem_readWrittenDate hu]⟩
  obtain ⟨part, hpart, hslot⟩ := hslot
  cases part with
  | capture slot =>
    obtain ⟨q, hq, hcounted⟩ := (Option.any_eq_true _ _).1 hslot
    obtain ⟨t, ht, hcaptured⟩ := p.exists_getElem?_captures hruns hmatch hlen hpart
    refine ⟨t, ht, ?_⟩
    have hmem : (q, t) ∈ slotPeriods.zip (taken.captures p.slotCount) :=
      List.mem_of_getElem? (List.getElem?_zip_eq_some.2 ⟨hq, hcaptured⟩)
    cases t with
    | comparison s head value =>
      have hvalue := isSome_slotValue?_of_slotFields? (fields_of_readWrittenDate hnew) _ hmem rfl
      exact absurd (integer?_of_slotValue? hcounted hvalue) (by simp [Term.integer?, Term.literal?])
    | _ => rfl
  | _ => contradiction

/-! ## All readings -/

/-- Whether a pattern has what a reading needs to use something up. -/
def isFed : Reading → Pattern → Bool
  | periods (some _) .., p | properties .., p | subqueries _, p => p.parts.any Part.isKeyword
  | writtenDate .., p => p.parts.any fun part => part.isKeyword || isCountedSlot part
  | _, _ => true

/-- Every reading uses up a term of its sort, if its pattern feeds it one. -/
theorem usesUp_apply (x : Surroundings) {r : Reading} {p : Pattern} (hruns : p.parts.countP Part.isRun ≤ 1)
    (hfed : r.isFed p = true) : UsesUp r.usesUp p (r.apply x) := by
  cases r with
  | units => exact trades_readUnits.usesUp hruns
  | numbers => exact trades_readNumbers.usesUp hruns
  | decimals => exact trades_readDecimals.usesUp hruns
  | fileSize => exact trades_readFileSize.usesUp hruns
  | kinds => exact trades_readKinds.usesUp hruns
  | fileNames => exact trades_readFileNames.usesUp hruns
  | calendarNames => exact trades_readCalendarNames.usesUp hruns
  | comparators c => exact (trades_readComparator c).usesUp hruns
  | periods fixed counting number =>
    cases fixed with
    | none => exact (trades_readPeriods counting number).usesUp hruns
    | some q =>
      exact usesUp_of_keyword hruns (fun ts u => isComparison_of_mem_readPeriods)
        (List.any_eq_true.1 hfed)
  | writtenDate afternoon numericMonths =>
    obtain ⟨part, hpart, hfed⟩ := List.any_eq_true.1 hfed
    rcases Bool.or_eq_true_iff.1 hfed with hkeyword | hslot
    · exact usesUp_of_keyword hruns (fun ts u => isComparison_of_mem_readWrittenDate)
        ⟨part, hpart, hkeyword⟩
    · exact usesUp_of_isCountedSlot hruns ⟨part, hpart, hslot⟩
  | properties q d =>
    exact usesUp_of_keyword hruns (fun ts u => isComparison_of_mem_readProperty)
      (List.any_eq_true.1 hfed)
  | subqueries q =>
    exact usesUp_of_keyword hruns (fun ts u => isComparison_of_mem_readSubquery)
      (List.any_eq_true.1 hfed)

end Reading

/-! ## All phrasings -/

namespace Phrasing

/-- Whether all patterns of a phrasing can be read, have one run at most, and have what the reading needs. -/
def isFed (ph : Phrasing) : Bool :=
  ph.patterns.all fun pattern =>
    match Pattern.ofText pattern with
    | .ok p => decide (p.parts.countP Part.isRun ≤ 1) && ph.reading.isFed p
    | .error _ => false

theorem exists_of_isFed {ph : Phrasing} (h : ph.isFed = true) {pattern : String}
    (hpattern : pattern ∈ ph.patterns) : ∃ p, Pattern.ofText pattern = .ok p ∧
      p.parts.countP Part.isRun ≤ 1 ∧ ph.reading.isFed p = true := by
  have hfed := List.all_eq_true.1 h pattern hpattern
  split at hfed
  · rename_i p hp
    obtain ⟨hruns, hfed⟩ := Bool.and_eq_true_iff.1 hfed
    exact ⟨p, hp, of_decide_eq_true hruns, hfed⟩
  · contradiction

/-- All built-in phrasings feed their readings. -/
theorem isFed_of_mem (flags : ParserFlags) {ph : Phrasing} (h : ph ∈ ofDates flags ++ afterDates) :
    ph.isFed = true := by
  have hall : ∀ names, (ofDates ⟨false, names⟩ ++ afterDates).all isFed = true := by decide +kernel
  exact List.all_eq_true.1 (hall flags.fileNames) ph h

/-- No pattern of the phrasings that are tried on a text is rewritten with forever. Were there no limit, then
rewriting a list would stop after no more steps than the list has terms, and the limit is never met on a
list that is shorter. -/
theorem rewrite_ends (x : Surroundings) {ph : Phrasing} (hph : ph ∈ ofDates x.flags ++ afterDates)
    {pattern : String} (hpattern : pattern ∈ ph.patterns) :
    ∃ p, Pattern.ofText pattern = .ok p ∧ ∀ ts,
      (∃ n ≤ ts.length, ∃ us, LeftmostSteps p (ph.reading.apply x) n ts us ∧
        IsRewritten p (ph.reading.apply x) us) ∧
      (∀ n us, LeftmostSteps p (ph.reading.apply x) n ts us → n ≤ ts.length) ∧
      (ts.length < 4096 → (rewrite p (ph.reading.apply x) ts).steps < 4096 ∧
        IsRewritten p (ph.reading.apply x) (rewrite p (ph.reading.apply x) ts).terms) := by
  obtain ⟨p, hp, hruns, hfed⟩ := exists_of_isFed (isFed_of_mem x.flags hph) hpattern
  refine ⟨p, hp, fun ts => ?_⟩
  obtain ⟨hle, hends⟩ := (Reading.usesUp_apply x hruns hfed).ends ph.reading.usesUp_withSpan ts
  obtain ⟨-, hsteps, -⟩ := rewriteWithin_leftmost p (ph.reading.apply x) (ts.length + 1) ts
  refine ⟨⟨_, hle _ _ hsteps, _, hsteps, hends _ (Nat.lt_succ_self _)⟩, hle, fun hlength => ?_⟩
  obtain ⟨-, hsteps, -⟩ := rewriteWithin_leftmost p (ph.reading.apply x) maxRewrites ts
  exact ⟨(hle _ _ hsteps).trans_lt hlength, hends _ hlength⟩

/-- Cutting numbers off their units ends on "2.5KB", which becomes four terms. -/
theorem rewrite_ends_units :
    let x : Surroundings := ⟨.english, {}, {}⟩
    let ph : Phrasing := { reading := .units, patterns := ["%1"] }
    ph ∈ ofDates x.flags ++ afterDates ∧ "%1" ∈ ph.patterns ∧
      ∃ p, Pattern.ofText "%1" = .ok p ∧
        (rewrite p (ph.reading.apply x) [.literal ⟨0, 5⟩ (.string "2.5KB")]).steps < 4096 := by
  intro x ph
  have hph : ph ∈ ofDates x.flags ++ afterDates := by simp [ofDates, ofValues, ph]
  obtain ⟨p, hp, hends⟩ := rewrite_ends x hph (List.mem_singleton.2 rfl)
  refine ⟨hph, List.mem_singleton.2 rfl, p, hp, ?_⟩
  exact ((hends [.literal ⟨0, 5⟩ (.string "2.5KB")]).2.2 (by decide)).1

end Phrasing
end DesktopSearch
