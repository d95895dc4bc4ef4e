import DesktopSearch.Parser.Phrasing
import DesktopSearch.Proofs.Fusion.Tuning
import DesktopSearch.Proofs.Parser.Value
import DesktopSearch.Proofs.Reading.Glued

/-!
# Answers of readings

Whatever a reading is given, its answers are of a few forms. Before dates are folded they are values,
types, calendar fields and comparisons with names of files (`answer_of_mem_apply`). After that they are
comparisons : of an open property with a given literal, of a property with what a literal is converted to,
and of a property with what the given terms are fused to.

A reading of a word or of two answers with one term or not at all. What it is given then, and what the
answer is, is said once for each of them (`Reading.readNumbers_cases` and the lemmas behind it). The parts
of a written date are read from the captured terms (`Reading.exists_of_mem_readWrittenDate`).
-/

namespace DesktopSearch

open Vocabulary

namespace Reading

/-! ## Words and numbers that are read -/

theorem exists_literal_of_integer? {t : Term} {n : Int} (h : t.integer? = some n) :
    ∃ s, t = .literal s (.integer n) := by
  obtain ⟨l, hl, hn⟩ := Option.bind_eq_some_iff.1 h
  cases t with
  | literal s l' =>
    obtain rfl := Option.some.inj hl
    cases l' with
    | integer m => exact ⟨s, by rw [Option.some.inj hn]⟩
    | _ => simp [Literal.integer?] at hn
  | _ => simp [Term.literal?] at hl

/-- A number is read from one word, or nothing is. -/
theorem readNumbers_cases (settings : Settings) (ts : List Term) : readNumbers settings ts = [] ∨
    ∃ (s : Span) (word : String) (rest : List Term) (n : Int),
      ts = .literal s (.string word) :: rest ∧ number? settings word = some n ∧
        readNumbers settings ts = answer (.integer n) := by
  cases ts with
  | nil => exact Or.inl rfl
  | cons t rest =>
    rw [readNumbers]
    split
    · rename_i n hnumber
      obtain ⟨word, hword, hn⟩ := Option.bind_eq_some_iff.1 hnumber
      obtain ⟨s, rfl⟩ := exists_literal_of_string? hword
      exact Or.inr ⟨s, word, rest, n, rfl, hn, rfl⟩
    · exact Or.inl rfl

/-- A decimal is read from two integers, or nothing is. -/
theorem readDecimals_cases (ts : List Term) : readDecimals ts = [] ∨
    ∃ (s r : Span) (n k : Int) (rest : List Term) (d : Double),
      ts = .literal s (.integer n) :: .literal r (.integer k) :: rest ∧
        readDecimals ts = answer (.double d) := by
  match ts with
  | [] | [_] => exact Or.inl rfl
  | whole :: part :: rest =>
    rw [readDecimals]
    split
    · rename_i n k hn hk
      obtain ⟨s, rfl⟩ := exists_literal_of_integer? hn
      obtain ⟨r, rfl⟩ := exists_literal_of_integer? hk
      dsimp only
      generalize (if (Term.literal r (.integer k)).span.length = 0 then (toString k).length
        else (Term.literal r (.integer k)).span.length) = places
      split
      · exact Or.inl rfl
      · exact Or.inr ⟨s, r, n, k, rest, _, rfl, rfl⟩
    · exact Or.inl rfl

/-- A size is read from an amount and a word for its unit, or nothing is. -/
theorem readFileSize_cases (ts : List Term) : readFileSize ts = [] ∨
    ∃ (amount : Term) (s : Span) (word : String) (rest : List Term) (n : Int),
      ts = amount :: .literal s (.string word) :: rest ∧ n.natAbs < Text.int64Limit ∧
        readFileSize ts = answer (.integer n) := by
  match ts with
  | [] | [_] => exact Or.inl rfl
  | amount :: unit :: rest =>
    rw [readFileSize]
    split
    · rename_i d bytes _ hunit
      obtain ⟨word, hword, -⟩ := Option.bind_eq_some_iff.1 hunit
      obtain ⟨s, rfl⟩ := exists_literal_of_string? hword
      dsimp only
      split
      · rename_i n _
        split
        · rename_i hlt
          exact Or.inr ⟨amount, s, word, rest, n, rfl, hlt, rfl⟩
        · exact Or.inl rfl
      · exact Or.inl rfl
    · exact Or.inl rfl

/-- A kind is read from one word, or nothing is. -/
theorem readKinds_cases (ts : List Term) : readKinds ts = [] ∨
    ∃ (s : Span) (word : String) (rest : List Term) (u : Uri),
      ts = .literal s (.string word) :: rest ∧ kind? word = some u ∧
        readKinds ts = [.types .empty [u]] := by
  cases ts with
  | nil => exact Or.inl rfl
  | cons t rest =>
    rw [readKinds]
    split
    · rename_i u hkind
      obtain ⟨word, hword, hu⟩ := Option.bind_eq_some_iff.1 hkind
      obtain ⟨s, rfl⟩ := exists_literal_of_string? hword
      exact Or.inr ⟨s, word, rest, u, rfl, hu, rfl⟩
    · exact Or.inl rfl

/-- The answer stands where the word does, and so does the name that it compares with. -/
theorem readFileNames_cases (ts : List Term) : readFileNames ts = [] ∨
    ∃ (s : Span) (word : String) (rest : List Term) (c : Comparator) (name : String),
      ts = .literal s (.string word) :: rest ∧
        readFileNames ts =
          [(Term.compare (some Nfo.fileName) (.literal s (.string name)) c).withSpan s] := by
  cases ts with
  | nil => exact Or.inl rfl
  | cons t rest =>
    rw [readFileNames]
    split
    · rename_i word hword
      obtain ⟨s, rfl⟩ := exists_literal_of_string? hword
      dsimp only
      split
      · split
        · exact Or.inr ⟨s, word, rest, _, _, rfl, rfl⟩
        · exact Or.inr ⟨s, word, rest, _, _, rfl, rfl⟩
      · exact Or.inl rfl
    · exact Or.inl rfl

/-- A month or a day of the week is read from its name, or nothing is. -/
theorem readCalendarNames_cases (settings : Settings) (ts : List Term) :
    readCalendarNames settings ts = [] ∨
    ∃ (s : Span) (word : String) (rest : List Term) (p : Period) (n : Nat),
      ts = .literal s (.string word) :: rest ∧
        (p = .month ∧ settings.month? word = some n ∨
          p = .dayOfWeek ∧ settings.weekday? word = some n) ∧
        readCalendarNames settings ts = [.absoluteField p n] := by
  cases ts with
  | nil => exact Or.inl rfl
  | cons t rest =>
    rw [readCalendarNames]
    split
    · rename_i word hword
      obtain ⟨s, rfl⟩ := exists_literal_of_string? hword
      split
      · rename_i n hn
        exact Or.inr ⟨s, word, rest, .month, n, rfl, Or.inl ⟨rfl, hn⟩, rfl⟩
      · split
        · rename_i n hn
          exact Or.inr ⟨s, word, rest, .dayOfWeek, n, rfl, Or.inr ⟨rfl, hn⟩, rfl⟩
        · exact Or.inl rfl
    · exact Or.inl rfl

/-! ## Periods and written dates that are read -/

/-- The number next to a period : the second capture, or a fixed number. -/
def numberBeside? (number : Int) (ts : List Term) : Option Int :=
  match ts[1]? with
  | some t => t.integer?
  | none => some number

theorem readPeriods_eq_match (settings : Settings) (fixed : Option Period) (counting : Counting)
    (number : Int) (ts : List Term) :
    readPeriods settings fixed counting number ts =
      match fixed.or (ts.head?.bind fun t => t.string?.bind settings.period?), numberBeside? number ts with
      | some p, some n => [countedField p n counting]
      | _, _ => [] :=
  rfl

/-- One field is read from a period and a number, or nothing is. -/
theorem readPeriods_cases (settings : Settings) (fixed : Option Period) (counting : Counting)
    (number : Int) (ts : List Term) : readPeriods settings fixed counting number ts = [] ∨
    ∃ (p : Period) (n : Int),
      fixed.or (ts.head?.bind fun t => t.string?.bind settings.period?) = some p ∧
        numberBeside? number ts = some n ∧
        readPeriods settings fixed counting number ts = [countedField p n counting] := by
  rw [readPeriods_eq_match]
  split
  · rename_i p n hperiod hnumber
    exact Or.inr ⟨p, n, hperiod, hnumber, rfl⟩
  · exact Or.inl rfl

variable {afternoon numericMonths : Bool} {u : Term}

/-- The fields of slots have the values of slots that say something, and stand in the places of these. -/
theorem exists_of_mem_slotFields? {slots : List (Period × Term)} {fields : List Term}
    (h : slotFields? afternoon numericMonths slots = some fields) (hu : u ∈ fields) :
    ∃ p t n, (p, t) ∈ slots ∧ t.isValid = true ∧ slotValue? afternoon numericMonths p t = some n ∧
      u = (Term.absoluteField p n).withSpan t.span := by
  induction slots generalizing fields with
  | nil =>
    obtain rfl := Option.some.inj h
    simp at hu
  | cons slot slots ih =>
    have hmore {rest : List Term} (hrest : slotFields? afternoon numericMonths slots = some rest)
        (hu : u ∈ rest) :
        ∃ p t n, (p, t) ∈ slot :: slots ∧ t.isValid = true ∧
          slotValue? afternoon numericMonths p t = some n ∧
          u = (Term.absoluteField p n).withSpan t.span := by
      obtain ⟨p, t, n, hmem, hfield⟩ := ih hrest hu
      exact ⟨p, t, n, List.mem_cons_of_mem slot hmem, hfield⟩
    obtain ⟨p, t⟩ := slot
    rw [slotFields?] at h
    split at h
    · exact hmore h hu
    · rename_i hvalid
      obtain ⟨n, hn, h⟩ := Option.bind_eq_some_iff.1 h
      obtain ⟨rest, hrest, h⟩ := Option.bind_eq_some_iff.1 h
      obtain rfl := Option.some.inj h
      obtain rfl | hu := List.mem_cons.1 hu
      · exact ⟨p, t, n, List.mem_cons_self, by simpa using hvalid, hn, rfl⟩
      · exact hmore hrest hu

theorem fields_of_readWrittenDate {ts : List Term}
    (h : readWrittenDate afternoon numericMonths ts ≠ []) :
    slotFields? afternoon numericMonths (slotPeriods.zip ts) =
      some (readWrittenDate afternoon numericMonths ts) := by
  rw [readWrittenDate] at h ⊢
  cases hfields : slotFields? afternoon numericMonths (slotPeriods.zip ts) with
  | none => exact absurd (by rw [hfields]; rfl) h
  | some fields => rfl

/-- Each part of a written date is read from one of the given terms, and stands in its place. -/
theorem exists_of_mem_readWrittenDate {ts : List Term}
    (hu : u ∈ readWrittenDate afternoon numericMonths ts) :
    ∃ p t n, t ∈ ts ∧ t.isValid = true ∧ slotValue? afternoon numericMonths p t = some n ∧
      u = (Term.absoluteField p n).withSpan t.span := by
  obtain ⟨p, t, n, hmem, hfield⟩ :=
    exists_of_mem_slotFields? (fields_of_readWrittenDate (List.ne_nil_of_mem hu)) hu
  exact ⟨p, t, n, (List.of_mem_zip hmem).2, hfield⟩

end Reading

/-! ## Forms of answers -/

/-- What readings answer before dates are folded. -/
inductive Answer (settings : Settings) : Term → Prop
  | literal (s : Span) (l : Literal) (read : l.IsRead settings) : Answer settings (.literal s l)
  | types (s : Span) (u : Uri) : Answer settings (.types s [u])
  | absoluteField (s : Span) (p : Period) (n : Int) :
    Answer settings ((Term.absoluteField p n).withSpan s)
  | relativeField (s : Span) (p : Period) (n : Int) :
    Answer settings ((Term.relativeField p n).withSpan s)
  | fileName (s : Span) (c : Comparator) (r : Span) (word : String) :
    Answer settings ((Term.compare (some Nfo.fileName) (.literal r (.string word)) c).withSpan s)

namespace Reading

variable {settings : Settings} {ts : List Term} {u : Term}

/-! ## Numbers -/

theorem answer_of_mem_answer {l : Literal} (hl : l.IsRead settings) (h : u ∈ answer l) :
    Answer settings u :=
  List.mem_singleton.1 h ▸ .literal _ l hl

/-- The pieces of a word are words. -/
theorem answer_of_mem_readUnits (hu : u ∈ readUnits ts) : Answer settings u := by
  obtain hnil | ⟨_, _, _, g, -, -, -, -, hpieces⟩ := readUnits_cases ts
  · simp [hnil] at hu
  · obtain ⟨cs, -, place, rfl⟩ := exists_of_mem_pieceTerms (hpieces ▸ hu)
    exact .literal _ _ (Literal.isRead_string _)

theorem answer_of_mem_readNumbers (hu : u ∈ readNumbers settings ts) : Answer settings u := by
  obtain hnil | ⟨_, _, _, n, -, hn, hread⟩ := readNumbers_cases settings ts
  · simp [hnil] at hu
  · exact answer_of_mem_answer (isRead_of_number? hn) (hread ▸ hu)

theorem answer_of_mem_readDecimals (hu : u ∈ readDecimals ts) : Answer settings u := by
  obtain hnil | ⟨_, _, _, _, _, d, -, hread⟩ := readDecimals_cases ts
  · simp [hnil] at hu
  · exact answer_of_mem_answer (Literal.isRead_double d) (hread ▸ hu)

theorem answer_of_mem_readFileSize (hu : u ∈ readFileSize ts) : Answer settings u := by
  obtain hnil | ⟨_, _, _, _, n, -, hlt, hread⟩ := readFileSize_cases ts
  · simp [hnil] at hu
  · exact answer_of_mem_answer (Literal.isRead_integer fun _ => by omega) (hread ▸ hu)

/-! ## Kinds and names of files -/

theorem answer_of_mem_readKinds (hu : u ∈ readKinds ts) : Answer settings u := by
  obtain hnil | ⟨_, _, _, v, -, -, hread⟩ := readKinds_cases ts
  · simp [hnil] at hu
  · rw [hread, List.mem_singleton] at hu
    exact hu ▸ .types _ _

theorem answer_of_mem_readFileNames (hu : u ∈ readFileNames ts) : Answer settings u := by
  obtain hnil | ⟨s, _, _, c, name, -, hread⟩ := readFileNames_cases ts
  · simp [hnil] at hu
  · rw [hread, List.mem_singleton] at hu
    exact hu ▸ .fileName s c s name

/-! ## Dates -/

theorem answer_absoluteField (p : Period) (n : Int) : Answer settings (.absoluteField p n) :=
  .absoluteField .empty p n

theorem answer_relativeField (p : Period) (n : Int) : Answer settings (.relativeField p n) :=
  .relativeField .empty p n

theorem answer_of_mem_readCalendarNames (hu : u ∈ readCalendarNames settings ts) :
    Answer settings u := by
  obtain hnil | ⟨_, _, _, p, n, -, -, hread⟩ := readCalendarNames_cases settings ts
  · simp [hnil] at hu
  · rw [hread, List.mem_singleton] at hu
    exact hu ▸ answer_absoluteField p n

theorem answer_of_mem_readPeriods {fixed : Option Period} {counting : Counting} {number : Int}
    (hu : u ∈ readPeriods settings fixed counting number ts) : Answer settings u := by
  obtain hnil | ⟨p, n, -, -, hread⟩ := readPeriods_cases settings fixed counting number ts
  · simp [hnil] at hu
  · obtain rfl := List.mem_singleton.1 (hread ▸ hu)
    cases counting with
    | absolute => exact answer_absoluteField p n
    | ahead => exact answer_relativeField p n
    | back => exact answer_relativeField p _

theorem answer_of_mem_readWrittenDate {afternoon numericMonths : Bool}
    (hu : u ∈ readWrittenDate afternoon numericMonths ts) : Answer settings u := by
  obtain ⟨p, t, n, -, -, -, rfl⟩ := exists_of_mem_readWrittenDate hu
  exact .absoluteField t.span p n

/-- Whether a reading is for the parts of dates and for what stands beside them. -/
def IsBeforeDates : Reading → Prop
  | comparators _ => False
  | properties _ _ => False
  | subqueries _ => False
  | _ => True

/-- The answers of the readings before dates are folded. -/
theorem answer_of_mem_apply {x : Surroundings} {r : Reading} (h : r.IsBeforeDates)
    (hu : u ∈ r.apply x ts) : Answer x.settings u := by
  cases r with
  | units => exact answer_of_mem_readUnits hu
  | numbers => exact answer_of_mem_readNumbers hu
  | decimals => exact answer_of_mem_readDecimals hu
  | fileSize => exact answer_of_mem_readFileSize hu
  | kinds => exact answer_of_mem_readKinds hu
  | fileNames => exact answer_of_mem_readFileNames hu
  | calendarNames => exact answer_of_mem_readCalendarNames hu
  | periods fixed counting number => exact answer_of_mem_readPeriods hu
  | writtenDate afternoon numericMonths => exact answer_of_mem_readWrittenDate hu
  | comparators c => contradiction
  | properties p d => contradiction
  | subqueries p => contradiction

end Reading

theorem Phrasing.isBeforeDates_of_mem_ofDates {flags : ParserFlags} {ph : Phrasing}
    (h : ph ∈ ofDates flags) : ph.reading.IsBeforeDates := by
  have hall : ∀ ph ∈ ofDates flags, ph.reading.IsBeforeDates := by
    have hvalues : ∀ ph ∈ ofValues flags, ph.reading.IsBeforeDates := by
      rw [ofValues, List.forall_mem_append]
      refine ⟨by simp [Reading.IsBeforeDates], ?_⟩
      split
      · simp [Reading.IsBeforeDates]
      · simp
    have hperiods : ∀ ph ∈ ofPeriods, ph.reading.IsBeforeDates := by
      simp [ofPeriods, proposed, Reading.IsBeforeDates]
    have hdates : ∀ ph ∈ ofWrittenDates, ph.reading.IsBeforeDates := by
      simp [ofWrittenDates, proposed, Reading.IsBeforeDates]
    exact List.forall_mem_append.2 ⟨List.forall_mem_append.2 ⟨hvalues, hperiods⟩, hdates⟩
  exact hall ph h

/-! ## Comparisons -/

/-- The values of a property are of the sort that the domain reads. -/
def Domain.Fits (d : Domain) (p : Uri) : Prop :=
  match d with
  | tag | contact | address => HasResources p
  | _ => HasLiterals p

/-- A literal is converted to itself or to a resource, as it fits the properties of the domain. -/
theorem Domain.eq_of_convert? {d : Domain} {directory : Directory} {t v : Term}
    (h : d.convert? directory t = some v) :
    (∃ s l, t = .literal s l ∧ v = .literal s l ∧ ∀ p, d.Fits p → HasLiterals p) ∨
      ∃ s u, v = .resource s u ∧ ∀ p, d.Fits p → HasResources p := by
  unfold convert? at h
  split at h
  · rename_i s l
    split at h
    · exact Or.inl ⟨s, _, rfl, (Option.some.inj h).symm, fun _ hd => hd⟩
    · exact Or.inl ⟨s, _, rfl, (Option.some.inj h).symm, fun _ hd => hd⟩
    · exact Or.inl ⟨s, _, rfl, (Option.some.inj h).symm, fun _ hd => hd⟩
    · exact Or.inl ⟨s, _, rfl, (Option.some.inj h).symm, fun _ hd => hd⟩
    · exact Or.inl ⟨s, _, rfl, (Option.some.inj h).symm, fun _ hd => hd⟩
    · obtain ⟨u, hu, rfl⟩ := Option.map_eq_some_iff.1 h
      refine Or.inr ⟨s, u, rfl, fun p hd => ?_⟩
      cases d with
      | tag => exact hd
      | contact => exact hd
      | address => exact hd
      | _ => simp [find?] at hu
    · simp at h
  · simp at h

namespace Reading

variable {ts : List Term} {u : Term}

/-- The answer of a comparator is a comparison of an open property with a given literal. -/
theorem eq_of_mem_readComparator {settings : Settings} {c : Comparator}
    (hu : u ∈ readComparator settings c ts) :
    ∃ s l, .literal s l ∈ ts ∧ u = .compare none (.literal s l) c := by
  unfold readComparator at hu
  split at hu
  · rename_i t ts
    cases t with
    | literal s l =>
      refine ⟨s, l, List.mem_cons_self, ?_⟩
      split at hu
      · exact List.mem_singleton.1 (List.mem_ite_nil_left.1 hu).2
      · exact List.mem_singleton.1 hu
      · simp at hu
    | _ => simp [Term.literal?] at hu
  · simp at hu

/-- The answer of a property is its comparison with what the value of a given term is converted to. -/
theorem eq_of_mem_readProperty {directory : Directory} {p : Uri} {d : Domain}
    (hu : u ∈ readProperty directory p d ts) :
    ∃ t ∈ ts, ∃ v c w, value? t = some (v, c) ∧ d.convert? directory v = some w ∧
      u = .compare (some p) w (c.getD (if w.string?.isSome then .contains else .equal)) := by
  unfold readProperty at hu
  split at hu
  · rename_i t ts
    split at hu
    · rename_i v c hvalue
      split at hu
      · rename_i w hconvert
        exact ⟨t, by simp, v, c, w, hvalue, hconvert, List.mem_singleton.1 hu⟩
      · simp at hu
    · simp at hu
  · simp at hu

/-- The answer of a relation is its comparison with what the given terms are fused to. -/
theorem eq_of_mem_readSubquery {settings : Settings} {flags : ParserFlags} {p : Uri}
    (hu : u ∈ readSubquery settings flags p ts) :
    (fuse settings flags ts 0).1.isValid = true ∧
      u = .compare (some p) (fuse settings flags ts 0).1 .equal := by
  rw [readSubquery] at hu
  obtain ⟨hvalid, hu⟩ := List.mem_ite_nil_right.1 hu
  exact ⟨hvalid, List.mem_singleton.1 hu⟩

end Reading

end DesktopSearch
