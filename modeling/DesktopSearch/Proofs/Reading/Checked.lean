import DesktopSearch.Proofs.Fusion.Checked
import DesktopSearch.Proofs.Pattern.Checked
import DesktopSearch.Proofs.Reading.Small

/-!
# Checked readings

Readings count the entries of lists, turn numbers around for "ago", and count hours from noon.
`Checked.apply` repeats them and gives up where such a number needs more than 64 bits. It never does :
before dates are folded all integers are small (`Checked.follows_apply`), and the readings after that
compute with integers only where they fuse what they capture (`Checked.follows_apply_afterDates`).
-/

namespace DesktopSearch

open Text

namespace Checked

/-! ## Computations that are checked -/

/-- The place of the entry that lists a word. -/
def place? (entries : List String) (word : String) : Option (Option Int) :=
  match Settings.place? entries word with
  | some i => (checked? i).map some
  | none => some none

/-- The place of the entry that lists a word, from one. -/
def number? (entries : List String) (word : String) : Option (Option Int) :=
  match place? entries word with
  | some (some i) => (checked? (i + 1)).map some
  | place => place

/-- Reads an integer. -/
def readNumbers (settings : Settings) : Reader
  | t :: _ =>
    match t.string? with
    | some text => do
      let n? ← if !text.isEmpty && text.toList.all Char.isDigit then some (readInt? int64Limit text.toList)
        else (do
          match ← place? settings.numberWords text with
          | some n => return some n
          | none => number? settings.ordinalWords text)
      return match n? with
        | some n => Reading.answer (.integer n)
        | none => []
    | none => some []
  | [] => some []

/-- Reads the name of a month or of a weekday. -/
def readCalendarNames (settings : Settings) : Reader
  | t :: _ =>
    match t.string? with
    | some word => do
      match ← number? settings.monthNames word with
      | some n => return [.absoluteField .month n]
      | none =>
        match ← number? settings.weekdayNames word with
        | some n => return [.absoluteField .dayOfWeek n]
        | none => return []
    | none => some []
  | [] => some []

/-- The field of a number next to a period. -/
def countedField (p : Period) (n : Int) : Reading.Counting → Option Term
  | .absolute => some (.absoluteField p n)
  | .ahead => some (.relativeField p n)
  | .back => (checked? (-n)).map (.relativeField p)

/-- Reads a period with a number. -/
def readPeriods (settings : Settings) (fixed : Option Period) (counting : Reading.Counting) (number : Int) :
    Reader := fun ts =>
  match fixed.or (ts.head?.bind fun t => t.string?.bind settings.period?), Reading.numberBeside? number ts with
  | some p, some n => (countedField p n counting).map ([·])
  | _, _ => some []

/-- The value that a captured term gives a period. -/
def slotValue? (afternoon numericMonths : Bool) (p : Period) (t : Term) : Option (Option Int) :=
  if p = .hour ∧ afternoon then
    match Reading.inRange? 0 12 t with
    | some n =>
      if n = 12 then some (some 12)
      else (checked? (n + 12)).map some
    | none => some none
  else some (Reading.slotValue? afternoon numericMonths p t)

/-- The fields of the captured terms, if all of them are understood. -/
def slotFields? (afternoon numericMonths : Bool) : List (Period × Term) → Option (Option (List Term))
  | [] => some (some [])
  | (p, t) :: rest =>
    if !t.isValid then slotFields? afternoon numericMonths rest
    else do
      match ← slotValue? afternoon numericMonths p t with
      | some n =>
        let fields? ← slotFields? afternoon numericMonths rest
        return fields?.map ((Term.absoluteField p n).withSpan t.span :: ·)
      | none => return none

/-- Reads the parts of a written date or time. -/
def readWrittenDate (afternoon numericMonths : Bool) : Reader := fun ts => do
  let fields? ← slotFields? afternoon numericMonths (Reading.slotPeriods.zip ts)
  return fields?.getD []

/-- Binds what all the captured terms come to as a query of their own. -/
def readSubquery (settings : Settings) (flags : ParserFlags) (property : Uri) : Reader := fun ts => do
  let nested ← fuse settings flags ts
  return if nested.isValid then [.compare (some property) nested .equal] else []

/-- Reads captured terms. The readings that are not repeated here do no sums with integers of 64 bits. -/
def apply (x : Surroundings) (r : Reading) : Reader :=
  match r with
  | .numbers => readNumbers x.settings
  | .calendarNames => readCalendarNames x.settings
  | .periods fixed counting number => readPeriods x.settings fixed counting number
  | .writtenDate afternoon numericMonths => readWrittenDate afternoon numericMonths
  | .subqueries property => readSubquery x.settings x.flags property
  | r => fun ts => some (r.apply x ts)

/-! ## Places -/

variable {entries : List String}

theorem checked?_natCast {n : Nat} (h : n < int64Limit) : checked? (n : Int) = some (n : Int) :=
  (hasInt64_of_natAbs_lt (v := n) h).checked?_eq

/-- A place in a list that has fewer than 2 ^ 63 entries is no overflow. -/
theorem place?_eq (h : entries.length < int64Limit) (word : String) :
    place? entries word = some ((Settings.place? entries word).map Int.ofNat) := by
  rw [place?]
  cases hplace : Settings.place? entries word with
  | none => rfl
  | some i =>
    have hi := checked?_natCast ((Settings.place?_lt hplace).trans h)
    exact congrArg (Option.map some) hi

theorem number?_eq (h : entries.length < int64Limit) (word : String) :
    number? entries word = some (((Settings.place? entries word).map (· + 1)).map Int.ofNat) := by
  rw [number?, place?_eq h]
  cases hplace : Settings.place? entries word with
  | none => rfl
  | some i =>
    have hi : i + 1 < int64Limit := (Nat.succ_le_of_lt (Settings.place?_lt hplace)).trans_lt h
    exact congrArg (Option.map some) (checked?_natCast hi)

/-! ## Readings -/

variable {settings : Settings} {ts : List Term}

/-- Reading numbers never overflows. -/
theorem readNumbers_eq (h : settings.NamesFit) (ts : List Term) :
    readNumbers settings ts = some (Reading.readNumbers settings ts) := by
  cases ts with
  | nil => rfl
  | cons t ts =>
    rw [readNumbers, Reading.readNumbers]
    cases t.string? with
    | none => rfl
    | some text =>
      simp only [place?_eq h.numbers, number?_eq h.ordinals, Option.bind_some, Reading.number?, Settings.number?]
      split
      · rfl
      · cases Settings.place? settings.numberWords text with
        | some i => rfl
        | none => rfl

theorem readCalendarNames_eq (h : settings.NamesFit) (ts : List Term) :
    readCalendarNames settings ts = some (Reading.readCalendarNames settings ts) := by
  cases ts with
  | nil => rfl
  | cons t ts =>
    rw [readCalendarNames, Reading.readCalendarNames]
    cases t.string? with
    | none => rfl
    | some word =>
      simp only [number?_eq h.months, number?_eq h.weekdays, Settings.month?, Settings.weekday?]
      cases (Settings.place? settings.monthNames word).map (· + 1) with
      | some n => rfl
      | none =>
        cases (Settings.place? settings.weekdayNames word).map (· + 1) with
        | some n => rfl
        | none => rfl

/-- A number that has 64 bits with either sign may be negated. -/
theorem countedField_eq (p : Period) {n : Int} (h : n.natAbs < int64Limit) (c : Reading.Counting) :
    countedField p n c = some (Reading.countedField p n c) := by
  cases c with
  | absolute => rfl
  | ahead => rfl
  | back =>
    have hopposite : HasInt64 (-n) := hasInt64_of_natAbs_lt (by omega)
    rw [Reading.countedField_back p h]
    exact congrArg (Option.map (Term.relativeField p)) hopposite.checked?_eq

/-- Nothing overflows where periods are counted, by what is given or by small integers. -/
theorem readPeriods_eq (settings : Settings) (fixed : Option Period) (counting : Reading.Counting)
    {number : Int} (hnumber : number.natAbs < int64Limit) (hts : ∀ t ∈ ts, t.Small) :
    readPeriods settings fixed counting number ts =
      some (Reading.readPeriods settings fixed counting number ts) := by
  rw [readPeriods, Reading.readPeriods_eq_match]
  cases fixed.or (ts.head?.bind fun t => t.string?.bind settings.period?) with
  | none => rfl
  | some p =>
    cases hbeside : Reading.numberBeside? number ts with
    | none => rfl
    | some n =>
      have hn := Reading.natAbs_lt_of_numberBeside? hnumber hts hbeside
      exact congrArg (Option.map ([·])) (countedField_eq p hn counting)

/-- An hour in the afternoon is twelve more than a number of two digits. -/
theorem slotValue?_eq (afternoon numericMonths : Bool) (p : Period) (t : Term) :
    slotValue? afternoon numericMonths p t = some (Reading.slotValue? afternoon numericMonths p t) := by
  rw [slotValue?]
  split
  · rename_i h
    obtain ⟨rfl, rfl⟩ := h
    rw [Reading.slotValue?, if_pos rfl]
    cases hrange : Reading.inRange? 0 12 t with
    | none => rfl
    | some n =>
      have hn := Reading.bounds_of_inRange? hrange
      have hsum : HasInt64 (n + 12) := by
        rw [hasInt64_iff]
        omega
      by_cases h12 : n = 12
      · simp only [if_pos h12, Option.map_some]
      · simp only [if_neg h12, Option.map_some, hsum.checked?_eq]
  · rfl

theorem slotFields?_eq (afternoon numericMonths : Bool) (slots : List (Period × Term)) :
    slotFields? afternoon numericMonths slots =
      some (Reading.slotFields? afternoon numericMonths slots) := by
  induction slots with
  | nil => rfl
  | cons slot slots ih =>
    obtain ⟨p, t⟩ := slot
    rw [slotFields?, Reading.slotFields?, slotValue?_eq, ih]
    split
    · rfl
    · cases Reading.slotValue? afternoon numericMonths p t with
      | none => rfl
      | some n => cases Reading.slotFields? afternoon numericMonths slots <;> rfl

theorem readWrittenDate_eq (afternoon numericMonths : Bool) (ts : List Term) :
    readWrittenDate afternoon numericMonths ts = some (Reading.readWrittenDate afternoon numericMonths ts) := by
  rw [readWrittenDate, slotFields?_eq]
  rfl

/-- A nested query is fused without overflow if the integers in it have 64 bits. -/
theorem readSubquery_eq (settings : Settings) (flags : ParserFlags) (property : Uri)
    (hts : ∀ t ∈ ts, PlainFits t) :
    readSubquery settings flags property ts = some (Reading.readSubquery settings flags property ts) := by
  rw [readSubquery, fuse_eq hts]
  rfl

/-! ## All readings -/

variable {x : Surroundings} {r : Reading}

/-- The readings before dates are folded are not given up. -/
theorem follows_apply (h : x.settings.NamesFit) (hr : r.IsBeforeDates) (hfixed : r.FixesSmall) :
    Follows Term.Small (apply x r) (r.apply x) := by
  intro ts hts
  have hts := Reading.small_of_captured hts
  cases r with
  | numbers => exact readNumbers_eq h ts
  | calendarNames => exact readCalendarNames_eq h ts
  | periods fixed counting number => exact readPeriods_eq _ fixed counting hfixed hts
  | writtenDate afternoon numericMonths => exact readWrittenDate_eq afternoon numericMonths ts
  | comparators c => contradiction
  | properties p d => contradiction
  | subqueries p => contradiction
  | _ => rfl

theorem plainFits_of_small {t : Term} (h : t.Small) : PlainFits t :=
  fun _ hn => hasInt64_of_natAbs_lt (h.of_integer? hn)

/-- The readings after that answer with comparisons, which are no integers. -/
theorem keeps_plainFits (x : Surroundings) (hr : ¬ r.IsBeforeDates) : Keeps PlainFits (r.apply x) := by
  intro ts _ u hu n hn
  cases r with
  | comparators c =>
    obtain ⟨s, l, -, rfl⟩ := Reading.eq_of_mem_readComparator hu
    simp [Term.compare, Term.integer?, Term.literal?] at hn
  | properties p d =>
    obtain ⟨t, -, v, c, w, -, -, rfl⟩ := Reading.eq_of_mem_readProperty hu
    simp [Term.compare, Term.integer?, Term.literal?] at hn
  | subqueries p =>
    obtain ⟨-, rfl⟩ := Reading.eq_of_mem_readSubquery hu
    simp [Term.compare, Term.integer?, Term.literal?] at hn
  | _ => exact absurd trivial hr

/-- And they are not given up. -/
theorem follows_apply_afterDates (x : Surroundings) (hr : ¬ r.IsBeforeDates) :
    Follows PlainFits (apply x r) (r.apply x) := by
  intro ts hts
  cases r with
  | comparators c => rfl
  | properties p d => rfl
  | subqueries p =>
    refine readSubquery_eq _ _ p fun t ht => ?_
    obtain hplain | rfl := hts t ht
    · exact hplain
    · intro n hn
      simp [Term.nothing, Term.integer?, Term.literal?] at hn
  | _ => exact absurd trivial hr

end Checked

end DesktopSearch
