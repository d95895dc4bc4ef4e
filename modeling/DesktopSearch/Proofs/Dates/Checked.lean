import DesktopSearch.Proofs.Dates.Folding

/-!
# Checked dates

A date specification may hold any integers of 64 bits. `DateSpec.Checked` repeats what is computed on the way
from it to its moment, step by step, and gives up where a sum, a difference or an opposite needs more bits ;
products that are cut to 64 bits are cut here, too.

It never gives up over the date. All that it gives up over is the sum of the shifts of the hours, the minutes
and the seconds, each of them cut to 64 bits, and `DateSpec.moment?` gives up over it as well. So both come to
the same (`DateSpec.Checked.moment_eq`), and so does folding dates (`Checked.foldDates_eq`).
-/

namespace DesktopSearch

open Text

/-! ## Specifications of 64 bits -/

/-- The value of the field has 64 bits, if it has one. -/
def Field.Fits (f : Field) : Prop := ∀ v, f = .absolute v ∨ f = .relative v → HasInt64 v

namespace DateSpec

/-- All values that the specification holds have 64 bits. -/
def Fits (s : DateSpec) : Prop := ∀ p, (s.field p).Fits

theorem fits_empty : empty.Fits := by
  intro p v h
  simp [empty] at h

/-- A specification fits 64 bits as long as its fields do. -/
theorem Fits.set {s : DateSpec} (h : s.Fits) (p : Period) {f : Field} (hf : f.Fits) : (s.set p f).Fits := by
  intro q
  change (if q = p then f else s.field q).Fits
  split
  · exact hf
  · exact h q

/-- A value to start from has 64 bits. -/
theorem Fits.hasInt64_dateValue {s : DateSpec} (h : s.Fits) (p : Period) {now : Int}
    (hnow : HasInt64 now) : HasInt64 (s.dateValue p now) := by
  rw [dateValue, value]
  cases hfield : s.field p with
  | absolute v => exact h p v (Or.inl hfield)
  | relative v => exact hnow
  | unset =>
    dsimp only
    split
    · exact hnow
    · decide

/-! ## Computations that are checked -/

namespace Checked

/-- The place `n` of `count` places, a negative one counted from the end. -/
def place (count : Nat) (n : Int) : Option Nat := do
  let n ← if n < 0 then (do let behind ← checked? (count + 1); checked? (behind + n)) else some n
  return (clamp 1 count n).toNat

/-- The day of a month of a year. -/
def dayOfMonth? (year month day : Int) : Option (Option Date) := do
  let year := clampYear year
  let month ← place 12 month
  let day ← place (daysInMonth year month) day
  return Date.ofYmd? year month day

/-- The day of a year. -/
def dayOfYear? (year day : Int) : Option (Option Date) := do
  let year := clampYear year
  let day ← place (daysInYear year) day
  return Date.ofOrdinal? year day

/-- The date `n` months later, `n` being cut to 32 bits before its sign is seen to. -/
def shiftMonths (d : Date) (n : Int) : Date :=
  DateSpec.shiftMonths d (clamp (-(Nat.pow 2 32 - 1 : Nat)) (Nat.pow 2 32 - 1 : Nat) n)

/-- The Monday of a date's week. -/
def mondayOf (d : Date) : Option Date := do
  let back ← checked? (-(d.weekday : Int))
  return shiftDays d back

/-- The Monday of a week of a year. -/
def mondayInYear? (year week : Int) : Option (Option Date) := do
  let year := clampYear year
  let week ← place (Date.weeksInYear year) week
  return Date.ofWeek? year week 0

/-- The Monday of a week of a date's month. -/
def mondayInMonth? (d : Date) (week : Int) : Option (Option Date) := do
  if week < 0 then
    match ← dayOfMonth? d.year d.month (-1) with
    | some last =>
      let monday ← mondayOf last
      return some (shiftDays monday (saturate (saturate (week + 1) * 7)))
    | none => return none
  else
    match Date.ofYmd? d.year d.month 1 with
    | some first =>
      let monday ← mondayOf first
      let weeks ← checked? (max week 1 - 1)
      return some (shiftDays monday (saturate (weeks * 7)))
    | none => return none

/-- The date of the absolute fields, weeks and weekdays aside. -/
def plainDate (s : DateSpec) (today : Date) : Option Date := do
  let year := s.dateValue .year today.year
  let date? ← if s.isSet .month then
      dayOfMonth? year (s.dateValue .month today.month) (s.dateValue .day today.day)
    else dayOfYear? year (s.dateValue .day today.ordinal)
  return date?.getD today

/-- The year and number of the week that is spoken of. -/
def week (s : DateSpec) (today date : Date) : Option (Int × Nat) :=
  match s.field .week with
  | .absolute n => do
    let monday? ← if s.isSet .month then mondayInMonth? date n
      else mondayInYear? (s.dateValue .year today.year) n
    let date := monday?.getD date
    return (date.isoYear, date.isoWeek)
  | _ => some (s.week today date)

/-- The weekday that is spoken of, from one. -/
def weekday (s : DateSpec) (today : Date) : Option Nat := do
  let n := s.dateValue .dayOfWeek (today.weekday + 1)
  let n ← if n < 0 then checked? (n + 8) else some n
  return (clamp 1 7 n).toNat

/-- The date of the absolute fields: where a week or a weekday is set, a day of that week. -/
def startDate (s : DateSpec) (today : Date) : Option Date := do
  let date ← plainDate s today
  if s.isSet .week || s.isSet .dayOfWeek then
    let (year, week) ← week s today date
    let week := (clamp 1 (Date.weeksInYear year) week).toNat
    let weekday ← weekday s today
    return (Date.ofWeek? year week (weekday - 1)).getD date
  else return date

/-- Moves a date by a relative field. -/
def moveDate (s : DateSpec) (d : Date) (p : Period) : Date :=
  match s.field p with
  | .relative n =>
    match p with
    | .year => shiftMonths d (saturate (n * 12))
    | .month => shiftMonths d n
    | .week => shiftDays d (saturate (n * 7))
    | _ => shiftDays d n
  | _ => d

/-- The date that is described. -/
def date (s : DateSpec) (today : Date) : Option Date := do
  let date ← startDate s today
  return [Period.year, .month, .week, .dayOfWeek, .day].foldl (moveDate s) date

/-- The seconds that the relative fields of the time of day move by, summed up one by one. -/
def timeShift (s : DateSpec) : Option Int := do
  let hours ← checked? (0 + s.shift .hour 3600)
  let minutes ← checked? (hours + s.shift .minute 60)
  checked? (minutes + s.shift .second 1)

/-- The moment that is described, as seen from now. -/
def moment (s : DateSpec) (now : Instant) : Option Moment := do
  let date ← date s now.date
  let start := Instant.atSecond date (s.startSecond now)
  let shift ← timeShift s
  return ⟨(start.addSeconds? shift).getD start, s.precision⟩

/-! ## Moving far -/

/-- So many days lead out of the calendar, and the date stays. -/
theorem shiftDays_of_far {d : Date} {n : Int} (h : n ≤ -1000000000 ∨ 1000000000 ≤ n) :
    shiftDays d n = d := by
  have hfirst : -100000000 ≤ Date.firstDay := by decide
  have hlast : Date.lastDay ≤ 100000000 := by decide
  have hnone : d.addDays? n = none := by
    rw [Option.eq_none_iff_forall_ne_some]
    intro e he
    have hday := Date.addDays?_eq_some_iff.1 he
    have := d.firstDay_le
    have := d.le_lastDay
    have := e.firstDay_le
    have := e.le_lastDay
    omega
  rw [shiftDays, hnone, Option.getD_none]

/-- Months are left alone as well where the shift leads out of the calendar. -/
theorem shiftMonths_of_far {d : Date} {n : Int} (h : n ≤ -1000000000 ∨ 1000000000 ≤ n) :
    DateSpec.shiftMonths d n = d := by
  have hfirst := d.firstYear_le
  have hlast := d.le_lastYear
  have hmonth := d.month_le
  have hnone : d.addMonths? n = none := by
    rw [Date.addMonths?, Date.ofYmd?]
    refine dif_neg fun hyear => ?_
    rw [firstYear, lastYear] at *
    omega
  rw [DateSpec.shiftMonths, hnone, Option.getD_none]

/-- What is far beyond 64 bits is far, and so is what it is cut to. -/
theorem apply_saturate {α : Type} {f : Int → α} {v : α}
    (hf : ∀ n, n ≤ -1000000000 ∨ 1000000000 ≤ n → f n = v) (n : Int) : f (saturate n) = f n := by
  have hlimit : (int64Limit : Int) = 9223372036854775808 := by decide
  by_cases h : HasInt64 n
  · rw [hasInt64_iff] at h
    rw [saturate_eq_self h.1 h.2]
  · rw [hasInt64_iff] at h
    rw [hf n (by omega), hf]
    rw [saturate, hlimit]
    omega

/-- Saturating a number of days changes nothing, since so many days lead out of the calendar. -/
theorem shiftDays_saturate (d : Date) (n : Int) : shiftDays d (saturate n) = shiftDays d n :=
  apply_saturate (fun _ => shiftDays_of_far) n

/-- Months beyond 32 bits lead out of the calendar, too. -/
theorem shiftMonths_eq (d : Date) (n : Int) : shiftMonths d n = DateSpec.shiftMonths d n := by
  have hlimit : ((Nat.pow 2 32 - 1 : Nat) : Int) = 4294967295 := by decide
  rw [shiftMonths, hlimit]
  by_cases h : -4294967295 ≤ n ∧ n ≤ 4294967295
  · rw [clamp_eq_self h.1 h.2]
  · rw [shiftMonths_of_far (n := n) (by omega), shiftMonths_of_far]
    rw [clamp]
    omega

theorem shiftMonths_saturate (d : Date) (n : Int) :
    shiftMonths d (saturate n) = DateSpec.shiftMonths d n :=
  (shiftMonths_eq d _).trans (apply_saturate (fun _ => shiftMonths_of_far) n)

/-! ## Dates are never given up -/

theorem hasInt64_of_le {v : Int} (h : -1000000 ≤ v) (h' : v ≤ 1000000) : HasInt64 v := by
  rw [hasInt64_iff]
  omega

theorem hasInt64_month (d : Date) : HasInt64 d.month := by
  have := d.month_le
  exact hasInt64_of_le (by omega) (by omega)

theorem hasInt64_day (d : Date) : HasInt64 d.day := by
  have := d.day_le_31
  exact hasInt64_of_le (by omega) (by omega)

theorem hasInt64_ordinal (d : Date) : HasInt64 d.ordinal := by
  have := daysInYear_le d.year
  have := d.ordinal_le
  exact hasInt64_of_le (by omega) (by omega)

theorem hasInt64_weekday (d : Date) : HasInt64 ((d.weekday : Int) + 1) := by
  have := d.weekday_lt
  exact hasInt64_of_le (by omega) (by omega)

/-! ### Places -/

/-- Counting from either end of a month or of a year stays inside 64 bits. -/
theorem place_eq {count : Nat} {n : Int} (hcount : count ≤ 366) (hn : HasInt64 n) :
    place count n = some (DateSpec.place count n) := by
  rw [hasInt64_iff] at hn
  rw [place, DateSpec.place]
  by_cases h : n < 0
  · have hbehind : HasInt64 ((count : Int) + 1) := by rw [hasInt64_iff]; omega
    have hsum : HasInt64 ((count : Int) + 1 + n) := by rw [hasInt64_iff]; omega
    simp only [if_pos h, hbehind.checked?_eq, hsum.checked?_eq, Option.bind_eq_bind, Option.bind_some]
    rfl
  · simp only [if_neg h]
    rfl

theorem dayOfMonth?_eq (year : Int) {month day : Int} (hmonth : HasInt64 month)
    (hday : HasInt64 day) : dayOfMonth? year month day = some (DateSpec.dayOfMonth? year month day) := by
  have hdays := daysInMonth_le (clampYear year) (DateSpec.place 12 month)
  have hmonth' : place 12 month = some (DateSpec.place 12 month) := place_eq (by decide) hmonth
  have hday' : place (daysInMonth (clampYear year) (DateSpec.place 12 month)) day = some _ :=
    place_eq (by omega) hday
  simp only [dayOfMonth?, hmonth', hday', Option.bind_eq_bind, Option.bind_some]
  rfl

theorem dayOfYear?_eq (year : Int) {day : Int} (hday : HasInt64 day) :
    dayOfYear? year day = some (DateSpec.dayOfYear? year day) := by
  have hdays := daysInYear_le (clampYear year)
  simp only [dayOfYear?, place_eq hdays hday, Option.bind_eq_bind, Option.bind_some]
  rfl

theorem mondayOf_eq (d : Date) : mondayOf d = some (DateSpec.mondayOf d) := by
  have hweekday := d.weekday_lt
  have hback : HasInt64 (-(d.weekday : Int)) := by rw [hasInt64_iff]; omega
  simp only [mondayOf, hback.checked?_eq, Option.bind_eq_bind, Option.bind_some]
  rfl

theorem mondayInYear?_eq (year : Int) {week : Int} (hweek : HasInt64 week) :
    mondayInYear? year week = some (DateSpec.mondayInYear? year week) := by
  have hweeks := Date.weeksInYear_le (clampYear year)
  simp only [mondayInYear?, place_eq (hweeks.trans (by decide)) hweek, Option.bind_eq_bind, Option.bind_some]
  rfl

/-- The Mondays of a month are counted without overflow. -/
theorem mondayInMonth?_eq (d : Date) {week : Int} (hweek : HasInt64 week) :
    mondayInMonth? d week = some (DateSpec.mondayInMonth? d week) := by
  have hlast := dayOfMonth?_eq d.year (hasInt64_month d) (show HasInt64 (-1) by decide)
  rw [hasInt64_iff] at hweek
  rw [mondayInMonth?, DateSpec.mondayInMonth?]
  by_cases h : week < 0
  · have hnext : saturate (week + 1) = week + 1 := saturate_eq_self (by omega) (by omega)
    simp only [if_pos h, hlast, Option.bind_eq_bind, Option.bind_some, mondayOf_eq, shiftDays_saturate, hnext]
    cases DateSpec.dayOfMonth? d.year d.month (-1) with
    | none => rfl
    | some last => rfl
  · have hweeks : HasInt64 (max week 1 - 1) := by rw [hasInt64_iff]; omega
    simp only [if_neg h]
    cases Date.ofYmd? d.year d.month 1 with
    | none => rfl
    | some first =>
      simp only [mondayOf_eq, hweeks.checked?_eq, Option.bind_eq_bind, Option.bind_some, shiftDays_saturate]
      rfl

/-! ### Dates -/

variable {s : DateSpec} (h : s.Fits) (today : Date)

include h

theorem plainDate_eq : plainDate s today = some (s.plainDate today) := by
  have hday := h.hasInt64_dateValue .day (hasInt64_day today)
  have hmonth := h.hasInt64_dateValue .month (hasInt64_month today)
  have hordinal := h.hasInt64_dateValue .day (hasInt64_ordinal today)
  rw [plainDate, DateSpec.plainDate]
  by_cases hset : s.isSet .month = true
  · simp only [if_pos hset, dayOfMonth?_eq _ hmonth hday, Option.bind_eq_bind, Option.bind_some]
    rfl
  · simp only [if_neg hset, dayOfYear?_eq _ hordinal, Option.bind_eq_bind, Option.bind_some]
    rfl

theorem week_eq (date : Date) : week s today date = some (s.week today date) := by
  rw [week]
  split
  · rename_i n hfield
    have hn : HasInt64 n := h .week n (Or.inl hfield)
    rw [DateSpec.week, hfield]
    by_cases hset : s.isSet .month = true
    · simp only [if_pos hset, mondayInMonth?_eq _ hn, Option.bind_eq_bind, Option.bind_some]
      rfl
    · simp only [if_neg hset, mondayInYear?_eq _ hn, Option.bind_eq_bind, Option.bind_some]
      rfl
  · rfl

theorem weekday_eq : weekday s today = some (s.weekday today) := by
  have hvalue := h.hasInt64_dateValue .dayOfWeek (hasInt64_weekday today)
  rw [hasInt64_iff] at hvalue
  rw [weekday, DateSpec.weekday]
  by_cases hneg : s.dateValue .dayOfWeek (today.weekday + 1) < 0
  · have hsum : HasInt64 (s.dateValue .dayOfWeek (today.weekday + 1) + 8) := by
      rw [hasInt64_iff]
      omega
    simp only [if_pos hneg, hsum.checked?_eq, Option.bind_eq_bind, Option.bind_some]
    rfl
  · simp only [if_neg hneg]
    rfl

theorem startDate_eq : startDate s today = some (s.startDate today) := by
  rw [startDate, DateSpec.startDate]
  by_cases hset : (s.isSet .week || s.isSet .dayOfWeek) = true
  · simp only [plainDate_eq h, week_eq h, weekday_eq h, if_pos hset, Option.bind_eq_bind,
      Option.bind_some]
    rfl
  · simp only [plainDate_eq h, if_neg hset, Option.bind_eq_bind, Option.bind_some]
    rfl

omit h in
/-- Saturating the numbers that a date is moved by changes nothing. -/
theorem moveDate_eq (d : Date) (p : Period) : moveDate s d p = s.moveDate d p := by
  rw [moveDate, DateSpec.moveDate]
  cases s.field p with
  | unset => rfl
  | absolute v => rfl
  | relative n =>
    cases p with
    | year => exact (shiftMonths_saturate d (n * 12)).trans (by rw [Int.mul_comm])
    | month => exact shiftMonths_eq d n
    | week => exact (shiftDays_saturate d (n * 7)).trans (by rw [Int.mul_comm])
    | _ => rfl

/-- The date of a specification that fits is computed without overflow. -/
theorem date_eq : date s today = some (s.date today) := by
  have hmove : moveDate s = s.moveDate := by
    funext d p
    exact moveDate_eq d p
  rw [date, startDate_eq h, hmove]
  rfl

omit h

/-! ## The time of day -/

/-- What a field moves the clock by is kept inside 64 bits ; only the sum of such shifts may leave them. -/
theorem hasInt64_shift (s : DateSpec) (p : Period) (seconds : Int) : HasInt64 (s.shift p seconds) := by
  rw [shift]
  split
  · exact hasInt64_saturate _
  · decide

/-- The shift of the hours has 64 bits, and the sum is checked from the minutes on. -/
theorem timeShift_eq (s : DateSpec) : timeShift s = s.timeShift? := by
  rw [timeShift, Int.zero_add, (hasInt64_shift s .hour 3600).checked?_eq]
  rfl

/-- The moment of a specification of 64 bits is computed within 64 bits, unless there is none. -/
theorem moment_eq (h : s.Fits) (now : Instant) : moment s now = s.moment? now := by
  rw [moment, date_eq h, timeShift_eq, moment?, Option.map_eq_bind]
  rfl

end Checked

end DateSpec

/-! ## Folding -/

namespace Checked

/-- The terms that take the place of a run. -/
def terms (r : DateRun) (now : Instant) : Option (List Term) := do
  let moment ← DateSpec.Checked.moment r.spec now
  return .literal r.span (.dateTime moment) :: r.filler

/-- Folds the dates of a list that follows a run, if one is open. -/
def foldDatesAfter (settings : Settings) (now : Instant) : Option DateRun → List Term → Option (List Term)
  | none, [] => some []
  | some r, [] => terms r now
  | none, t :: ts =>
    match t.field? with
    | some (p, f) => foldDatesAfter settings now (some (.start p f t.span)) ts
    | none => do
      let folded ← foldDatesAfter settings now none ts
      return t :: folded
  | some r, t :: ts =>
    match t.field? with
    | some (p, f) => foldDatesAfter settings now (some (r.add p f t.span)) ts
    | none =>
      if isFiller settings t then foldDatesAfter settings now (some (r.fill t)) ts
      else do
        let moment ← terms r now
        let folded ← foldDatesAfter settings now none ts
        return moment ++ t :: folded

/-- Replaces every run of fields by a moment. -/
def foldDates (settings : Settings) (now : Instant) (ts : List Term) : Option (List Term) :=
  foldDatesAfter settings now none ts

theorem terms_eq {r : DateRun} (h : r.spec.Fits) (now : Instant) : terms r now = r.terms? now := by
  rw [terms, DateSpec.Checked.moment_eq h, DateRun.terms?, Option.map_eq_bind]
  rfl

/-- Folding fails where the time of a run does, and nowhere else. -/
theorem foldDatesAfter_eq {settings : Settings} {now : Instant} {ts : List Term}
    (hts : ∀ t ∈ ts, ∀ p f, t.field? = some (p, f) → f.Fits) (run : Option DateRun)
    (hrun : ∀ r ∈ run, r.spec.Fits) :
    foldDatesAfter settings now run ts = foldDatesAfter? settings now run ts := by
  induction ts generalizing run with
  | nil =>
    cases run with
    | none => rfl
    | some r => exact terms_eq (hrun r rfl) now
  | cons t ts ih =>
    rw [List.forall_mem_cons] at hts
    have hopen (r : DateRun) (hr : r.spec.Fits) := ih hts.2 (some r) fun r' hr' => Option.mem_some.1 hr' ▸ hr
    have hclosed := ih hts.2 none (by simp)
    cases run with
    | none =>
      simp only [foldDatesAfter, foldDatesAfter?]
      cases hfield : t.field? with
      | some field => exact hopen _ (DateSpec.fits_empty.set _ (hts.1 _ _ hfield))
      | none =>
        rw [hclosed, Option.map_eq_bind]
        rfl
    | some r =>
      have hr := hrun r rfl
      simp only [foldDatesAfter, foldDatesAfter?]
      cases hfield : t.field? with
      | some field => exact hopen _ (hr.set _ (hts.1 _ _ hfield))
      | none =>
        dsimp only
        split
        · exact hopen _ hr
        · rw [terms_eq hr, hclosed]
          simp only [Option.map_eq_bind]
          rfl

/-- Dates of 64 bits are folded within 64 bits, unless they are not folded at all. -/
theorem foldDates_eq (settings : Settings) (now : Instant) {ts : List Term}
    (hts : ∀ t ∈ ts, ∀ p f, t.field? = some (p, f) → f.Fits) :
    foldDates settings now ts = foldDates? settings now ts :=
  foldDatesAfter_eq hts none (by simp)

end Checked

end DesktopSearch
