import DesktopSearch.Calendar.Date
import Mathlib.Algebra.Order.SuccPred
import Mathlib.Data.Int.ConditionallyCompleteOrder
import Mathlib.Order.SuccPred.IntervalSucc

/-!
# Dates as numbers

A date is determined by its `dayNumber`, and every number from the first day of the calendar to the
last one is the number of a date (`Date.exists_dayNumber_eq`). Years and months are counted in the same
way, and their first days are strictly increasing (`daysBeforeYear_strictMono`,
`daysBeforeMonthNumber_strictMono`) : the year and the month of a day are those whose first days it
lies between (`Date.year_eq_iff`, `Date.monthNumber_eq_iff`). The arithmetic of dates is therefore
arithmetic of these numbers (`Date.addDays?_eq_some_iff`, `Date.addMonths?_eq_some`).
-/

namespace DesktopSearch

/-! ## Years -/

/-- A year starts when the one before it has passed. -/
theorem daysBeforeYear_succ (year : Int) :
    daysBeforeYear (year + 1) = daysBeforeYear year + daysInYear year := by
  rw [daysBeforeYear, daysBeforeYear, daysInYear]
  split
  all_goals
    rename_i h
    rw [isLeapYear, Bool.and_eq_true, Bool.or_eq_true] at h
    simp only [beq_iff_eq, bne_iff_ne] at h
    omega

theorem daysInYear_pos (year : Int) : 0 < daysInYear year := by
  rw [daysInYear]
  split <;> decide

theorem daysInYear_le (year : Int) : daysInYear year ≤ 366 := by
  rw [daysInYear]
  split <;> decide

theorem daysBeforeYear_strictMono : StrictMono daysBeforeYear :=
  strictMono_int_of_lt_succ fun year => by
    have := daysInYear_pos year
    rw [daysBeforeYear_succ]
    omega

/-- A number between two neighbouring values of a strictly increasing function is above the values up
to the lower one. -/
theorem le_iff_of_mem_step {f : Int → Int} (hf : StrictMono f) {a b n : Int} (hb : f b ≤ n)
    (hb' : n < f (b + 1)) : f a ≤ n ↔ a ≤ b := by
  refine ⟨fun ha => ?_, fun hab => (hf.monotone hab).trans hb⟩
  exact Int.lt_add_one_iff.1 (hf.lt_iff_lt.1 (ha.trans_lt hb'))

/-- A number lies between one pair of neighbouring values only. -/
theorem eq_of_mem_steps {f : Int → Int} (hf : StrictMono f) {a b n : Int} (ha : f a ≤ n)
    (ha' : n < f (a + 1)) (hb : f b ≤ n) (hb' : n < f (b + 1)) : a = b :=
  le_antisymm ((le_iff_of_mem_step hf hb hb').1 ha) ((le_iff_of_mem_step hf ha ha').1 hb)

/-- The year of a day is the one that it lies in. -/
theorem Date.yearOfDay_eq_iff {n year : Int} :
    yearOfDay n = year ↔ daysBeforeYear year ≤ n ∧ n < daysBeforeYear (year + 1) := by
  have hmem : daysBeforeYear (yearOfDay n) ≤ n ∧ n < daysBeforeYear (yearOfDay n + 1) := by
    -- The guess from the mean length of a year is at most one year off.
    have hguess : daysBeforeYear (400 * n / 146097 + 1 - 1) ≤ n ∧
        n < daysBeforeYear (400 * n / 146097 + 1 + 1 + 1) := by
      simp only [daysBeforeYear]
      omega
    simp only [yearOfDay]
    split
    · rename_i h
      rw [Int.sub_add_cancel]
      exact ⟨hguess.1, h⟩
    split
    · rename_i h
      exact ⟨h, hguess.2⟩
    · rename_i h h'
      exact ⟨not_lt.1 h, not_le.1 h'⟩
  constructor
  · rintro rfl
    exact hmem
  · rintro ⟨h, h'⟩
    exact eq_of_mem_steps daysBeforeYear_strictMono hmem.1 hmem.2 h h'

/-! ## Months -/

theorem one_le_daysInMonth (year : Int) (month : Nat) : 1 ≤ daysInMonth year month := by
  unfold daysInMonth
  split
  · split <;> decide
  all_goals decide

theorem daysInMonth_le (year : Int) (month : Nat) : daysInMonth year month ≤ 31 := by
  unfold daysInMonth
  split
  · split <;> decide
  all_goals decide

/-- A month starts when the one before it has passed. -/
theorem daysBeforeMonth_succ (year : Int) {month : Nat} (h : 1 ≤ month) :
    daysBeforeMonth year (month + 1) = daysBeforeMonth year month + daysInMonth year month := by
  obtain ⟨month, rfl⟩ := Nat.exists_eq_add_of_le' h
  rfl

theorem daysBeforeMonth_thirteen (year : Int) : daysBeforeMonth year 13 = daysInYear year := by
  simp only [daysBeforeMonth, daysInMonth, daysInYear]
  split <;> rfl

theorem daysBeforeMonth_add_le (year : Int) {month later : Nat} (h : 1 ≤ month)
    (hlt : month < later) :
    daysBeforeMonth year month + daysInMonth year month ≤ daysBeforeMonth year later := by
  induction hlt with
  | refl => rw [daysBeforeMonth_succ year h]
  | step hlt ih =>
    rw [daysBeforeMonth_succ year (h.trans (Nat.le_of_lt hlt))]
    omega

/-- Every place of a year belongs to a month. -/
theorem exists_month (year : Int) {place : Nat} (hpos : 1 ≤ place) (hle : place ≤ daysInYear year) :
    ∃ month day, 1 ≤ month ∧ month ≤ 12 ∧ 1 ≤ day ∧ day ≤ daysInMonth year month ∧
      daysBeforeMonth year month + day = place := by
  have hupTo : ∀ n, place ≤ daysBeforeMonth year (n + 1) → ∃ month day, 1 ≤ month ∧ month ≤ n ∧
      1 ≤ day ∧ day ≤ daysInMonth year month ∧ daysBeforeMonth year month + day = place := by
    intro n
    induction n with
    | zero =>
      intro h
      rw [daysBeforeMonth] at h
      omega
    | succ n ih =>
      intro h
      rcases Nat.lt_or_ge (daysBeforeMonth year (n + 1)) place with hlt | hge
      · rw [daysBeforeMonth_succ year (Nat.le_add_left 1 n)] at h
        exact ⟨n + 1, place - daysBeforeMonth year (n + 1), Nat.le_add_left 1 n, Nat.le_refl _,
          by omega, by omega, by omega⟩
      · obtain ⟨month, day, h1, hn, hrest⟩ := ih hge
        exact ⟨month, day, h1, Nat.le_succ_of_le hn, hrest⟩
  exact hupTo 12 (daysBeforeMonth_thirteen year ▸ hle)

/-- Counting off whole months from a month on leads to the month and day that were counted. -/
theorem Date.monthDayFrom_eq (year : Int) {day later : Nat} (hpos : 1 ≤ day)
    (hle : day ≤ daysInMonth year later) (remaining : Nat) {month : Nat} (h : 1 ≤ month)
    (hmonth : month ≤ later) (hlater : later < month + remaining) :
    monthDayFrom year remaining month
      (daysBeforeMonth year later - daysBeforeMonth year month + day) = (later, day) := by
  induction remaining generalizing month with
  | zero => omega
  | succ remaining ih =>
    rw [monthDayFrom]
    rcases hmonth.eq_or_lt with rfl | hlt
    · rw [Nat.sub_self, Nat.zero_add, if_pos hle]
    · have hlast := daysBeforeMonth_add_le year h hlt
      have hnext := ih (Nat.le_succ_of_le h) hlt (by omega)
      rw [daysBeforeMonth_succ year h] at hnext
      rw [if_neg (by omega), ← hnext]
      congr 1
      omega

/-- The number of days before a month, the months being counted from January of year 0. -/
def daysBeforeMonthNumber (n : Int) : Int :=
  daysBeforeYear (n / 12) + daysBeforeMonth (n / 12) ((n % 12).toNat + 1)

theorem daysBeforeMonthNumber_twelve (year : Int) :
    daysBeforeMonthNumber (12 * year) = daysBeforeYear year := by
  have hyear : 12 * year / 12 = year := by omega
  have hmonth : (12 * year % 12).toNat = 0 := by omega
  rw [daysBeforeMonthNumber, hyear, hmonth, daysBeforeMonth]
  simp

theorem daysBeforeMonthNumber_succ (n : Int) : daysBeforeMonthNumber (n + 1) =
    daysBeforeMonthNumber n + daysInMonth (n / 12) ((n % 12).toNat + 1) := by
  rw [daysBeforeMonthNumber, daysBeforeMonthNumber]
  by_cases hlast : n % 12 = 11
  · have hyear : (n + 1) / 12 = n / 12 + 1 := by omega
    have hmonth : ((n + 1) % 12).toNat = 0 := by omega
    have hall := daysBeforeMonth_succ (n / 12) (show 1 ≤ 12 by decide)
    rw [daysBeforeMonth_thirteen] at hall
    rw [hyear, hmonth, hlast, daysBeforeYear_succ, daysBeforeMonth, hall]
    push_cast
    rw [Int.add_zero, ← Int.add_assoc]
  · have hyear : (n + 1) / 12 = n / 12 := by omega
    have hmonth : ((n + 1) % 12).toNat = (n % 12).toNat + 1 := by omega
    rw [hyear, hmonth, daysBeforeMonth_succ _ (Nat.le_add_left 1 _)]
    push_cast
    rw [Int.add_assoc]

theorem daysBeforeMonthNumber_strictMono : StrictMono daysBeforeMonthNumber :=
  strictMono_int_of_lt_succ fun n => by
    have := one_le_daysInMonth (n / 12) ((n % 12).toNat + 1)
    rw [daysBeforeMonthNumber_succ]
    omega

namespace Date

/-- The number of the date's month, counted from January of year 0. -/
def monthNumber (d : Date) : Int := 12 * d.year + (d.month - 1 : Nat)

/-- The year is what the number of the month has in dozens. -/
theorem monthNumber_ediv (d : Date) : d.monthNumber / 12 = d.year := by
  have := d.month_le
  rw [monthNumber]
  omega

theorem monthNumber_emod (d : Date) : (d.monthNumber % 12).toNat + 1 = d.month := by
  have := d.month_le
  have := d.one_le_month
  rw [monthNumber]
  omega

/-! ## Days -/

theorem ofYmd?_self (d : Date) : ofYmd? d.year d.month d.day = some d :=
  dif_pos ⟨d.firstYear_le, d.le_lastYear, d.one_le_month, d.month_le, d.one_le_day, d.day_le⟩

theorem day_le_31 (d : Date) : d.day ≤ 31 := d.day_le.trans (daysInMonth_le d.year d.month)

theorem one_le_ordinal (d : Date) : 1 ≤ d.ordinal :=
  d.one_le_day.trans (Nat.le_add_left _ _)

theorem ordinal_le (d : Date) : d.ordinal ≤ daysInYear d.year := by
  have hmonth := daysBeforeMonth_add_le d.year d.one_le_month (Nat.lt_succ_of_le d.month_le)
  have hday := d.day_le
  rw [daysBeforeMonth_thirteen] at hmonth
  rw [ordinal]
  omega

theorem ofOrdinal?_ordinal (d : Date) : ofOrdinal? d.year d.ordinal = some d := by
  have h := monthDayFrom_eq d.year d.one_le_day d.day_le 12 (Nat.le_refl 1) d.one_le_month
    (by have := d.month_le; omega)
  rw [daysBeforeMonth, Nat.sub_zero] at h
  rw [ofOrdinal?, ordinal, h]
  exact d.ofYmd?_self

/-- The number of a day counts from the first of its month. -/
theorem dayNumber_eq (d : Date) :
    d.dayNumber = daysBeforeMonthNumber d.monthNumber + d.day - 1 := by
  rw [daysBeforeMonthNumber, monthNumber_ediv, monthNumber_emod, dayNumber, ordinal]
  push_cast
  rw [Int.add_assoc]

/-- The year of a date is the one whose days its number is among. -/
theorem year_eq_iff {d : Date} {year : Int} : d.year = year ↔
    daysBeforeYear year ≤ d.dayNumber ∧ d.dayNumber < daysBeforeYear (year + 1) := by
  have hyear : daysBeforeYear d.year ≤ d.dayNumber ∧
      d.dayNumber < daysBeforeYear (d.year + 1) := by
    have := d.one_le_ordinal
    have := d.ordinal_le
    rw [daysBeforeYear_succ, dayNumber]
    omega
  constructor
  · rintro rfl
    exact hyear
  · rintro ⟨h, h'⟩
    exact eq_of_mem_steps daysBeforeYear_strictMono hyear.1 hyear.2 h h'

/-- The month of a date is the one whose days its number is among. -/
theorem monthNumber_eq_iff {d : Date} {n : Int} : d.monthNumber = n ↔
    daysBeforeMonthNumber n ≤ d.dayNumber ∧ d.dayNumber < daysBeforeMonthNumber (n + 1) := by
  have hmonth : daysBeforeMonthNumber d.monthNumber ≤ d.dayNumber ∧
      d.dayNumber < daysBeforeMonthNumber (d.monthNumber + 1) := by
    have := d.one_le_day
    have := d.day_le
    rw [daysBeforeMonthNumber_succ, monthNumber_ediv, monthNumber_emod, dayNumber_eq]
    omega
  constructor
  · rintro rfl
    exact hmonth
  · rintro ⟨h, h'⟩
    exact eq_of_mem_steps daysBeforeMonthNumber_strictMono hmonth.1 hmonth.2 h h'

/-- A date is found by its number. -/
theorem ofDayNumber?_dayNumber (d : Date) : ofDayNumber? d.dayNumber = some d := by
  have hplace : (d.dayNumber - daysBeforeYear d.year + 1).toNat = d.ordinal := by
    rw [dayNumber]
    omega
  rw [ofDayNumber?, yearOfDay_eq_iff.2 (year_eq_iff.1 rfl), hplace]
  exact d.ofOrdinal?_ordinal

theorem dayNumber_injective : Function.Injective dayNumber := fun d e h =>
  Option.some.inj (by rw [← ofDayNumber?_dayNumber d, h, ofDayNumber?_dayNumber e])

/-- The number of the first day of the calendar. -/
def firstDay : Int := daysBeforeYear firstYear

/-- The number of the last day of the calendar. -/
def lastDay : Int := daysBeforeYear (lastYear + 1) - 1

theorem firstDay_le (d : Date) : firstDay ≤ d.dayNumber :=
  (daysBeforeYear_strictMono.monotone d.firstYear_le).trans (year_eq_iff.1 rfl).1

theorem le_lastDay (d : Date) : d.dayNumber ≤ lastDay := by
  have hyear := (year_eq_iff (d := d).1 rfl).2
  have hlast := daysBeforeYear_strictMono.monotone (Int.add_le_add_right d.le_lastYear 1)
  rw [lastDay]
  omega

/-- The days of the years of four digits. -/
theorem dayNumber_mem {d : Date} (h : 1 ≤ d.year) (h' : d.year ≤ 9999) :
    0 ≤ d.dayNumber ∧ d.dayNumber < 3652059 := by
  have hyear := year_eq_iff (d := d).1 rfl
  have hlow := daysBeforeYear_strictMono.monotone h
  have hhigh := daysBeforeYear_strictMono.monotone (Int.add_le_add_right h' 1)
  exact ⟨hlow.trans hyear.1, hyear.2.trans_le hhigh⟩

/-- Every number between those of the first and the last day is that of a date. -/
theorem exists_dayNumber_eq {n : Int} (hfirst : firstDay ≤ n) (hlast : n ≤ lastDay) :
    ∃ d : Date, d.dayNumber = n := by
  obtain ⟨hyear, hyear'⟩ := yearOfDay_eq_iff.1 (rfl : yearOfDay n = yearOfDay n)
  have hfirstYear : firstYear ≤ yearOfDay n := by
    have := daysBeforeYear_strictMono.lt_iff_lt.1 (hfirst.trans_lt hyear')
    omega
  have hlastYear : yearOfDay n ≤ lastYear := by
    have hlt : n < daysBeforeYear (lastYear + 1) := by rw [lastDay] at hlast; omega
    have := daysBeforeYear_strictMono.lt_iff_lt.1 (hyear.trans_lt hlt)
    omega
  rw [daysBeforeYear_succ] at hyear'
  have hpos : 1 ≤ (n - daysBeforeYear (yearOfDay n) + 1).toNat := by omega
  obtain ⟨month, day, h1, h12, hday, hday', hplace⟩ :=
    exists_month (yearOfDay n) hpos (by omega)
  refine ⟨⟨yearOfDay n, month, day, hfirstYear, hlastYear, h1, h12, hday, hday'⟩, ?_⟩
  rw [dayNumber, ordinal, hplace]
  dsimp only
  omega

theorem ofDayNumber?_eq_some_iff {n : Int} {d : Date} :
    ofDayNumber? n = some d ↔ d.dayNumber = n := by
  constructor
  · intro h
    -- The year of a number outside the calendar is no year of a date.
    have hyear : d.year = yearOfDay n := by
      simp only [ofDayNumber?, ofOrdinal?, ofYmd?] at h
      split at h
      · rw [← Option.some.inj h]
      · simp at h
    obtain ⟨hfirst, hlast⟩ := yearOfDay_eq_iff.1 hyear.symm
    have hdays := daysBeforeYear_strictMono.monotone d.firstYear_le
    have hdays' := daysBeforeYear_strictMono.monotone (Int.add_le_add_right d.le_lastYear 1)
    obtain ⟨e, rfl⟩ := exists_dayNumber_eq (n := n) (hdays.trans hfirst)
      (by rw [lastDay]; omega)
    rw [ofDayNumber?_dayNumber] at h
    rw [Option.some.inj h]
  · rintro rfl
    exact d.ofDayNumber?_dayNumber

/-- Days are added to the number of a day, inside the calendar. -/
theorem addDays?_eq_some_iff {d e : Date} {n : Int} :
    d.addDays? n = some e ↔ e.dayNumber = d.dayNumber + n :=
  ofDayNumber?_eq_some_iff

/-- Months later on the first day of a month is the first day of a month. -/
theorem addMonths?_eq_some {d e : Date} {n : Int} (hd : d.day = 1) (he : e.day = 1)
    (h : e.monthNumber = d.monthNumber + n) : d.addMonths? n = some e := by
  have hmonths : d.year * 12 + (d.month - 1 : Nat) + n = e.monthNumber := by
    rw [h, monthNumber, Int.mul_comm]
  have hday : min d.day (daysInMonth e.year e.month) = e.day := by
    rw [hd, he, min_eq_left (one_le_daysInMonth e.year e.month)]
  rw [addMonths?]
  simp only [hmonths, monthNumber_ediv, monthNumber_emod, hday, ofYmd?_self]

theorem dayNumber_of_day_eq_one {d : Date} (h : d.day = 1) :
    d.dayNumber = daysBeforeMonthNumber d.monthNumber := by
  rw [dayNumber_eq, h]
  omega

/-- The first day of every month of the calendar is a date. -/
theorem exists_monthNumber_eq {n : Int} (hfirst : 12 * firstYear ≤ n)
    (hlast : n < 12 * (lastYear + 1)) : ∃ d : Date, d.day = 1 ∧ d.monthNumber = n := by
  refine ⟨⟨n / 12, (n % 12).toNat + 1, 1, by omega, by omega, by omega, by omega, Nat.le_refl 1,
    one_le_daysInMonth _ _⟩, rfl, ?_⟩
  dsimp only [monthNumber]
  omega

end Date

end DesktopSearch
