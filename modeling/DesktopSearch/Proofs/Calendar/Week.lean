import DesktopSearch.Proofs.Calendar.Date

/-!
# Weeks

The week of a date is found again from its year and its number (`Date.ofWeek?_isoWeek`), and its number
is one of the weeks of that year (`Date.isoWeek_le_weeksInYear`) : the weeks of a year are counted by
their Thursdays, and that of the week of December 28 is the last one. The other way round, the week that
is counted in a year is the one of its days (`Date.isoWeek_of_mondayNumber`).
-/

namespace DesktopSearch.Date

theorem weekday_lt (d : Date) : d.weekday < 7 := by
  rw [weekday]
  omega

theorem mondayNumber_eq (d : Date) : d.mondayNumber = d.dayNumber / 7 * 7 := by
  rw [mondayNumber, weekday]
  omega

theorem mondayNumber_add_weekday (d : Date) : d.mondayNumber + d.weekday = d.dayNumber := by
  rw [mondayNumber]
  omega

theorem weekday_eq_zero_iff {d : Date} : d.weekday = 0 ↔ d.dayNumber % 7 = 0 := by
  rw [weekday]
  omega

/-- The days of a week are counted from a Monday. -/
theorem weekday_of_ofWeek? {d : Date} {year : Int} {week day : Nat} (hday : day < 7)
    (h : ofWeek? year week day = some d) : d.weekday = day := by
  have hnumber := ofDayNumber?_eq_some_iff.1 h
  rw [weekday, hnumber, firstMonday]
  omega

/-- The Thursday of a week lies in the year of the week. -/
theorem thursday_mem (d : Date) : daysBeforeYear d.isoYear ≤ d.mondayNumber + 3 ∧
    d.mondayNumber + 3 < daysBeforeYear (d.isoYear + 1) :=
  yearOfDay_eq_iff.1 rfl

/-- The weeks of a year are counted from its first Monday. -/
theorem firstMonday_add_isoWeek (d : Date) :
    firstMonday d.isoYear + 7 * ((d.isoWeek : Int) - 1) = d.mondayNumber := by
  have hthursday := d.thursday_mem.1
  have hmonday := d.mondayNumber_eq
  rw [firstMonday, isoWeek]
  omega

/-- The days of a week are found by its year and number. -/
theorem ofWeek?_isoWeek (d : Date) (day : Nat) :
    ofWeek? d.isoYear d.isoWeek day = ofDayNumber? (d.mondayNumber + day) := by
  rw [ofWeek?, firstMonday_add_isoWeek]

/-- Dates lie in one week if its year and number are the same. -/
theorem mondayNumber_eq_iff {d e : Date} :
    d.mondayNumber = e.mondayNumber ↔ d.isoYear = e.isoYear ∧ d.isoWeek = e.isoWeek := by
  constructor
  · intro h
    simp only [isoWeek, isoYear, h, and_self]
  · rintro ⟨hyear, hweek⟩
    rw [← d.firstMonday_add_isoWeek, ← e.firstMonday_add_isoWeek, hyear, hweek]

/-- December 28 is the fourth day from the end of its year. -/
theorem dayNumber_december28 {d : Date} (hmonth : d.month = 12) (hday : d.day = 28) :
    d.dayNumber = daysBeforeYear (d.year + 1) - 4 := by
  have hdecember := daysBeforeMonth_succ d.year (show 1 ≤ 12 by decide)
  have hdays : daysInMonth d.year 12 = 31 := rfl
  rw [daysBeforeMonth_thirteen, hdays] at hdecember
  rw [dayNumber, ordinal, hmonth, hday, daysBeforeYear_succ, hdecember]
  push_cast
  omega

/-- The week of December 28 belongs to its year. -/
theorem isoYear_december28 {d : Date} (hmonth : d.month = 12) (hday : d.day = 28) :
    d.isoYear = d.year := by
  have hnumber := dayNumber_december28 hmonth hday
  have hweekday := d.weekday_lt
  have hmonday := d.mondayNumber_add_weekday
  have hyear := daysBeforeYear_succ d.year
  have hlong : 365 ≤ daysInYear d.year := by
    rw [daysInYear]
    split <;> decide
  exact yearOfDay_eq_iff.2 (by omega)

/-- The weeks of a year of the calendar are those up to the week of its December 28. -/
theorem exists_december28 {year : Int} (hfirst : firstYear ≤ year) (hlast : year ≤ lastYear) :
    ∃ d : Date, weeksInYear year = d.isoWeek ∧ d.isoYear = year ∧
      d.dayNumber = daysBeforeYear (year + 1) - 4 := by
  let december : Date := ⟨year, 12, 28, hfirst, hlast, by decide, by decide, by decide,
    (by decide : 28 ≤ 31)⟩
  have hsome : ofYmd? year 12 28 = some december := december.ofYmd?_self
  exact ⟨december, by rw [weeksInYear, hsome], isoYear_december28 rfl rfl, dayNumber_december28 rfl rfl⟩

theorem one_le_weeksInYear (year : Int) : 1 ≤ weeksInYear year := by
  rw [weeksInYear]
  split
  · exact Nat.le_add_left 1 _
  · decide

/-- A year has no more weeks than begin in it. -/
theorem weeksInYear_le (year : Int) : weeksInYear year ≤ 53 := by
  rw [weeksInYear]
  split
  · rename_i d _
    obtain ⟨hstart, hend⟩ := d.thursday_mem
    have hdays := daysInYear_le d.isoYear
    rw [daysBeforeYear_succ] at hend
    rw [isoWeek]
    omega
  · decide

/-- The calendar starts on a Thursday, and its weeks from the next Monday on are whole. -/
theorem exists_mondayNumber {d : Date} (h : firstDay + 4 ≤ d.dayNumber) :
    ∃ m : Date, m.dayNumber = d.mondayNumber := by
  have hthursday : firstDay % 7 = 3 := by decide
  have hmonday := d.mondayNumber_eq
  have hlast := d.le_lastDay
  exact exists_dayNumber_eq (by omega) (by omega)

/-- The calendar starts on a Thursday, so that no week of a year before it has a day in it. -/
theorem firstYear_le_isoYear (d : Date) : firstYear ≤ d.isoYear := by
  have hthursday : firstDay % 7 = 3 := by decide
  have hfirst := d.firstDay_le
  have hmonday := d.mondayNumber_eq
  have hlt : daysBeforeYear firstYear < daysBeforeYear (d.isoYear + 1) := by
    refine lt_of_le_of_lt ?_ d.thursday_mem.2
    rw [← firstDay]
    omega
  exact Int.lt_add_one_iff.1 (daysBeforeYear_strictMono.lt_iff_lt.1 hlt)

/-- A week of a year is one of the weeks of that year. -/
theorem isoWeek_le_weeksInYear (d : Date) : d.isoWeek ≤ weeksInYear d.isoYear := by
  have hthursday := d.thursday_mem
  have hmonday := d.mondayNumber_eq
  rcases lt_or_ge lastYear d.isoYear with hafter | hlast
  · -- The week lies in the year after the last one, and is its first.
    have hday := d.le_lastDay
    have hyear := daysBeforeYear_strictMono.monotone (Int.add_one_le_iff.2 hafter)
    have hnone : ofYmd? d.isoYear 12 28 = none := dif_neg fun h => by omega
    rw [lastDay] at hday
    rw [weeksInYear, hnone, isoWeek]
    dsimp only
    omega
  · -- Both Thursdays lie in the year, and that of December 28 is less than a week from its end.
    obtain ⟨december, hweeks, hyear, hnumber⟩ := exists_december28 d.firstYear_le_isoYear hlast
    have hdecember := december.mondayNumber_eq
    rw [hweeks]
    simp only [isoWeek, hyear]
    omega

/-- The date that a week of a year leads to lies in that week. -/
theorem isoWeek_of_mondayNumber {d : Date} {year : Int} {week : Nat} (hfirst : firstYear ≤ year)
    (hlast : year ≤ lastYear) (hpos : 1 ≤ week) (hle : week ≤ weeksInYear year)
    (h : d.mondayNumber = firstMonday year + 7 * ((week : Int) - 1)) :
    d.isoYear = year ∧ d.isoWeek = week := by
  obtain ⟨december, hweeks, hyear, -⟩ := exists_december28 hfirst hlast
  have hend := december.thursday_mem.2
  have hcount := december.firstMonday_add_isoWeek
  rw [hyear] at hend hcount
  have hisoYear : d.isoYear = year := by
    refine yearOfDay_eq_iff.2 ⟨?_, ?_⟩
    · rw [h, firstMonday]
      omega
    · omega
  refine ⟨hisoYear, ?_⟩
  have hcount := d.firstMonday_add_isoWeek
  rw [hisoYear] at hcount
  omega

end DesktopSearch.Date
