import DesktopSearch.Proofs.Dates.Absolute
import DesktopSearch.Proofs.Dates.Week

/-!
# Dates with their weekdays

A date in figures is the day that it names, whenever it is looked at. If its weekday is named, too, the
date is looked up in a week instead : in the given year, the week that has the number of the present one.
So what is described is the given date if its own week is that one, and else another day of the year with
the same weekday (`DateSpec.moment_of_weekday`).
-/

namespace DesktopSearch.DateSpec

variable {d : Date} {now : Instant}

/-- The specification of a date in figures. -/
def ofDate (d : Date) : DateSpec := showing (Instant.midnight d) [.year, .month, .day]

/-- The specification of a date in figures, with its weekday. -/
def ofWeekday (d : Date) : DateSpec := (ofDate d).set .dayOfWeek (.absolute (d.weekday + 1))

theorem moment?_ofDate (h : 1 ≤ d.year) (h' : d.year ≤ 9999) (now : Instant) :
    (ofDate d).moment? now = some ⟨Instant.midnight d, .day⟩ := by
  have hne : [Period.year, .month, .day] ≠ [] := List.cons_ne_nil _ _
  have hday : Period.day.IsStart (Instant.midnight d) := ⟨trivial, rfl, rfl⟩
  exact moment?_showing hne ⟨_, rfl⟩ hday h h' now

/-- The number that the present week has in a year, which may have one week less than the present one. -/
theorem clamp_weeksInYear (year : Int) (today : Date) :
    (clamp 1 (Date.weeksInYear year) today.isoWeek).toNat = min today.isoWeek (Date.weeksInYear year) := by
  have hpos : 1 ≤ today.isoWeek := Nat.le_add_left 1 _
  have hweeks := Date.one_le_weeksInYear year
  rw [clamp]
  omega

/-- A day of a week of a year has its weekday and lies in the week. -/
theorem of_ofWeek?_eq_some {year : Int} {week day : Nat} {e : Date} (h : 1 ≤ year) (h' : year ≤ 9999)
    (hpos : 1 ≤ week) (hle : week ≤ Date.weeksInYear year) (hday : day < 7)
    (he : Date.ofWeek? year week day = some e) :
    e.weekday = day ∧ e.isoYear = year ∧ e.isoWeek = week := by
  have hweekday := Date.weekday_of_ofWeek? hday he
  have hnumber := Date.ofDayNumber?_eq_some_iff.1 he
  have hmonday := e.mondayNumber_add_weekday
  exact ⟨hweekday, Date.isoWeek_of_mondayNumber (by rw [firstYear]; omega) (by rw [lastYear]; omega)
    hpos hle (by omega)⟩

theorem weekday_ofWeekday (d today : Date) : (ofWeekday d).weekday today - 1 = d.weekday := by
  have hlt := d.weekday_lt
  have hvalue : (ofWeekday d).dateValue .dayOfWeek (today.weekday + 1) = d.weekday + 1 := rfl
  rw [weekday, hvalue, if_neg (by omega), clamp_eq_self (by omega) (by omega)]
  omega

/-- The weekday of a date in figures is looked up in the present week of the given year. -/
theorem exists_moment?_ofWeekday (h : 1 ≤ d.year) (h' : d.year ≤ 9999) (now : Instant) :
    ∃ e : Date, (ofWeekday d).moment? now = some ⟨Instant.midnight e, .day⟩ ∧ e.weekday = d.weekday ∧
      e.isoYear = d.year ∧ e.isoWeek = min now.date.isoWeek (Date.weeksInYear d.year) := by
  have hpos : 1 ≤ min now.date.isoWeek (Date.weeksInYear d.year) :=
    le_min (Nat.le_add_left 1 _) (Date.one_le_weeksInYear d.year)
  have hle := Nat.min_le_right now.date.isoWeek (Date.weeksInYear d.year)
  obtain ⟨e, he⟩ := exists_ofWeek? h h' hpos (hle.trans (Date.weeksInYear_le d.year)) d.weekday_lt
  have hdate : (ofWeekday d).date now.date = e := by
    have hstart : (ofWeekday d).date now.date = (Date.ofWeek? (clampYear d.year)
        (clamp 1 (Date.weeksInYear (clampYear d.year)) now.date.isoWeek).toNat
          ((ofWeekday d).weekday now.date - 1)).getD ((ofWeekday d).plainDate now.date) := rfl
    rw [hstart, clampYear_eq_self h h', clamp_weeksInYear, weekday_ofWeekday, he, Option.getD_some]
  have hmoment : (ofWeekday d).moment? now = some ⟨Instant.midnight e, .day⟩ :=
    moment?_eq_of_date rfl (timeShift?_eq_zero rfl rfl rfl) hdate rfl rfl
  exact ⟨e, hmoment, of_ofWeek?_eq_some h h' hpos hle d.weekday_lt he⟩

/-- Dates are the same if their weeks and weekdays are. -/
theorem eq_iff_of_weekday_eq {e : Date} (hweekday : e.weekday = d.weekday) :
    e = d ↔ d.isoYear = e.isoYear ∧ d.isoWeek = e.isoWeek := by
  rw [← Date.mondayNumber_eq_iff, ← Date.dayNumber_injective.eq_iff, ← d.mondayNumber_add_weekday,
    ← e.mondayNumber_add_weekday]
  omega

/-- A date that is named with its weekday is described as a day of the given year with this weekday, in the
week that has the number of the present one, or the last one of the year. So it is the date that is
described without the weekday if its own week is that one, and only then. -/
theorem moment_of_weekday (h : 1 ≤ d.year) (h' : d.year ≤ 9999) (now : Instant) :
    (ofDate d).moment? now = some ⟨Instant.midnight d, .day⟩ ∧
    (∃ e : Date, (ofWeekday d).moment? now = some ⟨Instant.midnight e, .day⟩ ∧ e.weekday = d.weekday ∧
      e.isoYear = d.year ∧ e.isoWeek = min now.date.isoWeek (Date.weeksInYear d.year)) ∧
    (((ofWeekday d).moment? now).map Moment.instant = ((ofDate d).moment? now).map Moment.instant ↔
      d.isoYear = d.year ∧ d.isoWeek = min now.date.isoWeek (Date.weeksInYear d.year)) := by
  have hdate := moment?_ofDate h h' now
  obtain ⟨e, he, hweekday, hyear, hweek⟩ := exists_moment?_ofWeekday h h' now
  refine ⟨hdate, ⟨e, he, hweekday, hyear, hweek⟩, ?_⟩
  have hmidnight : Instant.midnight e = Instant.midnight d ↔ e = d :=
    ⟨congrArg Instant.date, congrArg Instant.midnight⟩
  rw [he, hdate, ← hweek, ← hyear, Option.map_some, Option.map_some, Option.some_inj]
  exact hmidnight.trans (eq_iff_of_weekday_eq hweekday)

/-- In the week of June 5, 2013, a Wednesday, the date is the same with its weekday. -/
theorem moment_of_weekday_june :
    (1 ≤ june5.date.year ∧ june5.date.year ≤ 9999) ∧
      ((ofWeekday june5.date).moment? june5).map Moment.instant =
        ((ofDate june5.date).moment? june5).map Moment.instant := by
  have hyear : 1 ≤ june5.date.year ∧ june5.date.year ≤ 9999 := by decide
  obtain ⟨-, -, hsame⟩ := moment_of_weekday hyear.1 hyear.2 june5
  exact ⟨hyear, hsame.2 (by decide +kernel)⟩

/-- Seen from then, Wednesday, December 25, 2013 is June 5, 2013. -/
theorem moment_of_weekday_december :
    let december : Date := ⟨2013, 12, 25, by decide, by decide, by decide, by decide, by decide, by decide⟩
    december.weekday = 2 ∧
      ((ofDate december).moment? june5).map Moment.instant = some (Instant.midnight december) ∧
      ((ofWeekday december).moment? june5).map Moment.instant = some (Instant.midnight june5.date) ∧
      Instant.midnight june5.date ≠ Instant.midnight december := by
  decide +kernel

end DesktopSearch.DateSpec
