import DesktopSearch.Proofs.Dates.Relative

/-!
# Weeks that are described

A specification that says something about the week and nothing about finer periods, `DateSpec.NamesWeek`,
describes seven days from a midnight on, or none where the calendar ends within them
(`DateSpec.moment_of_week`). It starts from the Monday of the week, which there is unless the week is
counted from now in the very first days of the calendar (`DateSpec.HasMonday`), and is then moved by
years, months and weeks. Weeks lead from Mondays to Mondays, so that without years and months to move by
the seven days are a week of the calendar; years and months lead to the same day of another month, which
need not be a Monday (`DateSpec.moment_of_week_elsewhere`).
-/

namespace DesktopSearch

namespace DateSpec

variable {s : DateSpec} {now : Instant} {today d : Date} {p : Period} {n : Int}

/-! ## Moving from Mondays -/

theorem weekday_shiftDays (d : Date) (h : n % 7 = 0) : (shiftDays d n).weekday = d.weekday := by
  rw [shiftDays]
  cases hd : d.addDays? n with
  | none => rfl
  | some e =>
    have hnumber := Date.addDays?_eq_some_iff.1 hd
    rw [Option.getD_some, Date.weekday, Date.weekday, hnumber]
    omega

theorem shiftMonths_zero (d : Date) : shiftMonths d 0 = d := by
  have hmonths : d.year * 12 + (d.month - 1 : Nat) + 0 = d.monthNumber := by
    rw [Date.monthNumber]
    omega
  rw [shiftMonths, Date.addMonths?]
  simp only [hmonths, Date.monthNumber_ediv, Date.monthNumber_emod, min_eq_left d.day_le, Date.ofYmd?_self,
    Option.getD_some]

theorem moveDate_of_unset (h : s.field p = .unset) (d : Date) : s.moveDate d p = d := by
  rw [moveDate, h]

/-- Neither years nor months are counted from now, other than this year and this month. -/
def KeepsMonths (s : DateSpec) : Prop :=
  ∀ p n, p = .year ∨ p = .month → s.field p = .relative n → n = 0

theorem KeepsMonths.moveDate_eq (h : s.KeepsMonths) (hp : p = .year ∨ p = .month) (d : Date) :
    s.moveDate d p = d := by
  rw [moveDate]
  split
  · rename_i n hn
    obtain rfl := h p n hp hn
    rcases hp with rfl | rfl <;> exact shiftMonths_zero d
  · rfl

theorem weekday_moveDate_week (s : DateSpec) (d : Date) : (s.moveDate d .week).weekday = d.weekday := by
  rw [moveDate]
  split
  · exact weekday_shiftDays d (Int.mul_emod_right 7 _)
  · rfl

/-! ## Dates of the absolute fields -/

theorem clampYear_mem (year : Int) : 1 ≤ clampYear year ∧ clampYear year ≤ 9999 := by
  rw [clampYear, clamp]
  omega

theorem place_mem {count : Nat} (h : 1 ≤ count) (n : Int) : 1 ≤ place count n ∧ place count n ≤ count := by
  rw [place, clamp]
  omega

theorem exists_dayOfMonth? (year month day : Int) :
    ∃ d, dayOfMonth? year month day = some d ∧ 1 ≤ d.year ∧ d.year ≤ 9999 := by
  obtain ⟨hyear, hyear'⟩ := clampYear_mem year
  obtain ⟨hmonth, hmonth'⟩ := place_mem (show 1 ≤ 12 by decide) month
  obtain ⟨hday, hday'⟩ := place_mem (one_le_daysInMonth (clampYear year) (place 12 month)) day
  let d : Date := ⟨clampYear year, place 12 month, place _ day, by rw [firstYear]; omega,
    by rw [lastYear]; omega, hmonth, hmonth', hday, hday'⟩
  exact ⟨d, d.ofYmd?_self, hyear, hyear'⟩

theorem exists_dayOfYear? (year day : Int) :
    ∃ d, dayOfYear? year day = some d ∧ 1 ≤ d.year ∧ d.year ≤ 9999 := by
  obtain ⟨hyear, hyear'⟩ := clampYear_mem year
  obtain ⟨hplace, hplace'⟩ := place_mem (Nat.succ_le_of_lt (daysInYear_pos (clampYear year))) day
  obtain ⟨month, monthDay, hmonth, hmonth', hday, hday', hordinal⟩ :=
    exists_month (clampYear year) hplace hplace'
  let d : Date := ⟨clampYear year, month, monthDay, by rw [firstYear]; omega, by rw [lastYear]; omega,
    hmonth, hmonth', hday, hday'⟩
  refine ⟨d, ?_, hyear, hyear'⟩
  rw [dayOfYear?, ← hordinal]
  exact d.ofOrdinal?_ordinal

theorem year_plainDate (s : DateSpec) (today : Date) :
    1 ≤ (s.plainDate today).year ∧ (s.plainDate today).year ≤ 9999 := by
  rw [plainDate]
  split
  · obtain ⟨d, hd, hyear⟩ := exists_dayOfMonth? (s.dateValue .year today.year)
      (s.dateValue .month today.month) (s.dateValue .day today.day)
    rw [hd, Option.getD_some]
    exact hyear
  · obtain ⟨d, hd, hyear⟩ := exists_dayOfYear? (s.dateValue .year today.year)
      (s.dateValue .day today.ordinal)
    rw [hd, Option.getD_some]
    exact hyear

/-! ## Mondays of weeks -/

theorem weekday_mondayOf (h : 1 ≤ d.year) (h' : d.year ≤ 9999) : (mondayOf d).weekday = 0 := by
  obtain ⟨monday, hmonday⟩ := exists_monday h h'
  have hnumber := d.mondayNumber_add_weekday
  have hmod := d.mondayNumber_eq
  have heq : mondayOf d = monday := shiftDays_eq (by omega)
  rw [heq, Date.weekday_eq_zero_iff]
  omega

/-- The weeks of a year of four digits have all their days in the calendar. -/
theorem exists_ofWeek? {year : Int} {week day : Nat} (h : 1 ≤ year) (h' : year ≤ 9999) (hpos : 1 ≤ week)
    (hle : week ≤ 53) (hday : day < 7) : ∃ d, Date.ofWeek? year week day = some d := by
  have hlow := daysBeforeYear_strictMono.monotone h
  have hhigh := daysBeforeYear_strictMono.monotone h'
  have hfirst : Date.firstDay ≤ daysBeforeYear 1 - 7 := by decide
  have hlast : daysBeforeYear 9999 + 400 ≤ Date.lastDay := by decide
  obtain ⟨d, hd⟩ : ∃ d : Date, d.dayNumber = Date.firstMonday year + 7 * ((week : Int) - 1) + day := by
    rw [Date.firstMonday]
    exact Date.exists_dayNumber_eq (by omega) (by omega)
  exact ⟨d, Date.ofDayNumber?_eq_some_iff.2 hd⟩

theorem exists_mondayInYear? (year week : Int) : ∃ d, mondayInYear? year week = some d ∧ d.weekday = 0 := by
  obtain ⟨hyear, hyear'⟩ := clampYear_mem year
  have hweeks := Date.weeksInYear_le (clampYear year)
  obtain ⟨hplace, hplace'⟩ := place_mem (Date.one_le_weeksInYear (clampYear year)) week
  obtain ⟨d, hd⟩ := exists_ofWeek? hyear hyear' hplace (hplace'.trans hweeks) (show 0 < 7 by decide)
  exact ⟨d, hd, Date.weekday_of_ofWeek? (by decide) hd⟩

theorem exists_mondayInMonth? (h : 1 ≤ d.year) (h' : d.year ≤ 9999) (week : Int) :
    ∃ e, mondayInMonth? d week = some e ∧ e.weekday = 0 := by
  rw [mondayInMonth?]
  split
  · obtain ⟨last, hlast, hyear, hyear'⟩ := exists_dayOfMonth? d.year d.month (-1)
    refine ⟨_, by rw [hlast]; rfl, ?_⟩
    rw [weekday_shiftDays _ (Int.mul_emod_left _ 7), weekday_mondayOf hyear hyear']
  · obtain ⟨first, hyear, hmonth, hday⟩ := exists_first d d.one_le_month d.month_le
    have hsome : Date.ofYmd? d.year d.month 1 = some first := by
      rw [← hyear, ← hmonth, ← hday, first.ofYmd?_self]
    refine ⟨_, by rw [hsome]; rfl, ?_⟩
    rw [weekday_shiftDays _ (Int.mul_emod_left _ 7), weekday_mondayOf (by omega) (by omega)]

/-- A Monday is found again from its week. -/
theorem ofWeek?_monday (hd : d.weekday = 0) :
    Date.ofWeek? d.isoYear (clamp 1 (Date.weeksInYear d.isoYear) d.isoWeek).toNat 0 = some d := by
  have hmonday := d.mondayNumber_add_weekday
  rw [ofWeek?_clamp, Date.ofDayNumber?_eq_some_iff]
  omega

/-! ## Where a named week starts -/

/-- The specification says something about the week, and nothing about what is finer. -/
structure NamesWeek (s : DateSpec) : Prop where
  week : s.isSet .week = true
  finer : ∀ p, Period.week.index < p.index → s.field p = .unset

/-- The week that is spoken of has its Monday in the calendar : it is counted in a month or a year of four
digits, or it is that of today, and today is not one of the four days before the first Monday. -/
def HasMonday (s : DateSpec) (today : Date) : Prop :=
  (s.field .week).isAbsolute = true ∨ (s.field .year).isAbsolute = true ∨
    Date.firstDay + 4 ≤ today.dayNumber

namespace NamesWeek

theorem isSet_finer (h : s.NamesWeek) (hp : Period.week.index < p.index) : s.isSet p = false := by
  rw [isSet, h.finer p hp]
  rfl

theorem datePrecision_eq (h : s.NamesWeek) : s.datePrecision = .week := by
  have hday : s.isSet .day = false := h.isSet_finer (by decide)
  have hweekday : s.isSet .dayOfWeek = false := h.isSet_finer (by decide)
  simp [datePrecision, hday, hweekday, h.week]

theorem timePrecision?_eq (h : s.NamesWeek) : s.timePrecision? = none := by
  have hsecond : s.isSet .second = false := h.isSet_finer (by decide)
  have hminute : s.isSet .minute = false := h.isSet_finer (by decide)
  have hhour : s.isSet .hour = false := h.isSet_finer (by decide)
  simp [timePrecision?, hsecond, hminute, hhour]

theorem precision_eq (h : s.NamesWeek) : s.precision = .week := by
  rw [precision, h.timePrecision?_eq, Option.getD_none, h.datePrecision_eq]

theorem weekday_eq (h : s.NamesWeek) (today : Date) : s.weekday today = 1 := by
  have hvalue : s.dateValue .dayOfWeek (today.weekday + 1) = 1 := by
    rw [dateValue, value, h.finer .dayOfWeek (by decide), h.datePrecision_eq]
    rfl
  rw [weekday, hvalue]
  rfl

theorem startSecond_eq (h : s.NamesWeek) (now : Instant) : s.startSecond now = 0 := by
  have hvalue (p : Period) (n : Int) (hp : Period.week.index < p.index) : s.timeValue p n = 0 := by
    rw [timeValue, value, h.finer p hp, h.timePrecision?_eq]
    rfl
  rw [startSecond, hvalue _ _ (by decide), hvalue _ _ (by decide), hvalue _ _ (by decide)]
  rfl

theorem timeShift?_eq (h : s.NamesWeek) : s.timeShift? = some 0 := by
  have hshift (p : Period) (n : Int) (hp : Period.week.index < p.index) : s.shift p n = 0 := by
    rw [shift, h.finer p hp]
  exact timeShift?_eq_zero (hshift _ _ (by decide)) (hshift _ _ (by decide)) (hshift _ _ (by decide))

theorem date_eq (h : s.NamesWeek) (today : Date) : s.date today =
    s.moveDate (s.moveDate (s.moveDate (s.startDate today) .year) .month) .week := by
  have hweekday := moveDate_of_unset (h.finer .dayOfWeek (by decide))
  have hday := moveDate_of_unset (h.finer .day (by decide))
  rw [date]
  simp only [List.foldl_cons, List.foldl_nil, hweekday, hday]

/-- The week that is spoken of has its Monday where `HasMonday` says so. -/
theorem exists_monday (h : s.NamesWeek) (hmonday : s.HasMonday today) :
    ∃ d, Date.ofWeek? (s.week today (s.plainDate today)).1
      (clamp 1 (Date.weeksInYear (s.week today (s.plainDate today)).1)
        (s.week today (s.plainDate today)).2).toNat 0 = some d := by
  rw [DateSpec.week]
  cases hweek : s.field .week with
  | unset => exact absurd h.week (by simp [isSet, hweek, Field.isSet])
  | absolute n =>
    obtain ⟨d, hd, hweekday⟩ : ∃ d, (if s.isSet .month then mondayInMonth? (s.plainDate today) n
        else mondayInYear? (s.dateValue .year today.year) n) = some d ∧ d.weekday = 0 := by
      obtain ⟨hyear, hyear'⟩ := s.year_plainDate today
      split
      · exact exists_mondayInMonth? hyear hyear' n
      · exact exists_mondayInYear? _ n
    dsimp only
    rw [hd, Option.getD_some]
    exact ⟨d, ofWeek?_monday hweekday⟩
  | relative n =>
    dsimp only
    split
    · obtain ⟨hyear, hyear'⟩ := clampYear_mem (s.dateValue .year today.year)
      have hweeks := Date.weeksInYear_le (clampYear (s.dateValue .year today.year))
      refine exists_ofWeek? hyear hyear' ?_ ?_ (by decide)
      all_goals
        simp only [clamp]
        omega
    · rename_i hyear
      have hcounted : (s.field .week).isAbsolute ≠ true := by simp [hweek, Field.isAbsolute]
      obtain ⟨d, hd⟩ := Date.exists_mondayNumber ((hmonday.resolve_left hcounted).resolve_left hyear)
      dsimp only
      refine ⟨d, ?_⟩
      rw [ofWeek?_clamp, Date.ofDayNumber?_eq_some_iff]
      omega

/-- The absolute fields lead to the Monday of the week that is spoken of. -/
theorem weekday_startDate (h : s.NamesWeek) (hmonday : s.HasMonday today) :
    (s.startDate today).weekday = 0 := by
  have hset : (s.isSet .week || s.isSet .dayOfWeek) = true := by rw [h.week, Bool.true_or]
  obtain ⟨d, hd⟩ := h.exists_monday hmonday
  rw [startDate]
  simp only [if_pos hset, h.weekday_eq, hd, Option.getD_some]
  exact Date.weekday_of_ofWeek? (by decide) hd

theorem moment?_eq (h : s.NamesWeek) (now : Instant) :
    s.moment? now = some ⟨Instant.midnight (s.date now.date), .week⟩ := by
  rw [← h.precision_eq]
  exact moment?_eq_of_date (h.startSecond_eq now) h.timeShift?_eq rfl rfl rfl

end NamesWeek

end DateSpec

/-! ## Weeks -/

namespace Moment

/-- The moment starts at a midnight and has the length of a week, or none where the calendar ends within
it. -/
structure LastsWeek (m : Moment) : Prop where
  precision : m.precision = .week
  second : m.start.second = 0
  nano : m.start.nano = 0
  finish : ∀ d : Date, d.dayNumber = m.start.date.dayNumber + 7 → m.finish = Instant.midnight d
  ends : (∀ d : Date, d.dayNumber ≠ m.start.date.dayNumber + 7) → m.finish = m.start

/-- The moment is a week of the calendar, from Monday to Sunday. -/
structure IsCalendarWeek (m : Moment) : Prop where
  monday : m.start.date.weekday = 0
  mem : ∀ t, m.start ≤ t ∧ t < m.finish ↔
    t.date.isoYear = m.start.date.isoYear ∧ t.date.isoWeek = m.start.date.isoWeek

variable {m : Moment} {d : Date}

theorem lastsWeek_midnight (d : Date) : LastsWeek ⟨Instant.midnight d, .week⟩ where
  precision := rfl
  second := rfl
  nano := rfl
  finish _ h := Period.advance_week_of_midnight rfl rfl rfl rfl h
  ends h := Period.advance_week_of_end rfl h

/-- From a Monday on seven days are a week. -/
theorem LastsWeek.isCalendarWeek (h : m.LastsWeek) (hmonday : m.start.date.weekday = 0)
    (hd : d.dayNumber = m.start.date.dayNumber + 7) : m.IsCalendarWeek := by
  refine ⟨hmonday, fun t => ?_⟩
  have hstart : Period.week.IsStart m.start := ⟨hmonday, h.second, h.nano⟩
  have hweekday : d.weekday = 0 := by
    rw [Date.weekday_eq_zero_iff] at hmonday ⊢
    omega
  have hnext : Period.week.IsStart (Instant.midnight d) := ⟨hweekday, rfl, rfl⟩
  have hnumber : Period.week.number (Instant.midnight d) = Period.week.number m.start + 1 := by
    have hday : (Instant.midnight d).date.dayNumber = m.start.date.dayNumber + 7 := hd
    rw [Period.number, Period.number, hday]
    omega
  rw [h.finish d hd, hstart.mem_iff hnext hnumber, Period.number_week_eq_iff]

end Moment

namespace DateSpec

variable {s : DateSpec}

/-- A specification that names a week describes seven days from a midnight on : the date of the absolute
fields, moved by the years, months and weeks that are counted from now. The date of the absolute fields is a
Monday, if there is one in the calendar ; so without years and months to move by the seven days start on a
Monday, and are a week of the calendar unless it ends within them. -/
theorem moment_of_week (h : s.NamesWeek) (now : Instant) :
    ∃ m, s.moment? now = some m ∧ m.LastsWeek ∧
      m.start.date = s.moveDate (s.moveDate (s.moveDate (s.startDate now.date) .year) .month) .week ∧
      (s.HasMonday now.date → (s.startDate now.date).weekday = 0 ∧
        (s.KeepsMonths → m.start.date.weekday = 0 ∧
          ∀ d : Date, d.dayNumber = m.start.date.dayNumber + 7 → m.IsCalendarWeek)) := by
  have hlasts := Moment.lastsWeek_midnight (s.date now.date)
  have hdate := h.date_eq now.date
  refine ⟨_, h.moment?_eq now, hlasts, hdate, fun hmonday => ?_⟩
  have hbase := h.weekday_startDate hmonday
  refine ⟨hbase, fun hmonths => ?_⟩
  have hweekday : (s.date now.date).weekday = 0 := by
    rw [hdate, weekday_moveDate_week, hmonths.moveDate_eq (Or.inr rfl), hmonths.moveDate_eq (Or.inl rfl), hbase]
  exact ⟨hweekday, fun d hd => hlasts.isCalendarWeek hweekday hd⟩

/-! ## Some weeks -/

/-- What is said about a week, a month and a year. -/
def ofWeek (week month year : Field) : DateSpec :=
  ((empty.set .week week).set .month month).set .year year

theorem namesWeek_ofWeek {week month year : Field} (h : week.isSet = true) :
    (ofWeek week month year).NamesWeek := by
  refine ⟨h, fun p hp => ?_⟩
  cases p with
  | year | month | week => simp [Period.index] at hp
  | _ => rfl

/-- The morning of June 5, 2013, a Wednesday. -/
def june5 : Instant :=
  Instant.atSecond ⟨2013, 6, 5, by decide, by decide, by decide, by decide, by decide, by decide⟩ 37230

/-- The third week of June 2013 is that of the tenth. -/
theorem moment_of_week_june :
    let s := ofWeek (.absolute 3) (.absolute 6) .unset
    let monday : Date := ⟨2013, 6, 10, by decide, by decide, by decide, by decide, by decide, by decide⟩
    (s.NamesWeek ∧ s.HasMonday june5.date ∧ s.KeepsMonths) ∧
      ∃ m, s.moment? june5 = some m ∧ m.start.date = monday ∧ m.IsCalendarWeek := by
  intro s monday
  let nextMonday : Date := ⟨2013, 6, 17, by decide, by decide, by decide, by decide, by decide, by decide⟩
  have hs : s.NamesWeek := namesWeek_ofWeek rfl
  have hmonday : s.HasMonday june5.date := Or.inl rfl
  have hmonths : s.KeepsMonths := by
    rintro p n (rfl | rfl) h <;> cases h
  have hread : s.moment? june5 = some ⟨Instant.midnight monday, .week⟩ := by decide +kernel
  obtain ⟨m, hm, -, -, hweek⟩ := moment_of_week hs june5
  obtain rfl := Option.some.inj (hm.symm.trans hread)
  have hnext : nextMonday.dayNumber = monday.dayNumber + 7 := by decide +kernel
  exact ⟨⟨hs, hmonday, hmonths⟩, _, hm, rfl, ((hweek hmonday).2 hmonths).2 nextMonday hnext⟩

/-- Not all named weeks start on a Monday. Seen from June 5, 2013, the first week of next month is the first
week of June, a month later. On the first day of the calendar this week has no Monday, and the last day is a
Monday whose week has no end. -/
theorem moment_of_week_elsewhere :
    let thursday : Date := ⟨2013, 6, 27, by decide, by decide, by decide, by decide, by decide, by decide⟩
    let first : Date := ⟨-262143, 1, 1, by decide, by decide, by decide, by decide, by decide, by decide⟩
    let last : Date := ⟨262142, 12, 31, by decide, by decide, by decide, by decide, by decide, by decide⟩
    let nextMonth := ofWeek (.absolute 1) (.relative 1) .unset
    let february := ofWeek (.relative 0) (.absolute 2) .unset
    let thisWeek := ofWeek (.relative 0) .unset .unset
    (nextMonth.NamesWeek ∧ nextMonth.moment? june5 = some ⟨Instant.midnight thursday, .week⟩ ∧
      thursday.weekday = 3) ∧
    (february.NamesWeek ∧
      (february.moment? (Instant.midnight first)).map (·.start.date.weekday) = some 3) ∧
    (thisWeek.NamesWeek ∧ (thisWeek.moment? (Instant.midnight last)).map (fun m => (m.start, m.finish)) =
      some (Instant.midnight last, Instant.midnight last)) := by
  refine ⟨⟨namesWeek_ofWeek rfl, ?_⟩, ⟨namesWeek_ofWeek rfl, ?_⟩, ⟨namesWeek_ofWeek rfl, ?_⟩⟩
  all_goals decide +kernel

end DateSpec

end DesktopSearch
