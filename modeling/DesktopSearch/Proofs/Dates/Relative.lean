import DesktopSearch.Proofs.Calendar.Period
import DesktopSearch.Proofs.Dates.Spec

/-!
# Periods counted from now

A specification that only says how many periods from now something is, `DateSpec.fromNow`, describes the
whole period that many places along the calendar (`DateSpec.moment?_fromNow`). So what is described by
consecutive numbers tiles the calendar around now (`DateSpec.fromNow_tile`) : yesterday ends where today
starts, and now is today.
-/

namespace DesktopSearch.DateSpec

/-- So many periods from now. -/
def fromNow (p : Period) (n : Int) : DateSpec := empty.set p (.relative n)

theorem precision_fromNow (p : Period) (n : Int) : (fromNow p n).precision = p := by
  cases p <;> rfl

/-! ## Where counting starts -/

variable {p : Period} {n : Int} {now u : Instant}

/-- The months of the year of a date have first days. -/
theorem exists_first (d : Date) {month : Nat} (h : 1 ≤ month) (h' : month ≤ 12) :
    ∃ e : Date, e.year = d.year ∧ e.month = month ∧ e.day = 1 :=
  ⟨⟨d.year, month, 1, d.firstYear_le, d.le_lastYear, h, h', Nat.le_refl 1,
    one_le_daysInMonth d.year month⟩, rfl, rfl, rfl⟩

theorem date_fromNow_year {first : Date} (h : 1 ≤ now.date.year) (h' : now.date.year ≤ 9999)
    (hyear : first.year = now.date.year) (hmonth : first.month = 1) (hday : first.day = 1) (n : Int) :
    (fromNow .year n).date now.date = shiftMonths first (12 * n) := by
  have hordinal : first.ordinal = 1 := by rw [Date.ordinal, hmonth, hday]; rfl
  have hbase : dayOfYear? now.date.year (1 : Nat) = some first := by
    rw [← hyear, ← hordinal]
    exact dayOfYear?_ordinal (by omega) (by omega)
  have hdate : (fromNow .year n).date now.date =
      shiftMonths ((dayOfYear? now.date.year (1 : Nat)).getD now.date) (12 * n) := rfl
  rw [hdate, hbase, Option.getD_some]

theorem date_fromNow_month {first : Date} (h : 1 ≤ now.date.year) (h' : now.date.year ≤ 9999)
    (hyear : first.year = now.date.year) (hmonth : first.month = now.date.month)
    (hday : first.day = 1) (n : Int) :
    (fromNow .month n).date now.date = shiftMonths first n := by
  have hbase : dayOfMonth? now.date.year now.date.month (1 : Nat) = some first := by
    rw [← hyear, ← hmonth, ← hday]
    exact dayOfMonth?_self (by omega) (by omega)
  have hdate : (fromNow .month n).date now.date =
      shiftMonths ((dayOfMonth? now.date.year now.date.month (1 : Nat)).getD now.date) n := rfl
  rw [hdate, hbase, Option.getD_some]

/-- The weeks of four-digit years have their Mondays in the calendar. -/
theorem exists_monday {d : Date} (h : 1 ≤ d.year) (h' : d.year ≤ 9999) :
    ∃ m : Date, m.dayNumber = d.mondayNumber := by
  have hnumber := Date.dayNumber_mem h h'
  have hfirst : Date.firstDay ≤ -7 := by decide
  exact Date.exists_mondayNumber (by omega)

theorem date_fromNow_week {monday : Date} (hmonday : monday.dayNumber = now.date.mondayNumber) (n : Int) :
    (fromNow .week n).date now.date = shiftDays monday (7 * n) := by
  have hbase : Date.ofWeek? now.date.isoYear
      (clamp 1 (Date.weeksInYear now.date.isoYear) now.date.isoWeek).toNat 0 = some monday := by
    rw [ofWeek?_clamp, Date.ofDayNumber?_eq_some_iff, hmonday]
    simp
  have hdate : (fromNow .week n).date now.date = shiftDays ((Date.ofWeek? now.date.isoYear
      (clamp 1 (Date.weeksInYear now.date.isoYear) now.date.isoWeek).toNat 0).getD
        ((fromNow .week n).plainDate now.date)) (7 * n) := rfl
  rw [hdate, hbase, Option.getD_some]

theorem date_fromNow_dayOfWeek (now : Instant) (n : Int) :
    (fromNow .dayOfWeek n).date now.date = shiftDays now.date n := by
  have hweekday : (fromNow .dayOfWeek n).weekday now.date - 1 = now.date.weekday := by
    have hlt := now.date.weekday_lt
    have hvalue : (fromNow .dayOfWeek n).dateValue .dayOfWeek (now.date.weekday + 1) =
        now.date.weekday + 1 := rfl
    rw [weekday, hvalue, if_neg (by omega), clamp_eq_self (by omega) (by omega)]
    omega
  have hbase : Date.ofWeek? now.date.isoYear
      (clamp 1 (Date.weeksInYear now.date.isoYear) now.date.isoWeek).toNat
        ((fromNow .dayOfWeek n).weekday now.date - 1) = some now.date := by
    rw [hweekday, ofWeek?_clamp, Date.mondayNumber_add_weekday, Date.ofDayNumber?_dayNumber]
  have hdate : (fromNow .dayOfWeek n).date now.date = shiftDays ((Date.ofWeek? now.date.isoYear
      (clamp 1 (Date.weeksInYear now.date.isoYear) now.date.isoWeek).toNat
        ((fromNow .dayOfWeek n).weekday now.date - 1)).getD
          ((fromNow .dayOfWeek n).plainDate now.date)) n := rfl
  rw [hdate, hbase, Option.getD_some]

theorem date_fromNow_day (h : 1 ≤ now.date.year) (h' : now.date.year ≤ 9999) (n : Int) :
    (fromNow .day n).date now.date = shiftDays now.date n := by
  have hdate : (fromNow .day n).date now.date =
      shiftDays ((dayOfYear? now.date.year now.date.ordinal).getD now.date) n := rfl
  rw [hdate, dayOfYear?_ordinal h h', Option.getD_some]

/-- Times are counted on the date of now. -/
theorem date_fromNow_time (hp : p = .hour ∨ p = .minute ∨ p = .second) (h : 1 ≤ now.date.year)
    (h' : now.date.year ≤ 9999) (n : Int) : (fromNow p n).date now.date = now.date := by
  have hdate : (fromNow p n).date now.date =
      (dayOfYear? now.date.year now.date.ordinal).getD now.date := by
    rcases hp with rfl | rfl | rfl <;> rfl
  rw [hdate, dayOfYear?_ordinal h h', Option.getD_some]

/-! ## What is described -/

/-- Only one of the shifts is not zero, so their sum has 64 bits. -/
theorem timeShiftFits_fromNow (p : Period) (n : Int) : (fromNow p n).TimeShiftFits := by
  cases p with
  | hour =>
    change Text.HasInt64 (Text.saturate (n * 3600) + 0) ∧ Text.HasInt64 (Text.saturate (n * 3600) + 0 + 0)
    simp only [Int.add_zero, Text.hasInt64_saturate, and_self]
  | minute =>
    change Text.HasInt64 (0 + Text.saturate (n * 60)) ∧ Text.HasInt64 (0 + Text.saturate (n * 60) + 0)
    simp only [Int.zero_add, Int.add_zero, Text.hasInt64_saturate, and_self]
  | second =>
    change Text.HasInt64 (0 + 0) ∧ Text.HasInt64 (0 + 0 + Text.saturate (n * 1))
    simp only [Int.zero_add, Text.hasInt64_saturate, and_true]
    decide
  | _ =>
    change Text.HasInt64 (0 + 0) ∧ Text.HasInt64 (0 + 0 + 0)
    decide

/-- Hours, minutes and seconds move the clock by as many seconds as they have, and dates do not move it. -/
theorem timeShift?_fromNow (p : Period) (n : Int) :
    (fromNow p n).timeShift? = some (match p with
      | .hour => Text.saturate (n * 3600)
      | .minute => Text.saturate (n * 60)
      | .second => Text.saturate (n * 1)
      | _ => 0) := by
  refine timeShift?_eq_some_iff.2 ⟨?_, timeShiftFits_fromNow p n⟩
  cases p with
  | hour =>
    change _ = Text.saturate (n * 3600) + 0 + 0
    rw [Int.add_zero, Int.add_zero]
  | minute =>
    change _ = 0 + Text.saturate (n * 60) + 0
    rw [Int.zero_add, Int.add_zero]
  | second =>
    change _ = 0 + 0 + Text.saturate (n * 1)
    rw [Int.zero_add, Int.zero_add]
  | _ => rfl

/-- A specification that says nothing about the time describes a midnight. -/
theorem moment?_eq_of_date {s : DateSpec} (hstart : s.startSecond now = 0) (hshift : s.timeShift? = some 0)
    (hdate : s.date now.date = u.date) (hsecond : u.second = 0) (hnano : u.nano = 0) :
    s.moment? now = some ⟨u, s.precision⟩ := by
  refine moment?_eq_some hshift hnano ?_
  rw [hstart, hdate, Instant.clock, hsecond, Int.add_zero]

/-- Shifts between two instants of the calendar are far from the limits of 64 bits. -/
theorem saturate_eq (now u : Instant) {v : Int} (h : u.clock - now.clock ≤ v)
    (h' : v ≤ u.clock - now.clock + 86400) : Text.saturate v = v := by
  have hfirst : -100000000 ≤ Date.firstDay := by decide
  have hlast : Date.lastDay ≤ 100000000 := by decide
  have := now.le_clock
  have := now.clock_lt
  have := u.le_clock
  have := u.clock_lt
  exact Text.saturate_eq_self (by omega) (by omega)

/-- A specification that says nothing about the date counts parts of the day, of so many seconds each, from
the start of the one that now lies in. -/
theorem moment?_eq_of_time {s : DateSpec} {w : Nat} (hdvd : (w : Int) ∣ 86400)
    (hdate : s.date now.date = now.date) (hstart : s.startSecond now = w * (now.second / w))
    (hshift : s.timeShift? = some (Text.saturate (n * w))) (hsecond : u.second % w = 0)
    (hnano : u.nano = 0) (hn : u.clock / w = now.clock / w + n) :
    s.moment? now = some ⟨u, s.precision⟩ := by
  have hday (d : Int) : (w : Int) ∣ 86400 * d := Int.dvd_trans hdvd (Int.dvd_mul_right 86400 d)
  have hu : w * (u.clock / w) = u.clock :=
    Int.mul_ediv_cancel'
      (Int.dvd_add (hday _) (Int.natCast_dvd_natCast.2 (Nat.dvd_of_mod_eq_zero hsecond)))
  have hnow : w * (now.clock / w) = 86400 * now.date.dayNumber + (w * (now.second / w) : Nat) := by
    rw [Instant.clock, Int.add_ediv_of_dvd_left (hday _), Int.mul_add, Int.mul_ediv_cancel' (hday _)]
    rfl
  have hclock : u.clock = 86400 * now.date.dayNumber + (w * (now.second / w) : Nat) + n * w := by
    rw [← hu, hn, Int.mul_add, hnow, Int.mul_comm n]
  have hfar : now.clock = 86400 * now.date.dayNumber + now.second := rfl
  have hlt := now.second_lt_86400
  have hle := Nat.mul_div_le now.second w
  refine moment?_eq_some hshift hnano ?_
  rw [saturate_eq now u (by omega) (by omega), hstart, hdate, hclock]

/-- A number of periods from now describes the period that many places along. -/
theorem moment?_fromNow (h : 1 ≤ now.date.year) (h' : now.date.year ≤ 9999)
    (hu : p.IsStart u) (hn : p.number u = p.number now + n) :
    (fromNow p n).moment? now = some ⟨u, p⟩ := by
  obtain ⟨hday, hsecond, hnano⟩ := hu
  cases p with
  | year =>
    refine moment?_eq_of_date rfl (timeShift?_fromNow .year n) ?_ hsecond hnano
    obtain ⟨first, hyear, hmonth, hfirst⟩ :=
      exists_first now.date (Nat.le_refl 1) (by decide)
    rw [date_fromNow_year h h' hyear hmonth hfirst]
    refine shiftMonths_eq hfirst hday.2 ?_
    rw [Period.number, Period.number] at hn
    rw [Period.monthNumber_of_january hday.1, Period.monthNumber_of_january hmonth, hyear, hn,
      Int.mul_add]
  | month =>
    refine moment?_eq_of_date rfl (timeShift?_fromNow .month n) ?_ hsecond hnano
    obtain ⟨first, hyear, hmonth, hfirst⟩ :=
      exists_first now.date now.date.one_le_month now.date.month_le
    rw [date_fromNow_month h h' hyear hmonth hfirst]
    refine shiftMonths_eq hfirst hday ?_
    rw [Period.number, Period.number, Date.monthNumber, Date.monthNumber] at hn
    rw [Date.monthNumber, Date.monthNumber, hyear, hmonth, hn]
  | week =>
    refine moment?_eq_of_date rfl (timeShift?_fromNow .week n) ?_ hsecond hnano
    obtain ⟨monday, hmonday⟩ := exists_monday h h'
    rw [date_fromNow_week hmonday]
    refine shiftDays_eq ?_
    have hweekday : u.date.weekday = 0 := hday
    have hstart := u.date.mondayNumber_add_weekday
    rw [Period.number, Period.number] at hn
    rw [Date.mondayNumber_eq, hweekday] at hstart
    rw [hmonday, Date.mondayNumber_eq]
    omega
  | dayOfWeek =>
    refine moment?_eq_of_date rfl (timeShift?_fromNow .dayOfWeek n) ?_ hsecond hnano
    rw [date_fromNow_dayOfWeek]
    exact shiftDays_eq hn
  | day =>
    refine moment?_eq_of_date rfl (timeShift?_fromNow .day n) ?_ hsecond hnano
    rw [date_fromNow_day h h']
    exact shiftDays_eq hn
  | hour =>
    have hstart : (fromNow .hour n).startSecond now = 3600 * now.hour + 60 * 0 + 0 :=
      startSecond_eq rfl now.hour_lt rfl (by decide) rfl (by decide)
    exact moment?_eq_of_time (by decide) (date_fromNow_time (Or.inl rfl) h h' n) hstart
      (timeShift?_fromNow .hour n) hsecond hnano hn
  | minute =>
    have hstart : (fromNow .minute n).startSecond now = 3600 * now.hour + 60 * now.minute + 0 :=
      startSecond_eq rfl now.hour_lt rfl now.minute_lt rfl (by decide)
    have hminutes : 3600 * now.hour + 60 * now.minute + 0 = 60 * (now.second / 60) := by
      rw [Instant.hour, Instant.minute]
      omega
    exact moment?_eq_of_time (by decide) (date_fromNow_time (Or.inr (Or.inl rfl)) h h' n)
      (hstart.trans hminutes) (timeShift?_fromNow .minute n) hsecond hnano hn
  | second =>
    have hstart : (fromNow .second n).startSecond now =
        3600 * now.hour + 60 * now.minute + now.secondOfMinute :=
      startSecond_eq rfl now.hour_lt rfl now.minute_lt rfl now.secondOfMinute_lt
    have hseconds : 3600 * now.hour + 60 * now.minute + now.secondOfMinute = 1 * (now.second / 1) := by
      rw [Instant.hour, Instant.minute, Instant.secondOfMinute]
      omega
    rw [Period.number, Period.number] at hn
    exact moment?_eq_of_time (by decide) (date_fromNow_time (Or.inr (Or.inr rfl)) h h' n)
      (hstart.trans hseconds) (timeShift?_fromNow .second n) (Nat.mod_one _) hnano (by simpa using hn)

/-! ## Tiling -/

/-- What is described by numbers of periods from now tiles the calendar. There is a moment for each of them,
and it has the precision of the period; it ends where the next one starts, as long as the calendar reaches
that far, and stands for the instants of one period; the one at now is around now. -/
theorem fromNow_tile (p : Period) (now : Instant) (h : 1 ≤ now.date.year)
    (h' : now.date.year ≤ 9999) :
    ∃ m : Int → Moment, (∀ n, (fromNow p n).moment? now = some (m n)) ∧
      (∀ n, (m n).precision = p) ∧
      (∀ n, p.Reaches now n → p.Reaches now (n + 1) →
        (m n).finish = (m (n + 1)).start ∧
        ∀ t, (m n).start ≤ t ∧ t < (m n).finish ↔ p.number t = p.number now + n) ∧
      (m 0).start ≤ now ∧ now < (m 0).finish := by
  have hsome (n : Int) : ∃ m, (fromNow p n).moment? now = some m :=
    Option.isSome_iff_exists.1 (moment?_isSome_iff.2 (timeShiftFits_fromNow p n))
  obtain ⟨m, hm⟩ := Classical.skolem.1 hsome
  have hprecision (n : Int) : (m n).precision = p := by
    obtain ⟨v, -, hv⟩ := Option.map_eq_some_iff.1 (hm n)
    rw [← hv, precision_fromNow]
  have heq {n : Int} {u : Instant} (hu : p.IsStart u) (hn : p.number u = p.number now + n) :
      m n = ⟨u, p⟩ :=
    Option.some.inj ((hm n).symm.trans (moment?_fromNow h h' hu hn))
  have htile (n : Int) (hn : p.Reaches now n) (hn' : p.Reaches now (n + 1)) :
      (m n).finish = (m (n + 1)).start ∧
      ∀ t, (m n).start ≤ t ∧ t < (m n).finish ↔ p.number t = p.number now + n := by
    obtain ⟨u, hu, hnumber⟩ := hn
    obtain ⟨v, hv, hnumber'⟩ := hn'
    have hnext : p.number v = p.number u + 1 := by omega
    have hfinish : (m n).finish = v := by
      rw [heq hu hnumber]
      exact hu.advance_eq hv hnext
    rw [hfinish, heq hu hnumber, heq hv hnumber', Moment.start, Moment.start]
    refine ⟨rfl, fun t => ?_⟩
    rw [hu.mem_iff hv hnext, hnumber]
  refine ⟨m, hm, hprecision, htile, ?_⟩
  have hthis := Period.reaches_of_near p h h' (Or.inl rfl)
  have hnext := Period.reaches_of_near p h h' (Or.inr rfl)
  have hnow := htile 0 hthis hnext
  exact (hnow.2 now).2 (Int.add_zero _).symm

/-- Within the leap second of 2015, which clocks in the east show on the morning of July 1, a
Wednesday. -/
def leapSecond2015 : Instant :=
  ⟨⟨2015, 7, 1, by decide, by decide, by decide, by decide, by decide, by decide⟩,
    32399, 1250000000, by decide, by decide, by decide⟩

/-- The week around the leap second starts in the month before, and ends where the next week starts. -/
theorem fromNow_tile_leapSecond :
    (1 ≤ leapSecond2015.date.year ∧ leapSecond2015.date.year ≤ 9999) ∧
    (Period.week.Reaches leapSecond2015 0 ∧ Period.week.Reaches leapSecond2015 1) ∧
    ∃ week next, (fromNow .week 0).moment? leapSecond2015 = some week ∧
      (fromNow .week 1).moment? leapSecond2015 = some next ∧ week.precision = .week ∧
      week.finish = next.start ∧ week.start ≤ leapSecond2015 ∧ leapSecond2015 < week.finish := by
  have hyear : 1 ≤ leapSecond2015.date.year ∧ leapSecond2015.date.year ≤ 9999 := by decide
  let monday : Date :=
    ⟨2015, 6, 29, by decide, by decide, by decide, by decide, by decide, by decide⟩
  let nextMonday : Date :=
    ⟨2015, 7, 6, by decide, by decide, by decide, by decide, by decide, by decide⟩
  have hmonday : monday.weekday = 0 := by decide
  have hnextMonday : nextMonday.weekday = 0 := by decide
  have hthis : Period.week.Reaches leapSecond2015 0 :=
    ⟨Instant.midnight monday, ⟨hmonday, rfl, rfl⟩, by decide⟩
  have hnext : Period.week.Reaches leapSecond2015 1 :=
    ⟨Instant.midnight nextMonday, ⟨hnextMonday, rfl, rfl⟩, by decide⟩
  obtain ⟨m, hm, hprecision, htile, hnow⟩ := fromNow_tile .week leapSecond2015 hyear.1 hyear.2
  exact ⟨hyear, ⟨hthis, hnext⟩, m 0, m 1, hm 0, hm 1, hprecision 0, (htile 0 hthis hnext).1, hnow⟩

end DesktopSearch.DateSpec
