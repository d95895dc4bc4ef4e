import DesktopSearch.Dates.Spec
import DesktopSearch.Proofs.Calendar.Instant
import DesktopSearch.Proofs.Calendar.Week
import DesktopSearch.Proofs.Text.Checked

/-!
# Where specifications start

Values that exist are taken as they are : neither a year of four digits nor a day or a month that there
is are cut to the end of their period (`DateSpec.dayOfMonth?_self`, `DateSpec.dayOfYear?_ordinal`). Where
dates can be moved they are moved by the count of days or months, and the moment of a specification is
found by its clock (`DateSpec.moment?_eq_some`). There is one if hours, minutes and seconds do not add up to
too much (`DateSpec.TimeShiftFits`), as is the case if they are not spoken of.
-/

namespace DesktopSearch

namespace DateSpec

/-- Specifications are the same if they say the same about each period. -/
theorem eq_of_field_eq {s s' : DateSpec} (h : ∀ p, s.field p = s'.field p) : s = s' := by
  obtain ⟨f⟩ := s
  exact congrArg DateSpec.mk (funext h)

/-! ## Values that exist -/

theorem clamp_eq_self {low high n : Int} (h : low ≤ n) (h' : n ≤ high) : clamp low high n = n := by
  rw [clamp]
  omega

theorem clampYear_eq_self {year : Int} (h : 1 ≤ year) (h' : year ≤ 9999) :
    clampYear year = year :=
  clamp_eq_self h h'

theorem place_eq_self {count n : Nat} (h : 1 ≤ n) (h' : n ≤ count) : place count n = n := by
  rw [place, if_neg (by omega), clamp_eq_self (by omega) (by omega), Int.toNat_natCast]

variable {d e : Date} {n : Int}

theorem dayOfMonth?_self (h : 1 ≤ d.year) (h' : d.year ≤ 9999) :
    dayOfMonth? d.year d.month d.day = some d := by
  simp only [dayOfMonth?, clampYear_eq_self h h', place_eq_self d.one_le_month d.month_le,
    place_eq_self d.one_le_day d.day_le]
  exact d.ofYmd?_self

theorem dayOfYear?_ordinal (h : 1 ≤ d.year) (h' : d.year ≤ 9999) :
    dayOfYear? d.year d.ordinal = some d := by
  simp only [dayOfYear?, clampYear_eq_self h h', place_eq_self d.one_le_ordinal d.ordinal_le]
  exact d.ofOrdinal?_ordinal

/-- A date lies in the week that is counted as its own, on the days of that week. -/
theorem ofWeek?_clamp (d : Date) (day : Nat) :
    Date.ofWeek? d.isoYear (clamp 1 (Date.weeksInYear d.isoYear) d.isoWeek).toNat day =
      Date.ofDayNumber? (d.mondayNumber + day) := by
  have hweek := d.isoWeek_le_weeksInYear
  have hpos : 1 ≤ d.isoWeek := Nat.le_add_left 1 _
  rw [clamp_eq_self (by omega) (by omega), Int.toNat_natCast, Date.ofWeek?_isoWeek]

/-- A time of day that exists is the second that its parts count. -/
theorem startSecond_eq {s : DateSpec} {now : Instant} {hour minute second : Nat}
    (hhour : s.timeValue .hour now.hour = hour) (hour_lt : hour < 24)
    (hminute : s.timeValue .minute now.minute = minute) (minute_lt : minute < 60)
    (hsecond : s.timeValue .second now.secondOfMinute = second) (second_lt : second < 60) :
    s.startSecond now = 3600 * hour + 60 * minute + second := by
  simp only [startSecond, hhour, hminute, hsecond]
  rw [clamp_eq_self (by omega) (by omega), clamp_eq_self (by omega) (by omega),
    clamp_eq_self (by omega) (by omega)]
  simp

/-! ## Moving -/

theorem shiftDays_eq (h : e.dayNumber = d.dayNumber + n) : shiftDays d n = e := by
  rw [shiftDays, Date.addDays?_eq_some_iff.2 h, Option.getD_some]

theorem shiftMonths_eq (hd : d.day = 1) (he : e.day = 1)
    (h : e.monthNumber = d.monthNumber + n) : shiftMonths d n = e := by
  rw [shiftMonths, Date.addMonths?_eq_some hd he h, Option.getD_some]

theorem startSecond_lt (s : DateSpec) (now : Instant) : s.startSecond now < 86400 := by
  rw [startSecond]
  simp only [clamp]
  omega

/-- The running sum of what the hours, the minutes and the seconds move by has 64 bits all the way. -/
def TimeShiftFits (s : DateSpec) : Prop :=
  Text.HasInt64 (s.shift .hour 3600 + s.shift .minute 60) ∧
    Text.HasInt64 (s.shift .hour 3600 + s.shift .minute 60 + s.shift .second 1)

instance (s : DateSpec) : Decidable s.TimeShiftFits := inferInstanceAs (Decidable (_ ∧ _))

theorem timeShift?_eq_some_iff {s : DateSpec} {v : Int} : s.timeShift? = some v ↔
    v = s.shift .hour 3600 + s.shift .minute 60 + s.shift .second 1 ∧ s.TimeShiftFits := by
  rw [timeShift?, Option.bind_eq_bind, Option.bind_eq_some_iff, TimeShiftFits]
  simp only [Text.checked?_eq_some_iff]
  constructor
  · rintro ⟨_, ⟨hminutes, rfl⟩, hseconds, rfl⟩
    exact ⟨rfl, hminutes, hseconds⟩
  · rintro ⟨rfl, hminutes, hseconds⟩
    exact ⟨_, ⟨hminutes, rfl⟩, hseconds, rfl⟩

theorem timeShift?_eq_zero {s : DateSpec} (hhours : s.shift .hour 3600 = 0)
    (hminutes : s.shift .minute 60 = 0) (hseconds : s.shift .second 1 = 0) : s.timeShift? = some 0 := by
  rw [timeShift?_eq_some_iff, TimeShiftFits, hhours, hminutes, hseconds]
  decide

/-- A specification describes a moment exactly if the sum of its shifts has 64 bits. -/
theorem moment?_isSome_iff {s : DateSpec} {now : Instant} :
    (s.moment? now).isSome = true ↔ s.TimeShiftFits := by
  rw [moment?, Option.isSome_map, Option.isSome_iff_exists]
  simp only [timeShift?_eq_some_iff, exists_eq_left]

/-- The moment of a specification is the whole second that its date, its time and its shift lead to. -/
theorem moment?_eq_some {s : DateSpec} {now u : Instant} {v : Int} (hshift : s.timeShift? = some v)
    (hu : u.nano = 0)
    (h : u.clock = 86400 * (s.date now.date).dayNumber + s.startSecond now + v) :
    s.moment? now = some ⟨u, s.precision⟩ := by
  have hsecond := Nat.mod_eq_of_lt (s.startSecond_lt now)
  have hadd : (Instant.atSecond (s.date now.date) (s.startSecond now)).addSeconds? v = some u := by
    refine Instant.addSeconds?_eq_some rfl hu ?_
    rw [h, Instant.clock]
    simp only [Instant.atSecond, secondsPerDay, hsecond]
  simp only [moment?, hshift, Option.map_some, hadd, Option.getD_some]

end DateSpec

end DesktopSearch
