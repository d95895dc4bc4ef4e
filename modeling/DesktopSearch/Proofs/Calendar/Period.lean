import DesktopSearch.Calendar.Moment
import DesktopSearch.Proofs.Calendar.Instant
import DesktopSearch.Proofs.Calendar.Week

/-!
# Periods along the calendar

The periods of one length follow each other without gap or overlap. `Period.number` counts them, and an
instant that `IsStart` of its period is the first one in it : it is not after the instants of that period
and of later ones, and after all others (`Period.IsStart.le_iff`). So the instants from the start of a
period up to the start of the next one are those of the period (`Period.IsStart.mem_iff`), and the next
start is what `advance` leads to (`Period.IsStart.advance_eq`).
-/

namespace DesktopSearch.Period

/-- The number of the period that an instant lies in, counted along the calendar. -/
def number (p : Period) (t : Instant) : Int :=
  match p with
  | year => t.date.year
  | month => t.date.monthNumber
  | week => t.date.dayNumber / 7
  | dayOfWeek | day => t.date.dayNumber
  | hour => t.clock / 3600
  | minute => t.clock / 60
  | second => t.clock

/-- Whether a date is the first day of its year, month or week. -/
def IsFirstDay (p : Period) (d : Date) : Prop :=
  match p with
  | year => d.month = 1 ∧ d.day = 1
  | month => d.day = 1
  | week => d.weekday = 0
  | _ => True

/-- Whether a second of the day is the first one of its period. -/
def IsFirstSecond (p : Period) (n : Nat) : Prop :=
  match p with
  | hour => n % 3600 = 0
  | minute => n % 60 = 0
  | second => True
  | _ => n = 0

/-- Whether an instant is the first one of its period. -/
structure IsStart (p : Period) (t : Instant) : Prop where
  day : p.IsFirstDay t.date
  second : p.IsFirstSecond t.second
  nano : t.nano = 0

variable {p : Period} {t u x : Instant}

/-! ## The order of starts -/

theorem monthNumber_of_january {d : Date} (h : d.month = 1) : d.monthNumber = 12 * d.year := by
  rw [Date.monthNumber, h]
  simp

/-- The first instant of a day is not after the instants of that day and of later ones. -/
theorem le_iff_of_midnight (hsecond : t.second = 0) (hnano : t.nano = 0) :
    t ≤ u ↔ t.date.dayNumber ≤ u.date.dayNumber := by
  have := u.second_lt_86400
  rw [Instant.le_iff_of_nano_eq_zero hnano, Instant.clock, Instant.clock, hsecond]
  omega

theorem IsStart.le_iff (h : p.IsStart t) : t ≤ u ↔ p.number t ≤ p.number u := by
  obtain ⟨hday, hsecond, hnano⟩ := h
  cases p with
  | year =>
    obtain ⟨hjanuary, hfirst⟩ := hday
    have hstart := Date.dayNumber_of_day_eq_one hfirst
    rw [monthNumber_of_january hjanuary, daysBeforeMonthNumber_twelve] at hstart
    have hu := Date.year_eq_iff (d := u.date).1 rfl
    rw [le_iff_of_midnight hsecond hnano, hstart]
    exact le_iff_of_mem_step daysBeforeYear_strictMono hu.1 hu.2
  | month =>
    have hu := Date.monthNumber_eq_iff (d := u.date).1 rfl
    rw [le_iff_of_midnight hsecond hnano, Date.dayNumber_of_day_eq_one hday]
    exact le_iff_of_mem_step daysBeforeMonthNumber_strictMono hu.1 hu.2
  | week =>
    have hmonday : t.date.weekday = 0 := hday
    have ht := t.date.mondayNumber_add_weekday
    rw [Date.mondayNumber_eq, hmonday] at ht
    rw [le_iff_of_midnight hsecond hnano, number, number]
    omega
  | dayOfWeek => exact le_iff_of_midnight hsecond hnano
  | day => exact le_iff_of_midnight hsecond hnano
  | hour =>
    have ht : t.second % 3600 = 0 := hsecond
    rw [Instant.le_iff_of_nano_eq_zero hnano, number, number]
    have := t.clock_emod
    omega
  | minute =>
    have ht : t.second % 60 = 0 := hsecond
    rw [Instant.le_iff_of_nano_eq_zero hnano, number, number]
    have := t.clock_emod
    omega
  | second => exact Instant.le_iff_of_nano_eq_zero hnano

/-- The instants of a period are those from its start up to the start of the next one. -/
theorem IsStart.mem_iff (ht : p.IsStart t) (hu : p.IsStart u) (h : p.number u = p.number t + 1) :
    t ≤ x ∧ x < u ↔ p.number x = p.number t := by
  rw [← Instant.not_le_iff, ht.le_iff, hu.le_iff, h]
  omega

/-! ## The next start -/

/-- Moving a midnight by days comes to the midnight of the day so many days later. -/
theorem addSeconds?_of_midnight {n : Int} (ht : t.second = 0) (ht' : t.nano = 0)
    (hu : u.second = 0) (hu' : u.nano = 0) (h : u.date.dayNumber = t.date.dayNumber + n) :
    t.addSeconds? (86400 * n) = some u := by
  refine Instant.addSeconds?_eq_some ht' hu' ?_
  rw [Instant.clock, Instant.clock, ht, hu, h]
  omega

/-- Moving a midnight by months moves its date. -/
theorem addMonths?_of_midnight {n : Int} (ht : t.second = 0) (ht' : t.nano = 0)
    (hu : u.second = 0) (hu' : u.nano = 0) (h : t.date.addMonths? n = some u.date) :
    t.addMonths? n = some u := by
  rw [Instant.addMonths?, h, Option.map_some, ← u.ofParts?_self, hu, hu']
  simp only [ht, ht']
  rfl

theorem advance_week_of_midnight (ht : t.second = 0) (ht' : t.nano = 0) (hu : u.second = 0)
    (hu' : u.nano = 0) (h : u.date.dayNumber = t.date.dayNumber + 7) : week.advance t = u :=
  congrArg (·.getD t) (addSeconds?_of_midnight ht ht' hu hu' h)

/-- From the start of a period its length leads to the start of the next one. -/
theorem IsStart.advance_eq (ht : p.IsStart t) (hu : p.IsStart u)
    (h : p.number u = p.number t + 1) : p.advance t = u := by
  obtain ⟨hday, hsecond, hnano⟩ := ht
  obtain ⟨hday', hsecond', hnano'⟩ := hu
  cases p with
  | year =>
    have hmonths : u.date.monthNumber = t.date.monthNumber + 12 := by
      rw [number, number] at h
      rw [monthNumber_of_january hday.1, monthNumber_of_january hday'.1, h]
      omega
    have hdate := Date.addMonths?_eq_some hday.2 hday'.2 hmonths
    rw [advance]
    simp only [addMonths?_of_midnight hsecond hnano hsecond' hnano' hdate, Option.getD_some]
  | month =>
    have hdate := Date.addMonths?_eq_some hday hday' h
    rw [advance]
    simp only [addMonths?_of_midnight hsecond hnano hsecond' hnano' hdate, Option.getD_some]
  | week =>
    have hmonday : t.date.weekday = 0 := hday
    have hmonday' : u.date.weekday = 0 := hday'
    have hdays : u.date.dayNumber = t.date.dayNumber + 7 := by
      have ht := t.date.mondayNumber_add_weekday
      have hu := u.date.mondayNumber_add_weekday
      rw [Date.mondayNumber_eq, hmonday] at ht
      rw [Date.mondayNumber_eq, hmonday'] at hu
      rw [number, number] at h
      omega
    exact advance_week_of_midnight hsecond hnano hsecond' hnano' hdays
  | dayOfWeek | day =>
    have hadd := addSeconds?_of_midnight hsecond hnano hsecond' hnano' h
    exact congrArg (·.getD t) hadd
  | hour =>
    have ht : t.second % 3600 = 0 := hsecond
    have hu : u.second % 3600 = 0 := hsecond'
    have hadd : t.addSeconds? 3600 = some u := by
      refine Instant.addSeconds?_eq_some hnano hnano' ?_
      rw [number, number] at h
      have := t.clock_emod
      have := u.clock_emod
      omega
    exact congrArg (·.getD t) hadd
  | minute =>
    have ht : t.second % 60 = 0 := hsecond
    have hu : u.second % 60 = 0 := hsecond'
    have hadd : t.addSeconds? 60 = some u := by
      refine Instant.addSeconds?_eq_some hnano hnano' ?_
      rw [number, number] at h
      have := t.clock_emod
      have := u.clock_emod
      omega
    exact congrArg (·.getD t) hadd
  | second =>
    have hadd : t.addSeconds? 1 = some u := Instant.addSeconds?_eq_some hnano hnano' h
    exact congrArg (·.getD t) hadd

/-! ## Weeks -/

theorem number_week_eq_iff : week.number t = week.number u ↔
    t.date.isoYear = u.date.isoYear ∧ t.date.isoWeek = u.date.isoWeek := by
  rw [← Date.mondayNumber_eq_iff, Date.mondayNumber_eq, Date.mondayNumber_eq, number, number]
  omega

/-- Where the calendar ends within a week, the week does not pass. -/
theorem advance_week_of_end (ht : t.second = 0) (h : ∀ d : Date, d.dayNumber ≠ t.date.dayNumber + 7) :
    week.advance t = t := by
  have hdays : t.date.addDays? 7 = none :=
    Option.eq_none_iff_forall_ne_some.2 fun d hd => h d (Date.addDays?_eq_some_iff.1 hd)
  have hseconds : t.addSeconds? (7 * secondsPerDay) = none := by
    simp [Instant.addSeconds?, secondsPerDay, ht, hdays]
  exact congrArg (·.getD t) hseconds

/-! ## Reach -/

/-- The period that lies `n` places after the one of an instant has its start in the calendar. -/
def Reaches (p : Period) (t : Instant) (n : Int) : Prop :=
  ∃ u, p.IsStart u ∧ p.number u = p.number t + n

/-- In the years 1 to 9999 the calendar has the period of every instant and the one after it. -/
theorem reaches_of_near (p : Period) {n : Int} (h : 1 ≤ t.date.year) (h' : t.date.year ≤ 9999)
    (hn : n = 0 ∨ n = 1) : p.Reaches t n := by
  have hnumber := Date.dayNumber_mem h h'
  have hfirst : Date.firstDay ≤ -7 := by decide
  have hlast : 3652066 ≤ Date.lastDay := by decide
  have hclock : t.clock = 86400 * t.date.dayNumber + t.second := rfl
  have hsecond := t.second_lt_86400
  cases p with
  | year =>
    let d : Date := ⟨t.date.year + n, 1, 1, by rw [firstYear]; omega, by rw [lastYear]; omega,
      Nat.le_refl 1, by decide, Nat.le_refl 1, one_le_daysInMonth _ 1⟩
    exact ⟨Instant.midnight d, ⟨⟨rfl, rfl⟩, rfl, rfl⟩, rfl⟩
  | month =>
    have hmonth := t.date.monthNumber_ediv
    have hlow : 12 * firstYear ≤ t.date.monthNumber + n := by rw [firstYear]; omega
    have hhigh : t.date.monthNumber + n < 12 * (lastYear + 1) := by rw [lastYear]; omega
    obtain ⟨d, hday, hd⟩ := Date.exists_monthNumber_eq hlow hhigh
    exact ⟨Instant.midnight d, ⟨hday, rfl, rfl⟩, hd⟩
  | week =>
    have hlow : Date.firstDay ≤ 7 * (t.date.dayNumber / 7 + n) := by omega
    obtain ⟨d, hd⟩ := Date.exists_dayNumber_eq hlow (by omega)
    have hmonday : d.weekday = 0 := by rw [Date.weekday, hd]; omega
    refine ⟨Instant.midnight d, ⟨hmonday, rfl, rfl⟩, ?_⟩
    have hday : (Instant.midnight d).date.dayNumber = 7 * (t.date.dayNumber / 7 + n) := hd
    rw [number, number, hday]
    omega
  | dayOfWeek | day =>
    have hlow : Date.firstDay ≤ t.date.dayNumber + n := by omega
    obtain ⟨d, hd⟩ := Date.exists_dayNumber_eq hlow (by omega)
    exact ⟨Instant.midnight d, ⟨trivial, rfl, rfl⟩, hd⟩
  | hour =>
    have hlow : 86400 * Date.firstDay ≤ 3600 * (t.clock / 3600 + n) := by omega
    obtain ⟨u, hnano, hu⟩ := Instant.exists_clock_eq hlow (by omega)
    have hmod := u.clock_emod
    have hstart : u.second % 3600 = 0 := by omega
    refine ⟨u, ⟨trivial, hstart, hnano⟩, ?_⟩
    rw [number, number, hu]
    omega
  | minute =>
    have hlow : 86400 * Date.firstDay ≤ 60 * (t.clock / 60 + n) := by omega
    obtain ⟨u, hnano, hu⟩ := Instant.exists_clock_eq hlow (by omega)
    have hmod := u.clock_emod
    have hstart : u.second % 60 = 0 := by omega
    refine ⟨u, ⟨trivial, hstart, hnano⟩, ?_⟩
    rw [number, number, hu]
    omega
  | second =>
    have hlow : 86400 * Date.firstDay ≤ t.clock + n := by omega
    obtain ⟨u, hnano, hu⟩ := Instant.exists_clock_eq hlow (by omega)
    exact ⟨u, ⟨trivial, trivial, hnano⟩, hu⟩

end DesktopSearch.Period
