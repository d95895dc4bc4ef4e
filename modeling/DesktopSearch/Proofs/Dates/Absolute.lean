import DesktopSearch.Fusion.Range
import DesktopSearch.Proofs.Calendar.Period
import DesktopSearch.Proofs.Dates.Spec
import Mathlib.Data.List.Infix

/-!
# Periods that the calendar names

A date in figures gives the first few of year, month, day, hour, minute and second, and names the period
of all instants that show the given values. `DateSpec.moment_of_names` : whatever the time is now, the
moment of such a specification is that period, and the term that fusion bounds a property with accepts
the instants of the period and the start of the next one.
-/

namespace DesktopSearch

/-! ## What instants show -/

namespace Period

/-- The fields that a date and a time of day consist of, the coarsest first. -/
def shown : List Period := [year, month, day, hour, minute, second]

/-- What the calendar and the clock show for a period. -/
def valueAt (p : Period) (t : Instant) : Int :=
  match p with
  | year => t.date.year
  | month => t.date.month
  | week => t.date.isoWeek
  | dayOfWeek => t.date.weekday + 1
  | day => t.date.day
  | hour => t.hour
  | minute => t.minute
  | second => t.secondOfMinute

/-- The lowest value that is shown for a period. -/
def lowest (p : Period) : Int :=
  match p with
  | hour | minute | second => 0
  | _ => 1

variable {t u : Instant}

theorem number_month_eq_iff : month.number t = month.number u ↔
    year.number t = year.number u ∧ month.valueAt t = month.valueAt u := by
  simp only [number, valueAt, Date.monthNumber]
  have := t.date.one_le_month
  have := t.date.month_le
  have := u.date.one_le_month
  have := u.date.month_le
  omega

theorem number_day_eq_iff : day.number t = day.number u ↔
    month.number t = month.number u ∧ day.valueAt t = day.valueAt u := by
  simp only [number, valueAt]
  constructor
  · intro h
    rw [Date.dayNumber_injective h]
    exact ⟨rfl, rfl⟩
  · rintro ⟨hmonth, hday⟩
    rw [Date.dayNumber_eq, Date.dayNumber_eq, hmonth, hday]

theorem number_hour_eq_iff : hour.number t = hour.number u ↔
    day.number t = day.number u ∧ hour.valueAt t = hour.valueAt u := by
  simp only [number, valueAt, Instant.clock, Instant.hour]
  have := t.second_lt_86400
  have := u.second_lt_86400
  omega

theorem number_minute_eq_iff : minute.number t = minute.number u ↔
    hour.number t = hour.number u ∧ minute.valueAt t = minute.valueAt u := by
  simp only [number, valueAt, Instant.clock, Instant.minute]
  omega

theorem number_second_eq_iff : second.number t = second.number u ↔
    minute.number t = minute.number u ∧ second.valueAt t = second.valueAt u := by
  simp only [number, valueAt, Instant.clock, Instant.secondOfMinute]
  omega

/-- The first few fields are as many as there are up to some finest one. -/
theorem eq_of_prefix_shown {fields : List Period} (hne : fields ≠ []) (h : fields <+: shown) :
    fields = [year] ∨ fields = [year, month] ∨ fields = [year, month, day] ∨
      fields = [year, month, day, hour] ∨ fields = [year, month, day, hour, minute] ∨
      fields = [year, month, day, hour, minute, second] := by
  have hinits := (List.mem_inits fields shown).2 h
  simpa [shown, hne] using hinits

/-- Instants lie in one period if they show the same down to it. -/
theorem number_getLast_eq_iff {fields : List Period} (hne : fields ≠ []) (h : fields <+: shown) :
    (fields.getLast hne).number t = (fields.getLast hne).number u ↔
      ∀ q ∈ fields, q.valueAt t = q.valueAt u := by
  have hyear : year.number t = year.number u ↔ year.valueAt t = year.valueAt u := Iff.rfl
  rcases eq_of_prefix_shown hne h with rfl | rfl | rfl | rfl | rfl | rfl <;>
    simp [number_second_eq_iff, number_minute_eq_iff, number_hour_eq_iff, number_day_eq_iff,
      number_month_eq_iff, hyear, and_assoc]

/-- An instant starts the finest of some periods if it shows the lowest values below it. -/
theorem isStart_getLast {fields : List Period} (hne : fields ≠ []) (h : fields <+: shown)
    (hlowest : ∀ q ∈ shown, q ∉ fields → q.valueAt u = q.lowest) (hnano : u.nano = 0) :
    (fields.getLast hne).IsStart u := by
  have hlt := u.second_lt_86400
  rcases eq_of_prefix_shown hne h with rfl | rfl | rfl | rfl | rfl | rfl
  all_goals
    simp [shown, valueAt, lowest, Instant.hour, Instant.minute, Instant.secondOfMinute] at hlowest
  · exact ⟨⟨by omega, by omega⟩, (by omega : u.second = 0), hnano⟩
  · exact ⟨(by omega : u.date.day = 1), (by omega : u.second = 0), hnano⟩
  · exact ⟨trivial, (by omega : u.second = 0), hnano⟩
  · exact ⟨trivial, (by omega : u.second % 3600 = 0), hnano⟩
  · exact ⟨trivial, (by omega : u.second % 60 = 0), hnano⟩
  · exact ⟨trivial, trivial, hnano⟩

end Period

namespace DateSpec

/-! ## Named periods -/

variable {s : DateSpec} {fields : List Period} {now u : Instant}

/-- The given value of a field, or else the lowest one. -/
def given (s : DateSpec) (p : Period) : Int :=
  match s.field p with
  | .absolute v => v
  | _ => p.lowest

/-- Whether a field can have a value: there are years of four digits, twelve months, the days of the
month that is given, and the hours, minutes and seconds of the clock. -/
def Admits (s : DateSpec) (p : Period) (v : Int) : Prop :=
  match p with
  | .year => 1 ≤ v ∧ v ≤ 9999
  | .month => 1 ≤ v ∧ v ≤ 12
  | .day => 1 ≤ v ∧ v ≤ daysInMonth (s.given .year) (s.given .month).toNat
  | .hour => 0 ≤ v ∧ v ≤ 23
  | .minute | .second => 0 ≤ v ∧ v ≤ 59
  | .week | .dayOfWeek => False

/-- The specification gives existing values for the first few fields of a date and time, and nothing
else. -/
structure Names (s : DateSpec) (fields : List Period) : Prop where
  ne : fields ≠ []
  isPrefix : fields <+: Period.shown
  absolute : ∀ p ∈ fields, ∃ v, s.field p = .absolute v ∧ s.Admits p v
  unset : ∀ p ∉ fields, s.field p = .unset

/-- Whether an instant shows the given values. -/
def Shows (s : DateSpec) (t : Instant) : Prop := ∀ p v, s.field p = .absolute v → p.valueAt t = v

/-- The specification that gives what an instant shows in some fields. -/
def showing (u : Instant) (fields : List Period) : DateSpec :=
  ⟨fun p => if p ∈ fields then .absolute (p.valueAt u) else .unset⟩

theorem given_of_absolute {p : Period} {v : Int} (h : s.field p = .absolute v) : s.given p = v := by
  rw [given, h]

theorem given_of_unset {p : Period} (h : s.field p = .unset) : s.given p = p.lowest := by
  rw [given, h]

theorem admits_lowest (s : DateSpec) {p : Period} (hp : p ∈ Period.shown) :
    s.Admits p p.lowest := by
  cases p with
  | day =>
    exact ⟨Int.le_refl 1, Int.ofNat_le.2 (one_le_daysInMonth _ _)⟩
  | week | dayOfWeek => simp [Period.shown] at hp
  | _ => exact ⟨by decide, by decide⟩

theorem Names.admits_given (h : s.Names fields) {p : Period} (hp : p ∈ Period.shown) :
    s.Admits p (s.given p) := by
  by_cases hmem : p ∈ fields
  · obtain ⟨v, hv, hadmits⟩ := h.absolute p hmem
    rw [given_of_absolute hv]
    exact hadmits
  · rw [given_of_unset (h.unset p hmem)]
    exact s.admits_lowest hp

/-- The given values and the lowest ones below them are shown by an instant. -/
theorem Names.exists_shown (h : s.Names fields) : ∃ u, u.nano = 0 ∧
    (∀ p ∈ Period.shown, p.valueAt u = s.given p) ∧ 1 ≤ u.date.year ∧ u.date.year ≤ 9999 := by
  obtain ⟨hyear, hyear'⟩ := h.admits_given (p := .year) (by simp [Period.shown])
  obtain ⟨hmonth, hmonth'⟩ := h.admits_given (p := .month) (by simp [Period.shown])
  obtain ⟨hday, hday'⟩ := h.admits_given (p := .day) (by simp [Period.shown])
  obtain ⟨hhour, hhour'⟩ := h.admits_given (p := .hour) (by simp [Period.shown])
  obtain ⟨hminute, hminute'⟩ := h.admits_given (p := .minute) (by simp [Period.shown])
  obtain ⟨hsecond, hsecond'⟩ := h.admits_given (p := .second) (by simp [Period.shown])
  let d : Date := ⟨s.given .year, (s.given .month).toNat, (s.given .day).toNat,
    by rw [firstYear]; omega, by rw [lastYear]; omega, by omega, by omega, by omega, by omega⟩
  let u : Instant := ⟨d, (3600 * s.given .hour + 60 * s.given .minute + s.given .second).toNat,
    0, by rw [secondsPerDay]; omega, by decide, fun h => absurd h (by decide)⟩
  refine ⟨u, rfl, fun p hp => ?_, hyear, hyear'⟩
  cases p with
  | week | dayOfWeek => simp [Period.shown] at hp
  | year => rfl
  | month => exact Int.toNat_of_nonneg (by omega)
  | day => exact Int.toNat_of_nonneg (by omega)
  | hour | minute | second =>
    simp only [Period.valueAt, Instant.hour, Instant.minute, Instant.secondOfMinute, u]
    omega

/-- A named period has a start, and its specification gives what the start shows. -/
theorem Names.exists_start (h : s.Names fields) : ∃ u, (fields.getLast h.ne).IsStart u ∧
    s = showing u fields ∧ 1 ≤ u.date.year ∧ u.date.year ≤ 9999 := by
  obtain ⟨u, hnano, hshown, hyear⟩ := h.exists_shown
  refine ⟨u, Period.isStart_getLast h.ne h.isPrefix (fun p hp hmem => ?_) hnano,
    eq_of_field_eq fun p => ?_, hyear⟩
  · rw [hshown p hp, given_of_unset (h.unset p hmem)]
  · simp only [showing]
    split
    · rename_i hmem
      obtain ⟨v, hv, -⟩ := h.absolute p hmem
      rw [hshown p (h.isPrefix.subset hmem), given_of_absolute hv, hv]
    · rename_i hmem
      exact h.unset p hmem

/-! ## The moment of a named period -/

theorem precision_showing (hne : fields ≠ []) (h : fields <+: Period.shown) (u : Instant) :
    (showing u fields).precision = fields.getLast hne := by
  rcases Period.eq_of_prefix_shown hne h with rfl | rfl | rfl | rfl | rfl | rfl <;> rfl

/-- The date is that of the start. -/
theorem date_showing (hne : fields ≠ []) (h : fields <+: Period.shown)
    (hstart : (fields.getLast hne).IsStart u) (hyear : 1 ≤ u.date.year)
    (hyear' : u.date.year ≤ 9999) (today : Date) : (showing u fields).date today = u.date := by
  have hmonths := dayOfMonth?_self hyear hyear'
  -- A year alone is looked up by its day of the year, and all else by the day of the month.
  rcases Period.eq_of_prefix_shown hne h with rfl | rfl | hfine
  · obtain ⟨hmonth, hday⟩ := hstart.day
    have hordinal : u.date.ordinal = 1 := by rw [Date.ordinal, hmonth, hday]; rfl
    have hdate : (showing u [.year]).date today =
        (dayOfYear? u.date.year (1 : Nat)).getD today := rfl
    rw [hdate, ← hordinal, dayOfYear?_ordinal hyear hyear', Option.getD_some]
  · have hday : u.date.day = 1 := hstart.day
    have hdate : (showing u [.year, .month]).date today =
        (dayOfMonth? u.date.year u.date.month (1 : Nat)).getD today := rfl
    rw [hdate, ← hday, hmonths, Option.getD_some]
  · have hdate : (showing u fields).date today =
        (dayOfMonth? u.date.year u.date.month u.date.day).getD today := by
      rcases hfine with rfl | rfl | rfl | rfl <;> rfl
    rw [hdate, hmonths, Option.getD_some]

/-- The time is that of the start. -/
theorem startSecond_showing (hne : fields ≠ []) (h : fields <+: Period.shown)
    (hstart : (fields.getLast hne).IsStart u) (now : Instant) :
    (showing u fields).startSecond now = u.second := by
  have hall : 3600 * u.hour + 60 * u.minute + u.secondOfMinute = u.second := by
    rw [Instant.hour, Instant.minute, Instant.secondOfMinute]
    omega
  rcases Period.eq_of_prefix_shown hne h with rfl | rfl | rfl | rfl | rfl | rfl
  · exact (hstart.second : u.second = 0).symm
  · exact (hstart.second : u.second = 0).symm
  · exact (hstart.second : u.second = 0).symm
  · have hfirst : u.second % 3600 = 0 := hstart.second
    have hhour : (showing u [.year, .month, .day, .hour]).startSecond now =
        3600 * u.hour + 60 * 0 + 0 :=
      startSecond_eq rfl u.hour_lt rfl (by decide) rfl (by decide)
    rw [hhour, Instant.hour]
    omega
  · have hfirst : u.second % 60 = 0 := hstart.second
    have hminute : (showing u [.year, .month, .day, .hour, .minute]).startSecond now =
        3600 * u.hour + 60 * u.minute + 0 :=
      startSecond_eq rfl u.hour_lt rfl u.minute_lt rfl (by decide)
    rw [hminute, ← hall, Instant.secondOfMinute, hfirst]
  · rw [startSecond_eq rfl u.hour_lt rfl u.minute_lt rfl u.secondOfMinute_lt, hall]

theorem timeShift?_showing (u : Instant) (fields : List Period) :
    (showing u fields).timeShift? = some 0 := by
  have hshift (p : Period) (n : Int) : (showing u fields).shift p n = 0 := by
    by_cases hp : p ∈ fields <;> simp [shift, showing, hp]
  exact timeShift?_eq_zero (hshift _ _) (hshift _ _) (hshift _ _)

/-- Whatever the time is now, the moment of a named period is the whole period. -/
theorem moment?_showing (hne : fields ≠ []) (h : fields <+: Period.shown)
    (hstart : (fields.getLast hne).IsStart u) (hyear : 1 ≤ u.date.year)
    (hyear' : u.date.year ≤ 9999) (now : Instant) :
    (showing u fields).moment? now = some ⟨u, fields.getLast hne⟩ := by
  rw [← precision_showing hne h u]
  refine moment?_eq_some (timeShift?_showing u fields) hstart.nano ?_
  rw [date_showing hne h hstart hyear hyear', startSecond_showing hne h hstart, Int.add_zero, Instant.clock]

theorem shows_showing_iff {t : Instant} :
    (showing u fields).Shows t ↔ ∀ p ∈ fields, p.valueAt t = p.valueAt u := by
  refine forall_congr' fun p => ?_
  simp only [showing]
  split
  · rename_i hmem
    simp [hmem, eq_comm]
  · rename_i hmem
    simp [hmem]

end DateSpec

/-! ## Bounds -/

/-- What a comparison says about two instants. -/
def Comparator.Holds (c : Comparator) (t bound : Instant) : Prop :=
  match c with
  | equal => t = bound
  | greater => bound < t
  | smaller => t < bound
  | greaterOrEqual => bound ≤ t
  | smallerOrEqual => t ≤ bound
  | contains | regexp => False

/-- The term holds where a property has an instant as its value. -/
inductive Term.Accepts (property : Option Uri) (t : Instant) : Term → Prop
  | comparison (span inner : Span) (c : Comparator) (bound : Moment)
    (holds : c.Holds t bound.instant) : Accepts property t
      (.comparison span { property, comparator := c } (.literal inner (.dateTime bound)))
  | every (span : Span) (ts : List Term) (all : ∀ x ∈ ts, Accepts property t x) :
    Accepts property t (.group span .and ts)
  | some (span : Span) (ts : List Term) (x : Term) (mem : x ∈ ts) (holds : Accepts property t x) :
    Accepts property t (.group span .or ts)

/-- The bounds of a moment accept the instants from its start to its end, the end included. -/
theorem Term.accepts_duringMoment_iff {property : Option Uri} {m : Moment} {span : Span}
    {t : Instant} : (duringMoment property m span).Accepts property t ↔
      m.start ≤ t ∧ t ≤ m.finish := by
  rw [duringMoment, between]
  constructor
  · rintro (_ | ⟨_, _, hall⟩)
    have hlow := hall _ List.mem_cons_self
    have hhigh := hall _ (List.mem_cons_of_mem _ List.mem_cons_self)
    cases hlow with
    | comparison _ _ _ _ hlow =>
      cases hhigh with
      | comparison _ _ _ _ hhigh => exact ⟨hlow, hhigh⟩
  · rintro ⟨hlow, hhigh⟩
    refine .every _ _ fun x hx => ?_
    simp only [List.mem_cons, List.not_mem_nil, or_false] at hx
    rcases hx with rfl | rfl
    · exact .comparison _ _ _ _ hlow
    · exact .comparison _ _ _ _ hhigh

namespace DateSpec

variable {s : DateSpec} {fields : List Period}

/-- The moment of a specification that names a period of the calendar is that period: it is the same for every
now, it is as precise as the finest field, and it stands for the instants that show the given values. The term
that bounds a property with it accepts these and the one instant that the next period starts with. -/
theorem moment_of_names (h : s.Names fields) :
    ∃ m, (∀ now, s.moment? now = some m) ∧ m.precision = fields.getLast h.ne ∧
      (∀ t, m.start ≤ t ∧ t < m.finish ↔ s.Shows t) ∧
      ∃ next, (fields.getLast h.ne).IsStart next ∧
        (fields.getLast h.ne).number next = (fields.getLast h.ne).number m.start + 1 ∧
        ∀ property span t, (Term.duringMoment property m span).Accepts property t ↔
          s.Shows t ∨ t = next := by
  obtain ⟨u, hu, rfl, hyear, hyear'⟩ := h.exists_start
  obtain ⟨next, hnext, hnumber⟩ :=
    Period.reaches_of_near (fields.getLast h.ne) hyear hyear' (Or.inr rfl)
  have hstart : (⟨u, fields.getLast h.ne⟩ : Moment).start = u := rfl
  have hfinish : (⟨u, fields.getLast h.ne⟩ : Moment).finish = next := hu.advance_eq hnext hnumber
  have hmem (t : Instant) : u ≤ t ∧ t < next ↔ (showing u fields).Shows t := by
    rw [hu.mem_iff hnext hnumber, shows_showing_iff,
      Period.number_getLast_eq_iff h.ne h.isPrefix]
  refine ⟨⟨u, fields.getLast h.ne⟩, moment?_showing h.ne h.isPrefix hu hyear hyear', rfl, fun t => ?_,
    next, hnext, hnumber, fun property span t => ?_⟩
  · rw [hstart, hfinish, hmem]
  · rw [Term.accepts_duringMoment_iff, hstart, hfinish, ← hmem]
    constructor
    · rintro ⟨hlow, hhigh⟩
      exact hhigh.lt_or_eq.imp (⟨hlow, ·⟩) id
    · rintro (⟨hlow, hhigh⟩ | rfl)
      · exact ⟨hlow, hhigh.le⟩
      · exact ⟨hu.le_iff.2 (by omega), le_rfl⟩

/-- The leap day of 2016. -/
def leapDay2016 : DateSpec :=
  ((empty.set .year (.absolute 2016)).set .month (.absolute 2)).set .day (.absolute 29)

theorem names_leapDay2016 : leapDay2016.Names [.year, .month, .day] where
  ne := by simp
  isPrefix := by decide
  absolute p hp := by
    simp only [List.mem_cons, List.not_mem_nil, or_false] at hp
    rcases hp with rfl | rfl | rfl
    · exact ⟨2016, rfl, by decide, by decide⟩
    · exact ⟨2, rfl, by decide, by decide⟩
    · exact ⟨29, rfl, by decide, by decide⟩
  unset p hp := by
    cases p with
    | year | month | day => simp at hp
    | _ => rfl

/-- The leap day is the day that shows its date, whatever the time is now. -/
theorem moment_of_names_leapDay : leapDay2016.Names [.year, .month, .day] ∧
    ∃ m, (∀ now, leapDay2016.moment? now = some m) ∧ m.precision = .day ∧
      ∀ t, m.start ≤ t ∧ t < m.finish ↔ leapDay2016.Shows t := by
  obtain ⟨m, hm, hprecision, hmem, -⟩ := moment_of_names names_leapDay2016
  exact ⟨names_leapDay2016, m, hm, hprecision, hmem⟩

end DateSpec

end DesktopSearch
