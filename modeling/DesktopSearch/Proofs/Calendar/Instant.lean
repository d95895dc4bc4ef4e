import DesktopSearch.Calendar.Instant
import DesktopSearch.Proofs.Calendar.Date
import Mathlib.Order.Defs.PartialOrder

/-!
# Instants in order

The `clock` of an instant counts the whole seconds since the first day of the calendar's year 1, leap
seconds aside. Instants are ordered by their clocks and then by the fraction of the second, so that a
leap second lies between the second before it and the one after it. At whole seconds adding seconds is
adding to the clock (`Instant.addSeconds?_eq_some`).
-/

namespace DesktopSearch.Instant

/-! ## The clock -/

/-- The whole seconds since the start of January 1 of year 1; a leap second counts as the one before
it. -/
def clock (t : Instant) : Int := 86400 * t.date.dayNumber + t.second

theorem second_lt_86400 (t : Instant) : t.second < 86400 := t.second_lt

/-- The day is what the clock shows in whole days. -/
theorem clock_ediv (t : Instant) : t.clock / 86400 = t.date.dayNumber := by
  have := t.second_lt_86400
  rw [clock]
  omega

/-- The second of the day is what is left of it. -/
theorem clock_emod (t : Instant) : t.clock % 86400 = t.second := by
  have := t.second_lt_86400
  rw [clock]
  omega

theorem hour_lt (t : Instant) : t.hour < 24 := by
  have := t.second_lt_86400
  rw [hour]
  omega

theorem minute_lt (t : Instant) : t.minute < 60 := Nat.mod_lt _ (by decide)

theorem secondOfMinute_lt (t : Instant) : t.secondOfMinute < 60 := Nat.mod_lt _ (by decide)

theorem ofParts?_self (t : Instant) : ofParts? t.date t.second t.nano = some t :=
  dif_pos ⟨t.second_lt, t.nano_lt, t.leap⟩

/-- An instant is told by the clock and the nanosecond. -/
theorem eq_of_clock_eq {t u : Instant} (hclock : t.clock = u.clock) (hnano : t.nano = u.nano) :
    t = u := by
  have hdate : t.date = u.date :=
    Date.dayNumber_injective (by rw [← clock_ediv, hclock, clock_ediv])
  have hsecond : t.second = u.second := by
    have := t.clock_emod
    have := u.clock_emod
    omega
  have hparts := t.ofParts?_self
  rw [hdate, hsecond, hnano, ofParts?_self] at hparts
  exact (Option.some.inj hparts).symm

/-- Earlier instants come first. -/
instance : LE Instant :=
  ⟨fun t u => t.clock < u.clock ∨ t.clock = u.clock ∧ t.nano ≤ u.nano⟩

theorem le_iff {t u : Instant} : t ≤ u ↔ t.clock < u.clock ∨ t.clock = u.clock ∧ t.nano ≤ u.nano :=
  Iff.rfl

instance : PartialOrder Instant where
  le_refl t := by
    rw [le_iff]
    omega
  le_trans t u v h h' := by
    rw [le_iff] at h h' ⊢
    omega
  le_antisymm t u h h' := by
    rw [le_iff] at h h'
    exact eq_of_clock_eq (by omega) (by omega)

theorem not_le_iff {t u : Instant} : ¬t ≤ u ↔ u < t := by
  rw [lt_iff_le_not_ge, le_iff, le_iff]
  omega

/-- A whole second is not after the instants that lie in it. -/
theorem le_iff_of_nano_eq_zero {t u : Instant} (h : t.nano = 0) : t ≤ u ↔ t.clock ≤ u.clock := by
  rw [le_iff, h]
  omega

/-! ## Seconds later -/

/-- Seconds later at a whole second is as many seconds later on the clock. -/
theorem addSeconds?_eq_some {t u : Instant} {n : Int} (ht : t.nano = 0) (hu : u.nano = 0)
    (h : u.clock = t.clock + n) : t.addSeconds? n = some u := by
  by_cases hn : n = 0
  · have hclock : t.clock = u.clock := by rw [h, hn, Int.add_zero]
    rw [addSeconds?, if_pos hn, eq_of_clock_eq hclock (by rw [ht, hu])]
  · have hleap : t.isLeap = false := decide_eq_false (by rw [ht]; decide)
    have hday : t.date.addDays? ((t.second + n) / 86400) = some u.date := by
      rw [Date.addDays?_eq_some_iff, ← clock_ediv u, h, clock]
      omega
    have hsecond : ((t.second + n) % 86400).toNat = u.second := by
      have := u.clock_emod
      rw [h, clock] at this
      omega
    have hnano : t.nano % nanosPerSecond = u.nano := by rw [ht, hu]; rfl
    simp only [addSeconds?, if_neg hn, hleap, Bool.false_and, Bool.false_eq_true, if_false,
      secondsPerDay, Nat.cast_ofNat, hday, Option.bind_some, hsecond, hnano, ofParts?_self]

/-- The clock starts with the first day. -/
theorem le_clock (t : Instant) : 86400 * Date.firstDay ≤ t.clock := by
  have := t.date.firstDay_le
  rw [clock]
  omega

/-- The clock stops with the last day. -/
theorem clock_lt (t : Instant) : t.clock < 86400 * (Date.lastDay + 1) := by
  have := t.date.le_lastDay
  have := t.second_lt_86400
  rw [clock]
  omega

/-- Every second of the calendar is an instant. -/
theorem exists_clock_eq {n : Int} (hfirst : 86400 * Date.firstDay ≤ n)
    (hlast : n < 86400 * (Date.lastDay + 1)) : ∃ t : Instant, t.nano = 0 ∧ t.clock = n := by
  have hday : Date.firstDay ≤ n / 86400 := by omega
  have hday' : n / 86400 ≤ Date.lastDay := by omega
  obtain ⟨d, hd⟩ := Date.exists_dayNumber_eq hday hday'
  refine ⟨atSecond d (n % 86400).toNat, rfl, ?_⟩
  dsimp only [clock, atSecond, secondsPerDay]
  omega

end DesktopSearch.Instant
