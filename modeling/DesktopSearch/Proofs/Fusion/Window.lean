import DesktopSearch.Proofs.Fusion.Checked
import Mathlib.Algebra.Order.Ring.Abs
import Mathlib.Algebra.Order.Ring.Int

/-!
# Windows around integers

A plain integer stands for the integers around it, from its window below to its window above. The bounds are
shares of the integer that are rounded inwards and cut to 64 bits, and neither the rounding nor the cutting
changes what lies between them : these are the integers of 64 bits that differ from the given one by the
window at most (`Settings.isWindow_integerWindow`). Larger integers have larger bounds
(`Settings.integerWindow_le`).

`tune_integer_window` says it of the terms that plain integers are tuned to, for each of the windows that
settings may have.
-/

namespace DesktopSearch

open Text

/-- The bounds have 64 bits, and the integers of 64 bits between them are those that differ from `v` by
`percent` hundredths of it at most. -/
structure IsWindow (percent v : Int) (bounds : Int × Int) : Prop where
  low : HasInt64 bounds.1
  high : HasInt64 bounds.2
  between_iff : ∀ x, HasInt64 x → (bounds.1 ≤ x ∧ x ≤ bounds.2 ↔ 100 * |x - v| ≤ percent * v)

/-- A window reaches to either side of an integer that is not negative. -/
theorem IsWindow.mem {percent v : Int} {bounds : Int × Int} (h : IsWindow percent v bounds)
    (hpercent : 0 ≤ percent) (hnonneg : 0 ≤ v) (hv : HasInt64 v) : bounds.1 ≤ v ∧ v ≤ bounds.2 := by
  rw [h.between_iff v hv, sub_self, abs_zero, mul_zero]
  exact Int.mul_nonneg hpercent hnonneg

namespace Settings

variable {s : Settings} {v x : Int}

/-! ## Bounds -/

/-- The lower bound is rounded up. -/
theorem integerWindow_fst_le_iff (hnonneg : 0 ≤ v) (hv : HasInt64 v) (hx : HasInt64 x) :
    (s.integerWindow v).1 ≤ x ↔ v * (100 - s.windowPercent) ≤ x * 100 := by
  obtain ⟨hpercent, -⟩ := s.windowPercent_bounds
  have hshare : 0 ≤ v * s.windowPercent := Int.mul_nonneg hnonneg hpercent
  have hlow : -(-(v * (100 - s.windowPercent)) / 100) < int64Limit := by
    rw [HasInt64] at hv
    rw [Int.mul_sub]
    omega
  calc
    (s.integerWindow v).1 ≤ x ↔ -(-(v * (100 - s.windowPercent)) / 100) ≤ x := saturate_le_iff hx hlow
    _ ↔ -x ≤ -(v * (100 - s.windowPercent)) / 100 := by omega
    _ ↔ -x * 100 ≤ -(v * (100 - s.windowPercent)) := Int.le_ediv_iff_mul_le (by decide)
    _ ↔ v * (100 - s.windowPercent) ≤ x * 100 := by rw [Int.neg_mul, Int.neg_le_neg_iff]

/-- The upper bound is rounded down. -/
theorem le_integerWindow_snd_iff (hnonneg : 0 ≤ v) (hx : HasInt64 x) :
    x ≤ (s.integerWindow v).2 ↔ x * 100 ≤ v * (100 + s.windowPercent) := by
  obtain ⟨hpercent, -⟩ := s.windowPercent_bounds
  have hproduct : 0 ≤ v * (100 + s.windowPercent) := Int.mul_nonneg hnonneg (by omega)
  calc
    x ≤ (s.integerWindow v).2 ↔ x ≤ v * (100 + s.windowPercent) / 100 := le_saturate_iff hx (by omega)
    _ ↔ x * 100 ≤ v * (100 + s.windowPercent) := Int.le_ediv_iff_mul_le (by decide)

theorem isWindow_integerWindow (s : Settings) (hnonneg : 0 ≤ v) (hv : HasInt64 v) :
    IsWindow s.windowPercent v (s.integerWindow v) where
  low := hasInt64_saturate _
  high := hasInt64_saturate _
  between_iff x hx := by
    have habs : 100 * |x - v| = |100 * x - 100 * v| := by rw [← mul_sub, abs_mul]; rfl
    rw [integerWindow_fst_le_iff hnonneg hv hx, le_integerWindow_snd_iff hnonneg hx, habs, abs_le,
      Int.mul_sub, Int.mul_add, Int.mul_comm v s.windowPercent]
    omega

theorem integerWindow_le (s : Settings) {w : Int} (h : v ≤ w) :
    (s.integerWindow v).1 ≤ (s.integerWindow w).1 ∧ (s.integerWindow v).2 ≤ (s.integerWindow w).2 := by
  obtain ⟨hnonneg, hle⟩ := s.windowPercent_bounds
  have hinner : v * (100 - s.windowPercent) ≤ w * (100 - s.windowPercent) :=
    Int.mul_le_mul_of_nonneg_right h (by omega)
  have houter : v * (100 + s.windowPercent) ≤ w * (100 + s.windowPercent) :=
    Int.mul_le_mul_of_nonneg_right h (by omega)
  have hlow : -(w * (100 - s.windowPercent)) / 100 ≤ -(v * (100 - s.windowPercent)) / 100 :=
    Int.ediv_le_ediv (by decide) (Int.neg_le_neg hinner)
  exact ⟨saturate_le_saturate (Int.neg_le_neg hlow),
    saturate_le_saturate (Int.ediv_le_ediv (by decide) houter)⟩

/-! ## Percentages -/

/-- English with a window of so many percents. -/
def withPercent (percent : Nat) : Settings := { english with numericWindow := .ofRatio percent 100 }

theorem windowPercent_withPercent : ∀ percent ≤ 100, (withPercent percent).windowPercent = percent := by
  decide +kernel

end Settings

/-! ## Plain integers -/

/-- A plain integer that is not negative is tuned to the window around it, whatever the window is. The sums
and products for the bounds stay inside 128 bits and the bounds inside 64. Exactly the integers of 64 bits
that differ from the given one by the window at most lie between them, it does so itself, and larger
integers have larger bounds. -/
theorem tune_integer_window {percent : Int} (h : 0 ≤ percent) (h' : percent ≤ 100) :
    (∃ s : Settings, s.windowPercent = percent) ∧
    ∀ s : Settings, s.windowPercent = percent →
      (∀ v, 0 ≤ v → HasInt64 v →
        (∀ flags c span,
          let window := Term.between c.sizeProperty? (.integer (s.integerWindow v).1)
            (.integer (s.integerWindow v).2) span
          tune s flags c (.literal span (.integer v)) = window ∧
            Checked.tune s flags c (.literal span (.integer v)) = some window) ∧
        IsWindow percent v (s.integerWindow v) ∧
        (s.integerWindow v).1 ≤ v ∧ v ≤ (s.integerWindow v).2) ∧
      ∀ v w, v ≤ w →
        (s.integerWindow v).1 ≤ (s.integerWindow w).1 ∧ (s.integerWindow v).2 ≤ (s.integerWindow w).2 := by
  refine ⟨⟨.withPercent percent.toNat, ?_⟩, ?_⟩
  · rw [Settings.windowPercent_withPercent _ (by omega), Int.toNat_of_nonneg h]
  rintro s rfl
  refine ⟨fun v hnonneg hv => ?_, fun v w => s.integerWindow_le⟩
  have hfits (span : Span) : Checked.PlainFits (.literal span (.integer v)) :=
    fun n hn => Option.some.inj hn ▸ hv
  have hwindow := s.isWindow_integerWindow hnonneg hv
  exact ⟨fun flags c span => ⟨rfl, Checked.tune_eq (hfits span) c⟩, hwindow, hwindow.mem h hnonneg hv⟩

/-- The window of English around the largest integer of 64 bits ends with the integer itself. -/
theorem tune_integer_window_largest :
    Settings.english.windowPercent = 20 ∧ HasInt64 9223372036854775807 ∧
      Settings.english.integerWindow 9223372036854775807 = (7378697629483820646, 9223372036854775807) ∧
      IsWindow 20 9223372036854775807 (7378697629483820646, 9223372036854775807) := by
  have hpercent : Settings.english.windowPercent = 20 := by decide +kernel
  have hv : HasInt64 9223372036854775807 := by decide
  have hbounds : Settings.english.integerWindow 9223372036854775807 =
      (7378697629483820646, 9223372036854775807) := by decide +kernel
  have hnonneg : (0 : Int) ≤ 20 := by decide
  obtain ⟨-, hsettings⟩ := tune_integer_window hnonneg (by decide)
  obtain ⟨-, hwindow, -⟩ := (hsettings _ hpercent).1 _ (by decide) hv
  exact ⟨hpercent, hv, hbounds, hbounds ▸ hwindow⟩

end DesktopSearch
