import DesktopSearch.Text.Digit

/-!
# Checked integers

A sum, a difference or a product of integers of 64 bits may need more of them. A checked computation is one
that gives up in this case (`Text.checked?`), one that is cut comes to the nearest integer of 64 bits
(`Text.saturate`), and both leave alone what has 64 bits anyway.
-/

namespace DesktopSearch

namespace Text

variable {v : Int}

theorem hasInt64_iff : HasInt64 v ↔ -9223372036854775808 ≤ v ∧ v < 9223372036854775808 := by
  have hlimit : (int64Limit : Int) = 9223372036854775808 := by decide
  rw [HasInt64, hlimit]

theorem checked?_eq_some_iff {w : Int} : checked? v = some w ↔ HasInt64 v ∧ v = w := by
  rw [checked?, Option.ite_none_right_eq_some, Option.some_inj]

theorem HasInt64.checked?_eq (h : HasInt64 v) : checked? v = some v := if_pos h

theorem saturate_eq_self (h : -9223372036854775808 ≤ v) (h' : v < 9223372036854775808) :
    saturate v = v := by
  have hlimit : (int64Limit : Int) = 9223372036854775808 := by decide
  rw [saturate, hlimit]
  omega

theorem wrap_eq_self (h : -9223372036854775808 ≤ v) (h' : v < 9223372036854775808) : wrap v = v := by
  have hlimit : nat64Limit = 18446744073709551616 := by decide
  rw [wrap, hlimit, Int.bmod_def]
  omega

theorem hasInt64_saturate (v : Int) : HasInt64 (saturate v) := by
  have hlimit : (int64Limit : Int) = 9223372036854775808 := by decide
  rw [hasInt64_iff, saturate, hlimit]
  omega

/-- A number that is not too small is cut from above only. -/
theorem le_saturate_iff {x : Int} (hx : HasInt64 x) (hv : -(int64Limit : Int) ≤ v) :
    x ≤ saturate v ↔ x ≤ v := by
  rw [HasInt64] at hx
  rw [saturate]
  omega

/-- A number that is not too large is cut from below only. -/
theorem saturate_le_iff {x : Int} (hx : HasInt64 x) (hv : v < int64Limit) : saturate v ≤ x ↔ v ≤ x := by
  rw [HasInt64] at hx
  rw [saturate]
  omega

theorem saturate_le_saturate {w : Int} (h : v ≤ w) : saturate v ≤ saturate w := by
  rw [saturate, saturate]
  omega

/-- What counts forwards or backwards below the limit. -/
theorem hasInt64_of_natAbs_lt (h : v.natAbs < int64Limit) : HasInt64 v := by
  rw [HasInt64]
  omega

end Text

end DesktopSearch
