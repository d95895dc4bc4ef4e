import DesktopSearch.Proofs.Text.Scan
import DesktopSearch.Text.Digit

/-!
# Numbers read back

The decimal digits of a natural number spell that number (`digitsValue_toString`), with any zeros in
front of them too, and `readInt?` reads the text of an integer back as long as the integer lies within
the limit. No digit is a blank, so cutting off blanks leaves the text of a number as it is.
-/

namespace DesktopSearch.Text

/-! ## Digits -/

theorem isBlank_of_isDigit {c : Char} (h : c.isDigit = true) : isBlank c = false := by
  have hc : 48 ≤ c.toNat ∧ c.toNat ≤ 57 := by simpa [Char.isDigit_iff_toNat] using h
  simp [isBlank]
  omega

theorem isDigit_of_mem_toString {n : Nat} {c : Char} (h : c ∈ (toString n).toList) :
    c.isDigit = true := by
  rw [Nat.toString_eq_repr, Nat.toList_repr] at h
  exact Nat.isDigit_of_mem_toDigits (by decide) (by decide) h

theorem toString_toList_ne_nil (n : Nat) : (toString n).toList ≠ [] := by
  rw [Nat.toString_eq_repr, Nat.toList_repr]
  exact Nat.toDigits_ne_nil

theorem digitsValue_eq (cs : List Char) : digitsValue cs = Nat.ofDigitChars 10 cs 0 :=
  (Nat.ofDigitChars_eq_foldl).symm

theorem digitsValue_toString (n : Nat) : digitsValue (toString n).toList = n := by
  rw [digitsValue_eq, Nat.toString_eq_repr, Nat.toList_repr, Nat.ofDigitChars_ten_toDigits]

/-- Zeros in front do not count. -/
theorem digitsValue_zeros_append (k : Nat) (cs : List Char) :
    digitsValue (List.replicate k '0' ++ cs) = digitsValue cs := by
  simp only [digitsValue_eq]
  rw [Nat.ofDigitChars_append, Nat.ofDigitChars_replicate_zero, Nat.mul_zero]

theorem readDigits?_toString (n : Nat) : readDigits? (toString n).toList = some n := by
  have hall : (toString n).toList.all Char.isDigit = true :=
    List.all_eq_true.2 fun c hc => isDigit_of_mem_toString hc
  have hne : (toString n).toList.isEmpty = false :=
    List.isEmpty_eq_false_iff.2 (toString_toList_ne_nil n)
  rw [readDigits?, hall, hne, digitsValue_toString]
  rfl

/-! ## Integers -/

/-- The text of an integer: a minus sign if need be, and the digits. -/
theorem toString_toList_int (n : Int) :
    (toString n).toList = if n < 0 then '-' :: (toString n.natAbs).toList
      else (toString n.natAbs).toList := by
  rw [Int.toString_eq_repr, Int.repr_eq_if, Nat.toString_eq_repr]
  cases n with
  | ofNat n => simp
  | negSucc n => simp

theorem not_isBlank_of_mem_toString_int {n : Int} {c : Char} (h : c ∈ (toString n).toList) :
    isBlank c = false := by
  rw [toString_toList_int] at h
  split at h
  · rcases List.mem_cons.1 h with rfl | h
    · decide
    · exact isBlank_of_isDigit (isDigit_of_mem_toString h)
  · exact isBlank_of_isDigit (isDigit_of_mem_toString h)

/-- The digits of a natural number have no sign in front. -/
theorem toString_toList_ne_cons {c : Char} (hc : c.isDigit = false) (n : Nat) (cs : List Char) :
    (toString n).toList ≠ c :: cs := by
  intro h
  have hmem : c ∈ (toString n).toList := h ▸ List.mem_cons_self
  rw [isDigit_of_mem_toString hmem] at hc
  contradiction

theorem readNat?_toString {limit n : Nat} (h : n < limit) :
    readNat? limit (toString n).toList = some n := by
  have hplus := toString_toList_ne_cons (c := '+') (by decide) n
  unfold readNat?
  split
  · rename_i cs heq
    exact absurd heq (hplus cs)
  · dsimp only
    rw [readDigits?_toString, Option.filter_some, decide_eq_true h, if_pos rfl]

theorem readInt?_toString {limit : Nat} {n : Int} (hl : -(limit : Int) ≤ n) (hu : n < limit) :
    readInt? limit (toString n).toList = some n := by
  rw [toString_toList_int]
  split
  · have habs : -Int.ofNat n.natAbs = n := by rw [Int.ofNat_eq_natCast]; omega
    simp only [readInt?, readDigits?_toString, Option.map_some, habs]
    simp [hl, hu]
  · have habs : (n.natAbs : Int) = n := by omega
    rw [readInt?, readDigits?_toString]
    · simp [habs, hl, hu]
    · exact fun cs => toString_toList_ne_cons (by decide) n.natAbs cs
    · exact fun cs => toString_toList_ne_cons (by decide) n.natAbs cs

end DesktopSearch.Text
