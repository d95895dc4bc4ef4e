import DesktopSearch.Proofs.Xml.Escape
import Mathlib.Data.List.Induction
import Mathlib.Tactic.IntervalCases
import Mathlib.Tactic.SplitIfs

/-!
# Texts with references

A character other than the ampersand may stand for itself. An ampersand starts a reference, which `Names`
a character by one of five names or by its number in decimal or hexadecimal digits. What a text `Decodes`
to when each reference is replaced by its character is what `unescape?` reads, and it reads nothing else
(`unescape?_eq_some_iff`).
-/

namespace DesktopSearch.Xml

/-! ## Numbers -/

/-- The digits of a base up to sixteen, the letters in either case. -/
structure IsDigit (base : Nat) (c : Char) (d : Nat) : Prop where
  lt : d < base
  eq : c = d.digitChar ∨ c = d.digitChar.toUpper

/-- Digits spell a number, the most significant digit first. -/
inductive Spells (base : Nat) : List Char → Nat → Prop
  | single {c : Char} {d : Nat} (digit : IsDigit base c d) : Spells base [c] d
  | snoc {cs : List Char} {n : Nat} {c : Char} {d : Nat} (front : Spells base cs n)
    (digit : IsDigit base c d) : Spells base (cs ++ [c]) (base * n + d)

/-- The characters numbered from `low` on are those that `f` lists. -/
theorem exists_of_toNat_mem {c : Char} {low high : Nat} {f : Nat → Char}
    (hf : ∀ k < high + 1 - low, Char.ofNat (low + k) = f k) (h : low ≤ c.toNat)
    (h' : c.toNat ≤ high) : ∃ k < high + 1 - low, c = f k := by
  refine ⟨c.toNat - low, by omega, ?_⟩
  rw [← hf _ (by omega), Nat.add_sub_cancel' h, Char.ofNat_toNat]

/-- The letters of either case count from ten to fifteen. -/
theorem hexDigit?_eq_some_iff {c : Char} {d : Nat} : hexDigit? c = some d ↔ IsDigit 16 c d := by
  have hback {d : Nat} (h : IsDigit 16 c d) : hexDigit? c = some d := by
    obtain ⟨hlt, rfl | rfl⟩ := h <;> interval_cases d <;> rfl
  refine ⟨fun h => ?_, hback⟩
  have hdigit : ∃ d, IsDigit 16 c d := by
    rw [hexDigit?] at h
    split_ifs at h with hdecimal hlower hupper
    · have hc : 48 ≤ c.toNat ∧ c.toNat ≤ 57 := by simpa [Char.isDigit_iff_toNat] using hdecimal
      obtain ⟨d, hd, rfl⟩ := exists_of_toNat_mem (f := Nat.digitChar) (by decide) hc.1 hc.2
      exact ⟨d, by omega, Or.inl rfl⟩
    · have hc : 97 ≤ c.toNat ∧ c.toNat ≤ 102 := hlower
      obtain ⟨d, hd, rfl⟩ :=
        exists_of_toNat_mem (f := fun k => (10 + k).digitChar) (by decide) hc.1 hc.2
      exact ⟨10 + d, by omega, Or.inl rfl⟩
    · have hc : 65 ≤ c.toNat ∧ c.toNat ≤ 70 := hupper
      obtain ⟨d, hd, rfl⟩ :=
        exists_of_toNat_mem (f := fun k => (10 + k).digitChar.toUpper) (by decide) hc.1 hc.2
      exact ⟨10 + d, by omega, Or.inr rfl⟩
  obtain ⟨d', hd'⟩ := hdigit
  rw [hback hd'] at h
  rwa [← Option.some.inj h]

theorem isDigit_ten_iff {c : Char} {d : Nat} :
    IsDigit 10 c d ↔ c.isDigit = true ∧ c.toNat - '0'.toNat = d := by
  have hback {d : Nat} (h : IsDigit 10 c d) : c.isDigit = true ∧ c.toNat - '0'.toNat = d := by
    obtain ⟨hlt, rfl | rfl⟩ := h <;> interval_cases d <;> decide
  refine ⟨hback, fun ⟨hdigit, hd⟩ => ?_⟩
  have hc : 48 ≤ c.toNat ∧ c.toNat ≤ 57 := by simpa [Char.isDigit_iff_toNat] using hdigit
  obtain ⟨d', hd', heq⟩ := exists_of_toNat_mem (f := Nat.digitChar) (by decide) hc.1 hc.2
  have hdigit' : IsDigit 10 c d' := ⟨hd', Or.inl heq⟩
  rwa [← hd, (hback hdigit').2]

theorem IsDigit.isAlphanum {base : Nat} {c : Char} {d : Nat} (h : IsDigit base c d)
    (hbase : base ≤ 16) : c.isAlphanum = true := by
  obtain ⟨hlt, hc⟩ := h
  have hlt : d < 16 := by omega
  rcases hc with rfl | rfl <;> interval_cases d <;> rfl

variable {base n : Nat} {cs ds name : List Char} {c : Char}

/-- A number has a digit at least. -/
theorem Spells.ne_nil (h : Spells base cs n) : cs ≠ [] := by
  cases h <;> simp

theorem Spells.exists_isDigit (h : Spells base cs n) : ∀ c ∈ cs, ∃ d, IsDigit base c d := by
  induction h with
  | single digit => simpa using ⟨_, digit⟩
  | snoc front digit ih =>
    simp only [List.mem_append, List.mem_singleton]
    rintro c (hc | rfl)
    · exact ih c hc
    · exact ⟨_, digit⟩

theorem spells_singleton_iff : Spells base [c] n ↔ IsDigit base c n := by
  refine ⟨fun h => ?_, .single⟩
  generalize htext : [c] = text at h
  cases h with
  | single digit => rwa [List.singleton_inj.1 htext]
  | snoc front digit => exact absurd (List.singleton_eq_append_iff.1 htext) (by simp [front.ne_nil])

/-- The digit at the end counts once, and those before it as often as the base says. -/
theorem spells_concat_iff (h : cs ≠ []) : Spells base (cs ++ [c]) n ↔
    ∃ m, Spells base cs m ∧ ∃ d, IsDigit base c d ∧ base * m + d = n := by
  constructor
  · generalize htext : cs ++ [c] = text
    rintro (hdigit | ⟨hfront, hdigit⟩)
    · exact absurd (List.append_eq_singleton_iff.1 htext) (by simp [h])
    · obtain ⟨rfl, heq⟩ := List.append_inj' htext rfl
      obtain rfl := List.singleton_inj.1 heq
      exact ⟨_, hfront, _, hdigit, rfl⟩
  · rintro ⟨m, hfront, d, hdigit, rfl⟩
    exact .snoc hfront hdigit

/-- A hexadecimal number is read exactly if its digits spell it. -/
theorem hexValue?_eq_some_iff : hexValue? cs = some n ↔ Spells 16 cs n := by
  induction cs using List.reverseRecOn generalizing n with
  | nil => simpa [hexValue?] using fun h => Spells.ne_nil h rfl
  | append_singleton cs c ih =>
    cases cs with
    | nil => simp [hexValue?, spells_singleton_iff, hexDigit?_eq_some_iff]
    | cons b cs =>
      have hvalue : hexValue? (b :: cs ++ [c]) =
          (hexValue? (b :: cs)).bind fun m => (hexDigit? c).map fun d => 16 * m + d := by
        simp [hexValue?, List.foldl_append]
      rw [hvalue, spells_concat_iff (List.cons_ne_nil b cs)]
      simp only [Option.bind_eq_some_iff, Option.map_eq_some_iff, ih, hexDigit?_eq_some_iff]

/-- A decimal number is read exactly if its digits spell it. -/
theorem readDigits?_eq_some_iff : Text.readDigits? cs = some n ↔ Spells 10 cs n := by
  induction cs using List.reverseRecOn generalizing n with
  | nil => simpa [Text.readDigits?] using fun h => Spells.ne_nil h rfl
  | append_singleton cs c ih =>
    cases cs with
    | nil =>
      simp [Text.readDigits?, Text.digitsValue, spells_singleton_iff, isDigit_ten_iff]
    | cons b cs =>
      rw [spells_concat_iff (List.cons_ne_nil b cs)]
      simp only [← ih, isDigit_ten_iff]
      simp [Text.readDigits?, Text.digitsValue, and_assoc]

/-- Every number but zero stands for the character that has it, if there is one. -/
theorem charWithNumber?_eq_some_iff : charWithNumber? n = some c ↔ n ≠ 0 ∧ c.toNat = n := by
  rw [charWithNumber?]
  split_ifs with h
  · rw [Option.some.injEq]
    constructor
    · rintro rfl
      refine ⟨h.1, ?_⟩
      rw [Char.ofNat, dif_pos h.2]
      rfl
    · rintro ⟨-, rfl⟩
      exact Char.ofNat_toNat c
  · simp only [false_iff]
    rintro ⟨hne, rfl⟩
    exact h ⟨hne, c.valid⟩

/-! ## References -/

/-- A character is named by one of five names, or by its number unless that is zero. -/
inductive Refers : List Char → Char → Prop
  | lt : Refers ['l', 't'] '<'
  | gt : Refers ['g', 't'] '>'
  | amp : Refers ['a', 'm', 'p'] '&'
  | apos : Refers ['a', 'p', 'o', 's'] '\''
  | quot : Refers ['q', 'u', 'o', 't'] '"'
  | decimal {digits : List Char} {c : Char} (spells : Spells 10 digits c.toNat)
    (ne_zero : c.toNat ≠ 0) : Refers ('#' :: digits) c
  | hexadecimal {digits : List Char} {c : Char} (spells : Spells 16 digits c.toNat)
    (ne_zero : c.toNat ≠ 0) : Refers ('#' :: 'x' :: digits) c

/-- What a text with references stands for. -/
inductive Decodes : List Char → List Char → Prop
  | nil : Decodes [] []
  | plain {cs ds : List Char} (c : Char) (ne : c ≠ '&') (rest : Decodes cs ds) :
    Decodes (c :: cs) (c :: ds)
  | reference {name cs ds : List Char} {c : Char} (refers : Refers name c) (rest : Decodes cs ds) :
    Decodes ('&' :: (name ++ ';' :: cs)) (c :: ds)

theorem Spells.plain (h : Spells base cs n) (hbase : base ≤ 16) :
    ∀ d ∈ cs, d ≠ ';' ∧ d ≠ '&' := by
  intro d hd
  obtain ⟨k, hk⟩ := h.exists_isDigit d hd
  have halphanum := hk.isAlphanum hbase
  constructor <;> rintro rfl <;> contradiction

theorem Refers.plain (h : Refers name c) : ∀ d ∈ name, d ≠ ';' ∧ d ≠ '&' := by
  cases h with
  | decimal spells _ => simpa using spells.plain (by decide)
  | hexadecimal spells _ => simpa using spells.plain (Nat.le_refl 16)
  | _ => simp

theorem resolve?_decimal (h : Spells 10 ds n) : resolve? ('#' :: ds) = charWithNumber? n := by
  rw [resolve?]
  · rw [readDigits?_eq_some_iff.2 h, Option.bind_some]
  -- No decimal digit is an x, so the number is not taken for a hexadecimal one.
  · rintro digits rfl
    obtain ⟨d, hd⟩ := h.exists_isDigit 'x' List.mem_cons_self
    exact absurd (isDigit_ten_iff.1 hd).1 (by decide)

/-- A name is resolved exactly to what it refers to. -/
theorem resolve?_eq_some_iff : resolve? name = some c ↔ Refers name c := by
  constructor
  · intro h
    unfold resolve? at h
    split at h
    · rename_i digits
      obtain ⟨n, hn, hc⟩ := Option.bind_eq_some_iff.1 h
      obtain ⟨hne, rfl⟩ := charWithNumber?_eq_some_iff.1 hc
      exact .hexadecimal (hexValue?_eq_some_iff.1 hn) hne
    · rename_i digits _
      obtain ⟨n, hn, hc⟩ := Option.bind_eq_some_iff.1 h
      obtain ⟨hne, rfl⟩ := charWithNumber?_eq_some_iff.1 hc
      exact .decimal (readDigits?_eq_some_iff.1 hn) hne
    · have hname {s : String} (hs : String.ofList name = s) : name = s.toList := by
        rw [← hs, String.toList_ofList]
      split at h
      all_goals try contradiction
      all_goals
        rename_i heq
        rw [hname heq, ← Option.some.inj h]
      · exact .lt
      · exact .gt
      · exact .amp
      · exact .apos
      · exact .quot
  · rintro (_ | _ | _ | _ | _ | ⟨hspells, hne⟩ | ⟨hspells, hne⟩)
    all_goals try rfl
    · rw [resolve?_decimal hspells]
      exact charWithNumber?_eq_some_iff.2 ⟨hne, rfl⟩
    · rw [resolve?, hexValue?_eq_some_iff.2 hspells, Option.bind_some]
      exact charWithNumber?_eq_some_iff.2 ⟨hne, rfl⟩

/-! ## Texts -/

/-- What is read from inside a reference ends it with a semicolon. -/
theorem exists_of_unescapeFrom {seen : List Char} (h : unescapeFrom (some seen) cs = some ds) :
    ∃ name rest c es, cs = name ++ ';' :: rest ∧ resolve? (seen.reverse ++ name) = some c ∧
      unescapeFrom none rest = some es ∧ ds = c :: es := by
  induction cs generalizing seen with
  | nil => simp [unescapeFrom] at h
  | cons d cs ih =>
    rw [unescapeFrom] at h
    split_ifs at h with hsemi hamp
    · obtain ⟨c, hc, h⟩ := Option.bind_eq_some_iff.1 h
      obtain ⟨es, hes, rfl⟩ := Option.map_eq_some_iff.1 h
      exact ⟨[], cs, c, es, by rw [hsemi]; rfl, by rwa [List.append_nil], hes, rfl⟩
    · obtain ⟨name, rest, c, es, rfl, hc, hes, rfl⟩ := ih h
      exact ⟨d :: name, rest, c, es, rfl, by simpa using hc, hes, rfl⟩

/-- What is read outside of references is decoded character by character. -/
theorem decodes_of_unescapeFrom : ∀ {cs ds : List Char}, unescapeFrom none cs = some ds →
    Decodes cs ds
  | [], ds, h => by
    obtain rfl : [] = ds := by simpa [unescapeFrom] using h
    exact .nil
  | c :: cs, ds, h => by
    rw [unescapeFrom] at h
    split_ifs at h with hamp
    · obtain ⟨name, rest, d, es, rfl, hd, hes, rfl⟩ := exists_of_unescapeFrom h
      rw [hamp]
      exact .reference (resolve?_eq_some_iff.1 hd) (decodes_of_unescapeFrom hes)
    · obtain ⟨es, hes, rfl⟩ := Option.map_eq_some_iff.1 h
      exact .plain c hamp (decodes_of_unescapeFrom hes)
termination_by cs => cs.length

/-- A text is read as what it decodes to. -/
theorem unescape?_eq_some_iff : unescape? cs = some ds ↔ Decodes cs ds := by
  refine ⟨decodes_of_unescapeFrom, fun h => ?_⟩
  rw [unescape?]
  induction h with
  | nil => rfl
  | plain c ne _ ih => rw [unescapeFrom, if_neg ne, ih, Option.map_some]
  | reference refers _ ih =>
    rw [unescapeFrom, if_pos rfl, unescapeFrom_reference refers.plain, List.reverse_nil,
      List.nil_append, resolve?_eq_some_iff.2 refers, Option.bind_some, ih, Option.map_some]

end DesktopSearch.Xml
