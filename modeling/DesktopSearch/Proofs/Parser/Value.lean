import DesktopSearch.Dates.Spec
import DesktopSearch.Fusion.Range
import DesktopSearch.Proofs.Literal
import DesktopSearch.Proofs.Text.Checked
import DesktopSearch.Reading.Number

/-!
# Values of a text

Whatever numbers, words for them and dates are read as, and whatever ranges they become, dates are whole
seconds and integers have 64 bits (`Literal.IsRead`), provided that the language has no more words for
numbers than that. So the text of such a value says all of it (`Literal.IsRead.recorded_eq`).
-/

namespace DesktopSearch

/-! ## Integers -/

namespace Text

/-- An integer that is read lies inside the limit. -/
theorem of_readInt?_eq_some {limit : Nat} {cs : List Char} {n : Int}
    (h : readInt? limit cs = some n) : -(limit : Int) ≤ n ∧ n < limit := by
  obtain ⟨-, hbounds⟩ := Option.filter_eq_some_iff.1 h
  simpa using hbounds

end Text

/-! ## Instants -/

namespace Instant

theorem withoutFraction_eq_self {t : Instant} (h : t.nano = 0) : t.withoutFraction = t := by
  obtain ⟨date, second, nano, _, _, _⟩ := t
  obtain rfl : nano = 0 := h
  rfl

/-- Seconds later it is a whole second again. -/
theorem nano_addSeconds? {t u : Instant} {n : Int} (ht : t.nano = 0)
    (h : t.addSeconds? n = some u) : u.nano = 0 := by
  rw [addSeconds?] at h
  split at h
  · rw [← Option.some.inj h, ht]
  · obtain ⟨date, -, hparts⟩ := Option.bind_eq_some_iff.1 h
    rw [ht, Nat.zero_mod, ofParts?, Option.dite_none_right_eq_some] at hparts
    obtain ⟨_, hu⟩ := hparts
    rw [← Option.some.inj hu]

theorem nano_addMonths? {t u : Instant} {n : Int} (ht : t.nano = 0)
    (h : t.addMonths? n = some u) : u.nano = 0 := by
  obtain ⟨date, -, rfl⟩ := Option.map_eq_some_iff.1 h
  exact ht

end Instant

/-- Going on by a period keeps whole seconds. -/
theorem Period.nano_advance {t : Instant} (h : t.nano = 0) (p : Period) : (p.advance t).nano = 0 := by
  have hgetD {later : Option Instant} (hlater : ∀ u, later = some u → u.nano = 0) :
      (later.getD t).nano = 0 := by
    cases later with
    | none => exact h
    | some u => exact hlater u rfl
  cases p with
  | year => exact hgetD fun _ => Instant.nano_addMonths? h
  | month => exact hgetD fun _ => Instant.nano_addMonths? h
  | _ => exact hgetD fun _ => Instant.nano_addSeconds? h

/-- Dates are described to the second at most. -/
theorem DateSpec.nano_of_moment? {s : DateSpec} {now : Instant} {m : Moment} (h : s.moment? now = some m) :
    m.instant.nano = 0 := by
  obtain ⟨v, -, rfl⟩ := Option.map_eq_some_iff.1 h
  cases hshift : (Instant.atSecond (s.date now.date) (s.startSecond now)).addSeconds? v with
  | none => rfl
  | some u => exact Instant.nano_addSeconds? rfl hshift

/-! ## Values -/

/-- The places of the words for numbers have 64 bits, as those of all lists that the program can hold. -/
structure Settings.Fits (s : Settings) : Prop where
  numbers : s.numberWords.length < Text.int64Limit
  ordinals : s.ordinalWords.length < Text.int64Limit

/-- A value that a text of the language can have. -/
structure Literal.IsRead (settings : Settings) (l : Literal) : Prop where
  whole : ∀ m, l = .dateTime m → m.instant.nano = 0
  fits : settings.Fits → l.Fits

variable {settings : Settings}

namespace Literal

theorem isRead_string (word : String) : (string word).IsRead settings :=
  ⟨by simp, fun _ => trivial⟩

theorem isRead_double (d : Double) : (double d).IsRead settings :=
  ⟨by simp, fun _ => trivial⟩

theorem isRead_dateTime {m : Moment} (h : m.instant.nano = 0) : (dateTime m).IsRead settings :=
  ⟨fun _ hm => dateTime.inj hm ▸ h, fun _ => trivial⟩

theorem isRead_integer {n : Int}
    (h : settings.Fits → -(Text.int64Limit : Int) ≤ n ∧ n < Text.int64Limit) :
    (integer n).IsRead settings :=
  ⟨by simp, h⟩

/-- What is read from a text is recorded as it is. -/
theorem IsRead.recorded_eq {l : Literal} (h : l.IsRead settings) : l.recorded = l := by
  cases l with
  | dateTime m => rw [recorded, Instant.withoutFraction_eq_self (h.whole m rfl)]
  | _ => rfl

end Literal

namespace Settings

theorem place?_lt {entries : List String} {word : String} {n : Nat}
    (h : place? entries word = some n) : n < entries.length := by
  rw [place?] at h
  split at h
  · contradiction
  · exact (List.findIdx?_eq_some_iff_getElem.1 h).1

/-- The number that a word stands for is a place in a list. -/
theorem Fits.number?_lt (h : settings.Fits) {word : String} {n : Nat}
    (hn : settings.number? word = some n) : n < Text.int64Limit := by
  rw [number?, Option.or_eq_some_iff] at hn
  rcases hn with hn | ⟨-, hn⟩
  · exact (place?_lt hn).trans h.numbers
  · obtain ⟨i, hi, rfl⟩ := Option.map_eq_some_iff.1 hn
    exact (Nat.succ_le_of_lt (place?_lt hi)).trans_lt h.ordinals

/-- The bounds around an integer have 64 bits. -/
theorem isRead_integerWindow (settings : Settings) (n : Int) :
    (Literal.integer (settings.integerWindow n).1).IsRead settings ∧
      (Literal.integer (settings.integerWindow n).2).IsRead settings :=
  ⟨Literal.isRead_integer fun _ => Text.hasInt64_saturate _,
    Literal.isRead_integer fun _ => Text.hasInt64_saturate _⟩

end Settings

/-- Digits and words are read as integers of 64 bits. -/
theorem Reading.isRead_of_number? {text : String} {n : Int} (h : number? settings text = some n) :
    (Literal.integer n).IsRead settings := by
  refine Literal.isRead_integer fun hfits => ?_
  rw [number?] at h
  split at h
  · exact Text.of_readInt?_eq_some h
  · obtain ⟨k, hk, rfl⟩ := Option.map_eq_some_iff.1 h
    have := hfits.number?_lt hk
    rw [Int.ofNat_eq_natCast]
    omega

end DesktopSearch
