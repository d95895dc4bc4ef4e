import DesktopSearch.Proofs.Calendar.Instant
import DesktopSearch.Proofs.Text.Digit

/-!
# Instants read back

`Instant.text` leaves the fraction of a second out, and `Instant.read?` gives back the rest, the instant
`withoutFraction` : the second of every minute and the leap second after it, in every year of the
calendar. Each field of the text has a lemma that reads it off whatever follows, and they are put
together in the order of the text.
-/

namespace DesktopSearch.Instant

/-- The start of the second that the instant lies in; a leap second is a second of its own. -/
def withoutFraction (t : Instant) : Instant :=
  { t with
    nano := if t.isLeap then nanosPerSecond else 0
    nano_lt := by split <;> decide
    leap := by
      intro h
      split at h
      · rename_i hleap
        exact t.leap (of_decide_eq_true hleap)
      · contradiction }

/-- A leap second is one without its fraction, too. -/
theorem isLeap_withoutFraction (t : Instant) : t.withoutFraction.isLeap = t.isLeap := by
  have hnano : t.withoutFraction.nano = if t.isLeap then nanosPerSecond else 0 := rfl
  rw [isLeap, hnano]
  cases t.isLeap <;> decide

theorem withoutFraction_withoutFraction (t : Instant) :
    t.withoutFraction.withoutFraction = t.withoutFraction := by
  have h := t.isLeap_withoutFraction
  simp only [withoutFraction] at h ⊢
  simp only [h]

/-! ## Digits -/

theorem toList_padded (width n : Nat) : (padded width n).toList =
    List.replicate (width - (toString n).toList.length) '0' ++ (toString n).toList := by
  rw [padded, String.toList_ofList]

theorem isDigit_of_mem_padded {width n : Nat} {c : Char} (h : c ∈ (padded width n).toList) :
    c.isDigit = true := by
  rw [toList_padded, List.mem_append] at h
  rcases h with h | h
  · rw [List.eq_of_mem_replicate h]
    decide
  · exact Text.isDigit_of_mem_toString h

/-- Leading zeros do not count. -/
theorem digitsValue_padded (width n : Nat) : Text.digitsValue (padded width n).toList = n := by
  rw [toList_padded, Text.digitsValue_zeros_append, Text.digitsValue_toString]

/-- A number that fits the width is written with exactly that many digits. -/
theorem length_padded {width n : Nat} (hw : 0 < width) (h : n < Nat.pow 10 width) :
    (padded width n).toList.length = width := by
  have hlen : (toString n).toList.length ≤ width := by
    rw [Nat.toString_eq_repr, Nat.toList_repr]
    exact (Nat.length_toDigits_le_iff (by decide) hw).2 h
  rw [toList_padded, List.length_append, List.length_replicate]
  omega

theorem padded_ne_nil (width n : Nat) : (padded width n).toList ≠ [] := by
  rw [toList_padded]
  exact List.append_ne_nil_of_right_ne_nil _ (Text.toString_toList_ne_nil n)

/-- What follows a number does not start with a digit. -/
def EndsNumber (rest : List Char) : Prop := ∀ c ∈ rest.head?, c.isDigit = false

/-- A padded number is read up to what ends it, if its digits are not too many. -/
theorem readDigits?_padded {most width n : Nat} (h : (padded width n).toList.length ≤ most)
    {rest : List Char} (hr : EndsNumber rest) :
    readDigits? most ((padded width n).toList ++ rest) = some (n, rest) := by
  have hstop : EndsNumber (rest.take (most - (padded width n).toList.length)) := by
    intro c hc
    rw [List.head?_take] at hc
    split at hc
    · simp at hc
    · exact hr c hc
  have hdigits : (((padded width n).toList ++ rest).take most).takeWhile Char.isDigit =
      (padded width n).toList := by
    rw [List.take_append, List.take_of_length_le h,
      Text.takeWhile_append_of_stop (fun c hc => isDigit_of_mem_padded hc) hstop]
  rw [readDigits?, hdigits, if_neg (by simpa using padded_ne_nil width n), digitsValue_padded,
    List.drop_left]

theorem dropWhile_isBlank_padded (width n : Nat) (rest : List Char) :
    ((padded width n).toList ++ rest).dropWhile Text.isBlank = (padded width n).toList ++ rest := by
  cases h : (padded width n).toList with
  | nil => exact absurd h (padded_ne_nil width n)
  | cons c cs =>
    have hc : c.isDigit = true := isDigit_of_mem_padded (h ▸ List.mem_cons_self)
    rw [List.cons_append, List.dropWhile_cons, Text.isBlank_of_isDigit hc]
    rfl

/-- A field of two digits. -/
theorem readField?_padded {n : Nat} (h : n < 100) {rest : List Char} (hr : EndsNumber rest) :
    readField? 2 ((padded 2 n).toList ++ rest) = some (n, rest) := by
  rw [readField?, dropWhile_isBlank_padded,
    readDigits?_padded (Nat.le_of_eq (length_padded (by decide) h)) hr]

/-! ## Dates -/

theorem endsNumber_cons {c : Char} (h : c.isDigit = false) (rest : List Char) :
    EndsNumber (c :: rest) := by
  rintro d ⟨⟩
  exact h

/-- A year of four digits has no sign. -/
theorem readYear?_unsigned {n : Nat} (h : n < 10000) {rest : List Char} (hr : EndsNumber rest) :
    readYear? ((padded 4 n).toList ++ rest) = some ((n : Int), rest) := by
  have hsign (c : Char) (hc : c.isDigit = false) (cs : List Char) :
      (padded 4 n).toList ++ rest ≠ c :: cs := by
    cases hpad : (padded 4 n).toList with
    | nil => exact absurd hpad (padded_ne_nil 4 n)
    | cons d ds =>
      have hd : d.isDigit = true := isDigit_of_mem_padded (hpad ▸ List.mem_cons_self)
      intro heq
      rw [(List.cons.inj heq).1] at hd
      exact Bool.eq_false_iff.1 hc hd
  rw [readYear?, dropWhile_isBlank_padded]
  split
  · rename_i heq
    exact absurd heq (hsign '-' (by decide) _)
  · rename_i heq
    exact absurd heq (hsign '+' (by decide) _)
  · rw [readDigits?_padded (Nat.le_of_eq (length_padded (by decide) h)) hr, Option.map_some]

/-- Every year is read back, be it of four digits, longer or negative. -/
theorem readYear?_yearText (year : Int) {rest : List Char} (hr : EndsNumber rest) :
    readYear? ((yearText year).toList ++ rest) = some (year, rest) := by
  have hlen : (padded 4 year.natAbs).toList.length ≤
      ((padded 4 year.natAbs).toList ++ rest).length := by simp
  rw [yearText]
  split
  · have habs : -(year.natAbs : Int) = year := by omega
    have htext : ("-" ++ padded 4 year.natAbs).toList ++ rest =
        '-' :: ((padded 4 year.natAbs).toList ++ rest) := by simp
    have hblank (cs : List Char) : ('-' :: cs).dropWhile Text.isBlank = '-' :: cs := rfl
    rw [htext, readYear?, hblank]
    simp only [readDigits?_padded hlen hr, Option.map_some, habs]
  split
  · have habs : (year.natAbs : Int) = year := by omega
    have htext : ("+" ++ padded 4 year.natAbs).toList ++ rest =
        '+' :: ((padded 4 year.natAbs).toList ++ rest) := by simp
    have hblank (cs : List Char) : ('+' :: cs).dropWhile Text.isBlank = '+' :: cs := rfl
    rw [htext, readYear?, hblank]
    simp only [readDigits?_padded hlen hr, Option.map_some, habs]
  · have habs : (year.natAbs : Int) = year := by omega
    rw [readYear?_unsigned (by omega) hr, habs]

/-- Every date is read back from its text. -/
theorem readDate?_dateText (d : Date) {rest : List Char} (hr : EndsNumber rest) :
    readDate? ((dateText d).toList ++ rest) = some (d, rest) := by
  have hmonth : d.month < 100 := by have := d.month_le; omega
  have hday : d.day < 100 := by have := d.day_le_31; omega
  have hdash (cs : List Char) : EndsNumber ('-' :: cs) := endsNumber_cons (by decide) cs
  have htext : (dateText d).toList ++ rest = (yearText d.year).toList ++
      '-' :: ((padded 2 d.month).toList ++ '-' :: ((padded 2 d.day).toList ++ rest)) := by
    simp [dateText]
  rw [htext, readDate?, readYear?_yearText _ (hdash _)]
  simp [readMark?, readField?_padded hmonth (hdash _), readField?_padded hday hr,
    Date.ofYmd?_self]

/-! ## Times -/

/-- The second that is written leads back to the second of the day. -/
theorem ofParts?_written (t : Instant) :
    (if t.secondOfMinute + (if t.isLeap then 1 else 0) = 60 then
        ofParts? t.date (3600 * t.hour + 60 * t.minute + 59) (nanosPerSecond + 0)
      else ofParts? t.date
        (3600 * t.hour + 60 * t.minute + (t.secondOfMinute + if t.isLeap then 1 else 0)) 0) =
      some t.withoutFraction := by
  have hsum : 3600 * t.hour + 60 * t.minute + t.secondOfMinute = t.second := by
    rw [hour, minute, secondOfMinute]
    omega
  rw [← ofParts?_self t.withoutFraction]
  by_cases hleap : t.isLeap = true
  · have hlast : t.secondOfMinute = 59 := t.leap (of_decide_eq_true hleap)
    rw [hlast] at hsum
    simp [hleap, hlast, hsum, withoutFraction]
  · have hlt : t.secondOfMinute ≠ 60 := by rw [secondOfMinute]; omega
    simp [hleap, hlt, hsum, withoutFraction]

/-- The time of day is read back, and a leap second as the sixtieth. -/
theorem readTime?_text (t : Instant) :
    readTime? t.date ((padded 2 t.hour).toList ++ ':' :: ((padded 2 t.minute).toList ++
      ':' :: (padded 2 (t.secondOfMinute + if t.isLeap then 1 else 0)).toList)) =
      some t.withoutFraction := by
  have hhour := t.hour_lt
  have hminute := t.minute_lt
  have hsecond : t.secondOfMinute + (if t.isLeap then 1 else 0) < 61 := by
    rw [secondOfMinute]
    split <;> omega
  have hcolon (cs : List Char) : EndsNumber (':' :: cs) := endsNumber_cons (by decide) cs
  have hnil : EndsNumber [] := by simp [EndsNumber]
  have hlast := readField?_padded (Nat.lt_trans hsecond (by decide)) hnil
  rw [List.append_nil] at hlast
  have hrange : (decide (23 < t.hour) || decide (59 < t.minute) ||
      decide (60 < t.secondOfMinute + if t.isLeap then 1 else 0)) = false := by
    simp only [Bool.or_eq_false_iff, decide_eq_false_iff_not]
    omega
  rw [readTime?, readField?_padded (by omega) (hcolon _)]
  simp only [Option.bind_eq_bind, Option.bind_some, readMark?, if_true,
    readField?_padded (show t.minute < 100 by omega) (hcolon _), hlast, readFraction?, hrange]
  exact ofParts?_written t

/-! ## Instants -/

theorem toList_text (t : Instant) : t.text.toList = (dateText t.date).toList ++ 'T' ::
    ((padded 2 t.hour).toList ++ ':' :: ((padded 2 t.minute).toList ++
      ':' :: (padded 2 (t.secondOfMinute + if t.isLeap then 1 else 0)).toList)) := by
  simp [text]

/-- The characters of the text of an instant. -/
def IsMark (c : Char) : Prop := c.isDigit = true ∨ c = '-' ∨ c = '+' ∨ c = 'T' ∨ c = ':'

theorem isMark_of_mem_padded {width n : Nat} {c : Char} (h : c ∈ (padded width n).toList) :
    IsMark c :=
  Or.inl (isDigit_of_mem_padded h)

theorem isMark_of_mem_yearText {year : Int} {c : Char} (h : c ∈ (yearText year).toList) :
    IsMark c := by
  rw [yearText] at h
  split at h
  · rw [String.toList_append, List.mem_append] at h
    exact h.elim (fun h => Or.inr (Or.inl (by simpa using h))) isMark_of_mem_padded
  split at h
  · rw [String.toList_append, List.mem_append] at h
    exact h.elim (fun h => Or.inr (Or.inr (Or.inl (by simpa using h)))) isMark_of_mem_padded
  · exact isMark_of_mem_padded h

theorem isMark_of_mem_dateText {d : Date} {c : Char} (h : c ∈ (dateText d).toList) : IsMark c := by
  simp only [dateText, String.toList_append, List.mem_append] at h
  rcases h with (((h | h) | h) | h) | h
  · exact isMark_of_mem_yearText h
  · exact Or.inr (Or.inl (by simpa using h))
  · exact isMark_of_mem_padded h
  · exact Or.inr (Or.inl (by simpa using h))
  · exact isMark_of_mem_padded h

theorem isMark_of_mem_text {t : Instant} {c : Char} (h : c ∈ t.text.toList) : IsMark c := by
  simp only [toList_text, List.mem_append, List.mem_cons] at h
  rcases h with h | rfl | h | rfl | h | rfl | h
  · exact isMark_of_mem_dateText h
  · simp [IsMark]
  · exact isMark_of_mem_padded h
  · simp [IsMark]
  · exact isMark_of_mem_padded h
  · simp [IsMark]
  · exact isMark_of_mem_padded h

/-- What stands in an instant is no white space. -/
theorem IsMark.isBlank {c : Char} (h : IsMark c) : Text.isBlank c = false := by
  rcases h with h | rfl | rfl | rfl | rfl
  · exact Text.isBlank_of_isDigit h
  all_goals decide

theorem IsMark.ne_universal {c : Char} (h : IsMark c) : c ≠ 'Z' := by
  rintro rfl
  rcases h with h | h | h | h | h <;> simp at h

/-- Reading an instant back leaves out its fraction of a second. -/
theorem read?_text (t : Instant) : read? t.text.toList = some t.withoutFraction := by
  have htrim : Text.trim t.text.toList = t.text.toList :=
    Text.trim_eq_self fun c hc => (isMark_of_mem_text hc).isBlank
  have huniversal : t.text.toList.reverse.dropWhile (· == 'Z') = t.text.toList.reverse := by
    refine List.dropWhile_eq_self_iff.2 fun hl h => ?_
    have hmem := List.mem_reverse.1 (List.getElem_mem hl)
    exact (isMark_of_mem_text hmem).ne_universal (beq_iff_eq.1 h)
  have hnext (cs : List Char) : EndsNumber ('T' :: cs) := endsNumber_cons (by decide) cs
  rw [read?, htrim, huniversal, List.reverse_reverse, toList_text,
    readDate?_dateText t.date (hnext _)]
  simp only [Option.bind_eq_bind, Option.bind_some, readTime?_text]

end DesktopSearch.Instant
