import DesktopSearch.Literal
import DesktopSearch.Proofs.Calendar.Text

/-!
# Literal values read back

`ofLexical?` reads the text of a literal back with the literal's own datatype. What it gives is the value
itself, except that a date comes without its fraction of a second and is known to the second. Two
things are asked of numbers : an integer has to lie in the range of 64 bits, and the text of a double has
to spell that double.
-/

namespace DesktopSearch

/-! ## Doubles -/

namespace Double

theorem isDigit_or_point_of_mem_positional {n : Nat} {e : Int} {c : Char}
    (h : c ∈ positional n e) : c.isDigit = true ∨ c = '.' := by
  have hdigits {d : Char} (hd : d ∈ (toString n).toList) : d.isDigit = true :=
    Text.isDigit_of_mem_toString hd
  have hzeros {k : Nat} {d : Char} (hd : d ∈ List.replicate k '0') : d.isDigit = true := by
    rw [List.eq_of_mem_replicate hd]
    decide
  simp only [positional] at h
  split_ifs at h
  · exact Or.inl ((List.mem_append.1 h).elim hdigits hzeros)
  · simp only [List.mem_append, List.mem_cons, List.not_mem_nil, or_false] at h
    rcases h with ((rfl | rfl) | h) | h
    · exact Or.inl (by decide)
    · exact Or.inr rfl
    · exact Or.inl (hzeros h)
    · exact Or.inl (hdigits h)
  · rw [List.mem_append, List.mem_cons] at h
    rcases h with h | rfl | h
    · exact Or.inl (hdigits (List.mem_of_mem_take h))
    · exact Or.inr rfl
    · exact Or.inl (hdigits (List.mem_of_mem_drop h))

/-- No white space is written in a decimal. -/
theorem isBlank_of_mem_positional {n : Nat} {e : Int} {c : Char} (h : c ∈ positional n e) :
    Text.isBlank c = false := by
  rcases isDigit_or_point_of_mem_positional h with h | rfl
  · exact Text.isBlank_of_isDigit h
  · decide

/-- The text of a double has no blanks. -/
theorem isBlank_of_mem_text {d : Double} {c : Char} (h : c ∈ d.text.toList) :
    Text.isBlank c = false := by
  have hword {s : String} (hs : s.toList.all (!Text.isBlank ·) = true) (hc : c ∈ s.toList) :
      Text.isBlank c = false := by simpa using List.all_eq_true.1 hs c hc
  have hsign (hc : c ∈ (if d.isNegative then "-" else "").toList) : Text.isBlank c = false := by
    split at hc
    · exact hword (by decide) hc
    · exact hword (by decide) hc
  simp only [text] at h
  split at h
  · exact hword (by decide) h
  split at h
  · rw [String.toList_append, List.mem_append] at h
    exact h.elim hsign (hword (by decide))
  split at h
  · rw [String.toList_append, List.mem_append] at h
    exact h.elim hsign (hword (by decide))
  split at h
  · rw [String.toList_append, List.mem_append, String.toList_ofList] at h
    exact h.elim hsign isBlank_of_mem_positional
  · exact hsign h

end Double

/-! ## Literals -/

namespace Literal

/-- What the text of a literal says of it: of a date, the second and the precision. -/
def recorded : Literal → Literal
  | dateTime m => dateTime ⟨m.instant.withoutFraction, m.precision⟩
  | l => l

/-- Whole numbers have 64 bits. -/
def Fits : Literal → Prop
  | integer n => -(Text.int64Limit : Int) ≤ n ∧ n < Text.int64Limit
  | _ => True

/-- The value as `read?` finds it in its text: a date is taken to be known to the second. -/
def plain : Literal → Literal
  | dateTime m => dateTime (.exact m.instant.withoutFraction)
  | l => l

/-- What is recorded of a literal is recorded as it is. -/
theorem recorded_recorded (l : Literal) : l.recorded.recorded = l.recorded := by
  cases l with
  | dateTime m => rw [recorded, recorded, Instant.withoutFraction_withoutFraction]
  | _ => rfl

theorem Fits.recorded {l : Literal} (h : l.Fits) : l.recorded.Fits := by
  cases l with
  | dateTime m => exact True.intro
  | _ => exact h

/-- The type of a literal is told from the name of its datatype. -/
theorem ofDatatype?_datatype (k : LiteralType) : LiteralType.ofDatatype? k.datatype = some k := by
  cases k <;> rfl

/-- A literal is read back from its text and its type, if doubles are spelled exactly. -/
theorem read?_text {l : Literal} (hfits : l.Fits)
    (hdouble : ∀ d, l = .double d → Double.read? d.text.toList = some d) :
    read? l.type l.text = some l.plain := by
  cases l with
  | string s => rfl
  | integer n =>
    have htrim : Text.trim (toString n).toList = (toString n).toList :=
      Text.trim_eq_self fun c hc => Text.not_isBlank_of_mem_toString_int hc
    simp only [type, text, read?, htrim, Text.readInt?_toString hfits.1 hfits.2]
    rfl
  | double d =>
    have htrim : Text.trim d.text.toList = d.text.toList :=
      Text.trim_eq_self fun c hc => Double.isBlank_of_mem_text hc
    simp only [type, text, read?, htrim, hdouble d rfl]
    rfl
  | boolean b => cases b <;> rfl
  | dateTime m =>
    simp only [type, text, read?, Moment.text, Instant.read?_text]
    rfl

theorem ofLexical?_text {l : Literal} (hfits : l.Fits)
    (hdouble : ∀ d, l = .double d → Double.read? d.text.toList = some d) :
    ofLexical? l.text (some l.datatype) = some l.plain := by
  rw [ofLexical?, Option.bind_some, datatype, ofDatatype?_datatype, Option.getD_some,
    read?_text hfits hdouble]

end Literal

end DesktopSearch
