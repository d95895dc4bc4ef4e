import DesktopSearch.Proofs.Text.Scan
import DesktopSearch.Proofs.Xml.Escape
import DesktopSearch.Xml.Reader

/-!
# Tags read back

What `render` writes between the brackets of a tag is what the reader takes out of it: a name that
`isName`, each attribute with its value, and the mark that closes the tag. The value of an attribute may
be any text, since its quotes are written as references.
-/

namespace DesktopSearch.Xml

/-! ## Names and values -/

/-- Whether a text can be the name of an element or an attribute. -/
def isName : List Char → Bool
  | [] => false
  | c :: cs => isNameStart c && cs.all isNameChar

/-- What follows a name cannot be part of it. -/
def EndsName (rest : List Char) : Prop := ∀ c ∈ rest.head?, isNameChar c = false

/-- A name is read up to what cannot be part of it. -/
theorem readName?_append {name rest : List Char} (h : isName name = true) (hr : EndsName rest) :
    readName? (name ++ rest) = some (name, rest) := by
  cases name with
  | nil => simp [isName] at h
  | cons c cs =>
    rw [isName, Bool.and_eq_true, List.all_eq_true] at h
    rw [List.cons_append, readName?, if_pos h.1, Text.takeWhile_append_of_stop h.2 hr,
      Text.dropWhile_append_of_stop h.2 hr]

/-- A value is read up to its closing quote, since none is left inside it once it is escaped. -/
theorem readValue?_escape (cs rest : List Char) :
    readValue? ('"' :: (escape cs ++ '"' :: rest)) = some (cs, rest) := by
  have hquot : ∀ c ∈ escape cs, (c != '"') = true := fun c hc =>
    bne_iff_ne.2 fun h => not_mem_escape (Or.inr rfl) cs (h ▸ hc)
  have hend : ∀ c ∈ ('"' :: rest).head?, (c != '"') = false := by
    rintro c ⟨⟩
    decide
  rw [readValue?, if_pos (Or.inl rfl), Text.takeWhile_append_of_stop hquot hend,
    Text.dropWhile_append_of_stop hquot hend]
  simp only [unescape?_escape, Option.map_some]

/-! ## Blanks -/

theorem skipSpace_cons {c : Char} (h : isSpace c = false) (rest : List Char) :
    skipSpace (c :: rest) = c :: rest := by
  rw [skipSpace, List.dropWhile_cons, h]
  rfl

theorem isSpace_of_isNameStart {c : Char} (h : isNameStart c = true) : isSpace c = false := by
  by_contra hc
  rw [Bool.not_eq_false, isSpace] at hc
  simp only [Bool.or_eq_true, beq_iff_eq] at hc
  rcases hc with ((rfl | rfl) | rfl) | rfl <;> contradiction

/-- There is no white space to skip in front of a name. -/
theorem skipSpace_name {name : List Char} (h : isName name = true) (rest : List Char) :
    skipSpace (name ++ rest) = name ++ rest := by
  cases name with
  | nil => simp [isName] at h
  | cons c cs =>
    rw [isName, Bool.and_eq_true] at h
    rw [List.cons_append, skipSpace_cons (isSpace_of_isNameStart h.1)]

/-! ## Attributes -/

theorem toList_renderAttribute (a : String × String) : (renderAttribute a).toList =
    ' ' :: (a.1.toList ++ '=' :: '"' :: (escape a.2.toList ++ ['"'])) := by
  simp [renderAttribute]

/-- An attribute is read back from what it is written as, with the blank in front of it. -/
theorem readAttribute?_renderAttribute {a : String × String} (h : isName a.1.toList = true)
    (rest : List Char) :
    readAttribute? (skipSpace ((renderAttribute a).toList ++ rest)) = some (a, rest) := by
  have hend (cs : List Char) : EndsName ('=' :: cs) := by
    rintro c ⟨⟩
    decide
  have hskip (cs : List Char) : skipSpace (' ' :: cs) = skipSpace cs := rfl
  rw [toList_renderAttribute, List.cons_append, hskip, List.append_assoc, skipSpace_name h,
    readAttribute?, List.cons_append, readName?_append h (hend _)]
  simp [readValue?_escape]

/-- The attributes of a tag as they are written. -/
def attributesText (attributes : List (String × String)) : List Char :=
  attributes.flatMap fun a => (renderAttribute a).toList

/-- As long as there is an attribute, it is read and the others behind it. -/
theorem readAttributes_of_some {cs rest : List Char} {a : String × String}
    (h : readAttribute? (skipSpace cs) = some (a, rest)) :
    readAttributes cs = (a :: (readAttributes rest).1, (readAttributes rest).2) := by
  rw [readAttributes]
  split
  · rename_i heq
    rw [h] at heq
    obtain ⟨rfl, rfl⟩ := Prod.mk.inj (Option.some.inj heq)
    rfl
  · rename_i heq
    rw [h] at heq
    contradiction

/-- Attributes end where none can be read. -/
theorem readAttributes_of_none {cs : List Char} (h : readAttribute? (skipSpace cs) = none) :
    readAttributes cs = ([], skipSpace cs) := by
  rw [readAttributes]
  split
  · rename_i heq
    rw [h] at heq
    contradiction
  · rfl

/-- The marks that follow the attributes of a tag. -/
def ClosesTag (rest : List Char) : Prop := ∃ cs, rest = '>' :: cs ∨ rest = '/' :: '>' :: cs

/-- No attribute starts with the mark that closes a tag. -/
theorem ClosesTag.readAttributes {rest : List Char} (h : ClosesTag rest) :
    readAttributes rest = ([], rest) := by
  rcases h with ⟨cs, rfl | rfl⟩
  · exact readAttributes_of_none rfl
  · exact readAttributes_of_none rfl

/-- All attributes of a tag are read back, up to the mark that closes it. -/
theorem readAttributes_attributesText {attributes : List (String × String)}
    (h : ∀ a ∈ attributes, isName a.1.toList = true) {rest : List Char} (hr : ClosesTag rest) :
    readAttributes (attributesText attributes ++ rest) = (attributes, rest) := by
  induction attributes with
  | nil => exact hr.readAttributes
  | cons a attributes ih =>
    have ha := readAttribute?_renderAttribute (h a (by simp)) (attributesText attributes ++ rest)
    rw [attributesText, List.flatMap_cons, List.append_assoc, ← attributesText,
      readAttributes_of_some ha, ih fun b hb => h b (by simp [hb])]

/-! ## Tags -/

/-- The text of a tag that opens an element, between its first bracket and the mark that closes it. -/
def openingText (name : String) (attributes : List (String × String)) : List Char :=
  name.toList ++ attributesText attributes

theorem toList_renderOpening (name : String) (attributes : List (String × String)) :
    (renderOpening name attributes).toList = '<' :: openingText name attributes := by
  simp [renderOpening, openingText, attributesText, List.flatMap_map]

/-- The name of a tag ends at its first attribute, or at the mark that closes the tag. -/
theorem ClosesTag.endsName {rest : List Char} (h : ClosesTag rest)
    (attributes : List (String × String)) : EndsName (attributesText attributes ++ rest) := by
  cases attributes with
  | nil => rcases h with ⟨cs, rfl | rfl⟩ <;> rintro c ⟨⟩ <;> decide
  | cons a attributes =>
    rw [attributesText, List.flatMap_cons, toList_renderAttribute]
    rintro c ⟨⟩
    decide

/-- The name of a tag that opens an element is what the tag starts with. -/
theorem readName?_openingText {name : String} {attributes : List (String × String)}
    (h : isName name.toList = true) {rest : List Char} (hr : ClosesTag rest) :
    readName? (skipSpace (openingText name attributes ++ rest)) =
      some (name.toList, attributesText attributes ++ rest) := by
  rw [openingText, List.append_assoc, skipSpace_name h, readName?_append h (hr.endsName attributes)]

/-- A tag that opens an element does not start with the mark of a closing tag. -/
theorem openingText_ne_slash {name : String} (h : isName name.toList = true)
    (attributes : List (String × String)) (rest cs : List Char) :
    openingText name attributes ++ rest ≠ '/' :: cs := by
  rw [openingText, List.append_assoc]
  cases hname : name.toList with
  | nil => simp [hname, isName] at h
  | cons c name =>
    intro heq
    obtain rfl : c = '/' := (List.cons.inj heq).1
    simp [hname, isName, isNameStart] at h

/-- A tag that opens an element is read back, with its name and its attributes. -/
theorem readTag?_opening {name : String} {attributes : List (String × String)}
    (h : isName name.toList = true) (ha : ∀ a ∈ attributes, isName a.1.toList = true)
    (rest : List Char) : readTag? (openingText name attributes ++ '>' :: rest) =
      some (.opening name attributes, rest) := by
  have hr : ClosesTag ('>' :: rest) := ⟨rest, Or.inl rfl⟩
  rw [readTag?, readName?_openingText h hr]
  · simp [readAttributes_attributesText ha hr]
  · exact openingText_ne_slash h attributes _

/-- The tag of an element without content is read back. -/
theorem readTag?_empty {name : String} {attributes : List (String × String)}
    (h : isName name.toList = true) (ha : ∀ a ∈ attributes, isName a.1.toList = true)
    (rest : List Char) : readTag? (openingText name attributes ++ '/' :: '>' :: rest) =
      some (.empty name attributes, rest) := by
  have hr : ClosesTag ('/' :: '>' :: rest) := ⟨rest, Or.inr rfl⟩
  rw [readTag?, readName?_openingText h hr]
  · simp [readAttributes_attributesText ha hr]
  · exact openingText_ne_slash h attributes _

/-- A tag that closes an element is read back. -/
theorem readTag?_closing {name : String} (h : isName name.toList = true) (rest : List Char) :
    readTag? ('/' :: (name.toList ++ '>' :: rest)) = some (.closing name, rest) := by
  have hend : EndsName ('>' :: rest) := by
    rintro c ⟨⟩
    decide
  have hskip : skipSpace ('>' :: rest) = '>' :: rest := skipSpace_cons (by decide) rest
  rw [readTag?, skipSpace_name h, readName?_append h hend]
  simp [hskip]

end DesktopSearch.Xml
