import DesktopSearch.Xml.Node

/-!
# Reading documents

A document is an optional prolog and one element, with blanks around them. It is cut into tags and
runs of text first (`tokens?`), which are then put together to a tree (`build?`); every closing tag
must bear the name of the element it closes.
-/

namespace DesktopSearch.Xml

/-! ## Characters -/

/-- The blanks that may stand between the parts of a tag. -/
def isSpace (c : Char) : Bool :=
  c == ' ' || c == '\t' || c == '\r' || c == '\n'

/-- The characters that a name may start with. -/
def isNameStart (c : Char) : Bool :=
  c.isAlpha || c == '_'

/-- The characters of a name. -/
def isNameChar (c : Char) : Bool :=
  c.isAlphanum || c == '_' || c == '-' || c == ':' || c == '.'

/-- The text without the blanks at its start. -/
def skipSpace (cs : List Char) : List Char :=
  cs.dropWhile isSpace

/-- Skipping white space never makes a text longer. -/
theorem length_skipSpace_le (cs : List Char) : (skipSpace cs).length ≤ cs.length :=
  (List.dropWhile_sublist _).length_le

/-! ## Tags -/

/-- A name and the text after it. -/
def readName? : List Char → Option (List Char × List Char)
  | [] => none
  | c :: cs =>
    if isNameStart c then some (c :: cs.takeWhile isNameChar, cs.dropWhile isNameChar) else none

/-- A name has a character at least, so less is left behind it. -/
theorem length_readName? {cs name rest : List Char} (h : readName? cs = some (name, rest)) :
    rest.length < cs.length := by
  cases cs with
  | nil => simp [readName?] at h
  | cons c cs =>
    simp only [readName?] at h
    split at h
    · obtain ⟨rfl, rfl⟩ := Prod.mk.inj (Option.some.inj h)
      exact Nat.lt_succ_of_le (List.dropWhile_sublist _).length_le
    · simp at h

/-- A value between quotes of either kind and the text after it. -/
def readValue? : List Char → Option (List Char × List Char)
  | [] => none
  | q :: cs =>
    if q = '"' ∨ q = '\'' then
      match cs.dropWhile (· != q) with
      | _ :: rest => (unescape? (cs.takeWhile (· != q))).map fun value => (value, rest)
      | [] => none
    else none

theorem length_readValue? {cs value rest : List Char} (h : readValue? cs = some (value, rest)) :
    rest.length < cs.length := by
  cases cs with
  | nil => simp [readValue?] at h
  | cons q cs =>
    simp only [readValue?] at h
    split at h
    · have hl := (List.dropWhile_sublist (l := cs) (· != q)).length_le
      split at h
      · rename_i after heq
        obtain ⟨_, _, h⟩ := Option.map_eq_some_iff.1 h
        obtain ⟨-, rfl⟩ := Prod.mk.inj h
        rw [heq] at hl
        simp only [List.length_cons] at hl ⊢
        omega
      · simp at h
    · simp at h

/-- An attribute and the text after it. -/
def readAttribute? (cs : List Char) : Option ((String × String) × List Char) :=
  match readName? cs with
  | some (name, '=' :: rest) =>
    (readValue? rest).map fun (value, rest) => ((String.ofList name, String.ofList value), rest)
  | _ => none

theorem length_readAttribute? {cs rest : List Char} {a : String × String}
    (h : readAttribute? cs = some (a, rest)) : rest.length < cs.length := by
  simp only [readAttribute?] at h
  split at h
  · rename_i name after hn
    obtain ⟨⟨value, rest'⟩, hv, h⟩ := Option.map_eq_some_iff.1 h
    obtain ⟨-, rfl⟩ := Prod.mk.inj h
    have h1 := length_readName? hn
    have h2 := length_readValue? hv
    simp only [List.length_cons] at h1 ⊢
    omega
  · simp at h

/-- The attributes of a tag and the text after them, blanks around them skipped. -/
def readAttributes (cs : List Char) : List (String × String) × List Char :=
  match _h : readAttribute? (skipSpace cs) with
  | some (a, rest) =>
    let (attributes, rest) := readAttributes rest
    (a :: attributes, rest)
  | none => ([], skipSpace cs)
termination_by cs.length
decreasing_by
  exact Nat.lt_of_lt_of_le (length_readAttribute? _h) (length_skipSpace_le cs)

/-- The attributes of a tag leave no more than there was. -/
theorem length_readAttributes_le (cs : List Char) :
    (readAttributes cs).2.length ≤ cs.length := by
  fun_induction readAttributes cs with
  | case1 cs a rest h attributes rest' heq ih =>
    have h1 := length_readAttribute? h
    have h2 := length_skipSpace_le cs
    rw [heq] at ih
    simp only at ih ⊢
    omega
  | case2 cs h => exact length_skipSpace_le cs

/-! ## Tokens -/

/-- A tag or a run of text. -/
inductive Token where
  | opening (name : String) (attributes : List (String × String))
  | empty (name : String) (attributes : List (String × String))
  | closing (name : String)
  | text (content : String)

/-- A tag, from after its first bracket, and the text after it. -/
def readTag? (cs : List Char) : Option (Token × List Char) :=
  match cs with
  | '/' :: rest =>
    match readName? (skipSpace rest) with
    | some (name, rest) =>
      match skipSpace rest with
      | '>' :: rest => some (.closing (String.ofList name), rest)
      | _ => none
    | none => none
  | _ =>
    match readName? (skipSpace cs) with
    | some (name, rest) =>
      match readAttributes rest with
      | (attributes, '>' :: rest) => some (.opening (String.ofList name) attributes, rest)
      | (attributes, '/' :: '>' :: rest) => some (.empty (String.ofList name) attributes, rest)
      | _ => none
    | none => none

/-- A tag uses up some of the text, so the tokens of a text come to an end. -/
theorem length_readTag? {cs rest : List Char} {t : Token} (h : readTag? cs = some (t, rest)) :
    rest.length < cs.length := by
  unfold readTag? at h
  split at h
  · rename_i after
    split at h
    · rename_i name r hn
      have h1 := length_readName? hn
      have h2 := length_skipSpace_le after
      have h3 := length_skipSpace_le r
      split at h
      · rename_i r' hr
        obtain ⟨-, rfl⟩ := Prod.mk.inj (Option.some.inj h)
        rw [hr] at h3
        simp only [List.length_cons] at h3 ⊢
        omega
      · simp at h
    · simp at h
  · split at h
    · rename_i name r hn
      have h1 := length_readName? hn
      have h2 := length_skipSpace_le cs
      have h3 := length_readAttributes_le r
      split at h
      · rename_i attributes r' hr
        obtain ⟨-, rfl⟩ := Prod.mk.inj (Option.some.inj h)
        rw [hr] at h3
        simp only [List.length_cons] at h3
        omega
      · rename_i attributes r' hr
        obtain ⟨-, rfl⟩ := Prod.mk.inj (Option.some.inj h)
        rw [hr] at h3
        simp only [List.length_cons] at h3
        omega
      · simp at h
    · simp at h

/-- The tags and the runs of text of a document. -/
def tokens? (cs : List Char) : Option (List Token) :=
  match cs with
  | [] => some []
  | c :: cs =>
    if c = '<' then
      match _h : readTag? cs with
      | some (t, rest) => (tokens? rest).map (t :: ·)
      | none => none
    else
      (unescape? (c :: cs.takeWhile (· != '<'))).bind fun s =>
        (tokens? (cs.dropWhile (· != '<'))).map (.text (String.ofList s) :: ·)
termination_by cs.length
decreasing_by
  · exact Nat.lt_succ_of_lt (length_readTag? _h)
  · exact Nat.lt_succ_of_le (List.dropWhile_sublist _).length_le

/-! ## Trees -/

/-- An element that is not closed yet, with its content so far, the last piece first. -/
structure Unclosed where
  name : String
  attributes : List (String × String)
  content : List Xml

/-- Adds a piece to the content of an element. -/
def Unclosed.add (o : Unclosed) (x : Xml) : Unclosed :=
  { o with content := x :: o.content }

/-- The element once it is closed. -/
def Unclosed.close (o : Unclosed) : Xml :=
  element o.name o.attributes o.content.reverse

/-- The finished root element, if nothing follows it. -/
def finish? (root : Xml) : List Token → Option Xml
  | [] => some root
  | _ :: _ => none

/-- Puts tokens together to the root element, inside the elements that are open, the innermost
first. -/
def build? : List Token → List Unclosed → Option Xml
  | [], _ => none
  | .opening name attributes :: ts, os => build? ts (⟨name, attributes, []⟩ :: os)
  | .empty name attributes :: ts, [] => finish? (element name attributes []) ts
  | .empty name attributes :: ts, o :: os => build? ts (o.add (element name attributes []) :: os)
  | .text _ :: _, [] => none
  | .text s :: ts, o :: os => build? ts (o.add (text s) :: os)
  | .closing _ :: _, [] => none
  | .closing name :: ts, [o] => if o.name = name then finish? o.close ts else none
  | .closing name :: ts, o :: p :: os =>
    if o.name = name then build? ts (p.add o.close :: os) else none

/-- The text after a mark and everything before it. -/
def dropThrough? : List Char → Option (List Char)
  | '?' :: '>' :: rest => some rest
  | _ :: rest => dropThrough? rest
  | [] => none

/-- The text after the prolog, if there is one. -/
def skipProlog? : List Char → Option (List Char)
  | '<' :: '?' :: rest => dropThrough? rest
  | cs => some cs

/-- The text without the blanks at its end. -/
def dropLastSpace (cs : List Char) : List Char :=
  (cs.reverse.dropWhile isSpace).reverse

/-- The root element of a document. -/
def read? (document : List Char) : Option Xml :=
  (skipProlog? (skipSpace (dropLastSpace document))).bind fun cs =>
    (tokens? (skipSpace cs)).bind fun ts => build? ts []

end DesktopSearch.Xml
