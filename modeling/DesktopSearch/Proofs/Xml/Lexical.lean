import DesktopSearch.Proofs.Xml.Reference
import DesktopSearch.Proofs.Xml.Tag

/-!
# How tags are written

What may stand between the brackets of a tag, whoever wrote it : blanks go before the name, around
attributes and before the mark that closes the tag, and the values of attributes are in quotes of either
kind. The readers of the parts of a tag take texts of that form and nothing else
(`readName?_eq_some_iff`, `readAttribute?_eq_some_iff`, `readTag?_eq_some_iff`).
-/

namespace DesktopSearch.Xml

/-! ## Texts -/

/-- Whether a text consists of blanks. -/
def AllSpace (cs : List Char) : Prop := ∀ c ∈ cs, isSpace c = true

/-- The text of an attribute : its name and its value in quotes, with no blanks between them. -/
inductive AttributeText (a : String × String) : List Char → Prop
  | intro {quote : Char} {value : List Char} (isName : isName a.1.toList = true)
    (isQuote : quote = '"' ∨ quote = '\'') (unquoted : quote ∉ value)
    (decodes : Decodes value a.2.toList) :
    AttributeText a (a.1.toList ++ '=' :: quote :: (value ++ [quote]))

/-- The text of attributes, with blanks around them. -/
inductive AttributesText : List (String × String) → List Char → Prop
  | nil {blanks : List Char} (space : AllSpace blanks) : AttributesText [] blanks
  | cons {a : String × String} {attributes : List (String × String)} {blanks cs rest : List Char}
    (space : AllSpace blanks) (first : AttributeText a cs)
    (others : AttributesText attributes rest) :
    AttributesText (a :: attributes) (blanks ++ cs ++ rest)

/-- The text of a name with attributes, a blank at least before the first of them. -/
inductive TagText (name : String) (attributes : List (String × String)) : List Char → Prop
  | intro {blanks cs : List Char} (space : AllSpace blanks) (isName : isName name.toList = true)
    (keys : AttributesText attributes cs)
    (separated : attributes ≠ [] → ∃ c ∈ cs.head?, isSpace c = true) :
    TagText name attributes (blanks ++ name.toList ++ cs)

/-- The text of a tag after its first bracket. -/
inductive TokenText : Token → List Char → Prop
  | opening {name : String} {attributes : List (String × String)} {cs : List Char}
    (tag : TagText name attributes cs) : TokenText (.opening name attributes) (cs ++ ['>'])
  | empty {name : String} {attributes : List (String × String)} {cs : List Char}
    (tag : TagText name attributes cs) : TokenText (.empty name attributes) (cs ++ ['/', '>'])
  | closing {name : String} {before after : List Char} (space : AllSpace before)
    (isName : isName name.toList = true) (space' : AllSpace after) :
    TokenText (.closing name) ('/' :: (before ++ name.toList ++ after ++ ['>']))

variable {cs rest : List Char}

/-! ## Blanks -/

theorem AllSpace.nil : AllSpace [] := fun c hc => by simp at hc

theorem AllSpace.append (h : AllSpace cs) (h' : AllSpace rest) : AllSpace (cs ++ rest) :=
  fun c hc => (List.mem_append.1 hc).elim (h c) (h' c)

theorem exists_allSpace_append_skipSpace (cs : List Char) :
    ∃ blanks, AllSpace blanks ∧ cs = blanks ++ skipSpace cs :=
  ⟨cs.takeWhile isSpace, fun _ => List.mem_takeWhile_imp, List.takeWhile_append_dropWhile.symm⟩

theorem AllSpace.skipSpace_append (h : AllSpace cs) (rest : List Char) :
    skipSpace (cs ++ rest) = skipSpace rest := by
  rw [skipSpace, skipSpace, List.dropWhile_append_of_pos h]

/-! ## Names -/

theorem readName?_eq_some_iff {name : List Char} :
    readName? cs = some (name, rest) ↔ cs = name ++ rest ∧ isName name = true ∧ EndsName rest := by
  constructor
  · intro h
    cases cs with
    | nil => simp [readName?] at h
    | cons c cs =>
      rw [readName?] at h
      split_ifs at h with hstart
      obtain ⟨rfl, rfl⟩ := Prod.mk.inj (Option.some.inj h)
      obtain ⟨hcs, hchars, hend⟩ := Text.scan_iff.1 ⟨rfl, rfl⟩
      refine ⟨congrArg (c :: ·) hcs, ?_, hend⟩
      rw [isName, hstart, List.all_eq_true.2 hchars]
      rfl
  · rintro ⟨rfl, hname, hend⟩
    exact readName?_append hname hend

/-! ## Attributes -/

theorem readValue?_eq_some_iff {value : List Char} : readValue? cs = some (value, rest) ↔
    ∃ q quoted, cs = q :: (quoted ++ q :: rest) ∧ (q = '"' ∨ q = '\'') ∧ q ∉ quoted ∧
      Decodes quoted value := by
  constructor
  · intro h
    cases cs with
    | nil => simp [readValue?] at h
    | cons q cs =>
      rw [readValue?] at h
      split_ifs at h with hquote
      split at h
      · rename_i d after hafter
        obtain ⟨value, hvalue, heq⟩ := Option.map_eq_some_iff.1 h
        obtain ⟨rfl, rfl⟩ := Prod.mk.inj heq
        obtain ⟨hcs, hquoted, hend⟩ := Text.scan_iff.1 ⟨rfl, hafter⟩
        obtain rfl : d = q := by simpa using hend d rfl
        refine ⟨d, _, congrArg (d :: ·) hcs, hquote, fun hmem => ?_, unescape?_eq_some_iff.1 hvalue⟩
        simpa using hquoted d hmem
      · simp at h
  · rintro ⟨q, quoted, rfl, hquote, hquoted, hvalue⟩
    have hchars : ∀ c ∈ quoted, (c != q) = true := fun c hc =>
      bne_iff_ne.2 fun heq => hquoted (heq ▸ hc)
    obtain ⟨htake, hdrop⟩ := Text.scan_iff.2 ⟨rfl, hchars, (by simp : ∀ c ∈ (q :: rest).head?, _)⟩
    rw [readValue?, if_pos hquote, hdrop, htake, unescape?_eq_some_iff.2 hvalue]
    rfl

theorem endsName_eq_sign (rest : List Char) : EndsName ('=' :: rest) := by
  rintro c ⟨⟩
  decide

theorem readAttribute?_eq_some_iff {a : String × String} :
    readAttribute? cs = some (a, rest) ↔ ∃ text, cs = text ++ rest ∧ AttributeText a text := by
  constructor
  · intro h
    rw [readAttribute?] at h
    split at h
    · rename_i name after hname
      obtain ⟨⟨value, after⟩, hvalue, heq⟩ := Option.map_eq_some_iff.1 h
      obtain ⟨rfl, rfl⟩ := Prod.mk.inj heq
      obtain ⟨rfl, hkey, -⟩ := readName?_eq_some_iff.1 hname
      obtain ⟨q, quoted, rfl, hquote, hquoted, hdecodes⟩ := readValue?_eq_some_iff.1 hvalue
      refine ⟨name ++ '=' :: q :: (quoted ++ [q]), by simp, ?_⟩
      simpa using AttributeText.intro (a := (String.ofList name, String.ofList value))
        (by simpa using hkey) hquote hquoted (by simpa using hdecodes)
    · simp at h
  · rintro ⟨_, rfl, ⟨hkey, hquote, hquoted, hdecodes⟩⟩
    rename_i q quoted
    have hvalue : readValue? (q :: (quoted ++ q :: rest)) = some (a.2.toList, rest) :=
      readValue?_eq_some_iff.2 ⟨q, quoted, rfl, hquote, hquoted, hdecodes⟩
    have hname := readName?_append hkey (endsName_eq_sign (q :: (quoted ++ q :: rest)))
    have htext : a.1.toList ++ '=' :: q :: (quoted ++ [q]) ++ rest =
        a.1.toList ++ '=' :: q :: (quoted ++ q :: rest) := by simp
    rw [htext, readAttribute?, hname]
    simp [hvalue]

/-- Attributes are read to where no further one follows. -/
theorem exists_attributesText (cs : List Char) : ∃ text, cs = text ++ (readAttributes cs).2 ∧
    AttributesText (readAttributes cs).1 text := by
  fun_induction readAttributes cs with
  | case1 cs a rest h attributes rest' heq ih =>
    obtain ⟨blanks, hspace, hcs⟩ := exists_allSpace_append_skipSpace cs
    obtain ⟨first, hfirst, ha⟩ := readAttribute?_eq_some_iff.1 h
    obtain ⟨others, hothers, hattributes⟩ := ih
    rw [heq] at hothers hattributes
    refine ⟨blanks ++ first ++ others, ?_, .cons hspace ha hattributes⟩
    rw [hcs, hfirst, hothers]
    simp
  | case2 cs h =>
    obtain ⟨blanks, hspace, hcs⟩ := exists_allSpace_append_skipSpace cs
    exact ⟨blanks, hcs, .nil hspace⟩

/-- The name of an attribute ends the blanks in front of it. -/
theorem AttributeText.skipSpace_append {a : String × String} {text : List Char}
    (h : AttributeText a text) (rest : List Char) : skipSpace (text ++ rest) = text ++ rest := by
  obtain ⟨hkey, -, -, -⟩ := h
  rw [List.append_assoc, skipSpace_name hkey]

theorem ClosesTag.skipSpace_eq (h : ClosesTag rest) : skipSpace rest = rest := by
  obtain ⟨cs, rfl | rfl⟩ := h
  · exact skipSpace_cons (by decide) _
  · exact skipSpace_cons (by decide) _

/-- Attributes are read whatever blanks there are around them. -/
theorem AttributesText.readAttributes_append {attributes : List (String × String)}
    {text : List Char} (h : AttributesText attributes text) (hr : ClosesTag rest) :
    readAttributes (text ++ rest) = (attributes, rest) := by
  induction h with
  | nil space =>
    have hskip := space.skipSpace_append rest
    rw [hr.skipSpace_eq] at hskip
    have hnone : readAttribute? rest = none := by
      obtain ⟨cs, rfl | rfl⟩ := hr <;> rfl
    rw [readAttributes_of_none (by rw [hskip, hnone]), hskip]
  | @cons a attributes blanks cs others space first _ ih =>
    have hskip : skipSpace (blanks ++ cs ++ others ++ rest) = cs ++ (others ++ rest) := by
      rw [List.append_assoc, List.append_assoc, space.skipSpace_append, first.skipSpace_append]
    have hread : readAttribute? (skipSpace (blanks ++ cs ++ others ++ rest)) =
        some (a, others ++ rest) := by
      rw [hskip]
      exact readAttribute?_eq_some_iff.2 ⟨cs, rfl, first⟩
    rw [readAttributes_of_some hread, ih]

/-! ## Tags -/

theorem isNameChar_of_isNameStart {c : Char} (h : isNameStart c = true) : isNameChar c = true := by
  rw [isNameStart, Bool.or_eq_true] at h
  rw [isNameChar, Char.isAlphanum]
  rcases h with h | h <;> simp [h]

theorem isNameChar_of_isSpace {c : Char} (h : isSpace c = true) : isNameChar c = false := by
  rw [isSpace] at h
  simp only [Bool.or_eq_true, beq_iff_eq] at h
  rcases h with ((rfl | rfl) | rfl) | rfl <;> rfl

/-- What does not continue a name keeps the first attribute apart from it. -/
theorem AttributesText.separated {attributes : List (String × String)} {text : List Char}
    (h : AttributesText attributes text) (hend : EndsName (text ++ rest))
    (hne : attributes ≠ []) : ∃ c ∈ text.head?, isSpace c = true := by
  cases h with
  | nil space => contradiction
  | @cons a attributes blanks cs others space first _ =>
    cases blanks with
    -- With no blank in front, the name of the attribute would continue the name of the tag.
    | nil =>
      obtain ⟨hkey, -, -, -⟩ := first
      cases hchars : a.1.toList with
      | nil => simp [hchars, isName] at hkey
      | cons c name =>
        rw [hchars, isName, Bool.and_eq_true] at hkey
        have hc := hend c (by simp [hchars])
        rw [isNameChar_of_isNameStart hkey.1] at hc
        contradiction
    | cons c blanks => exact ⟨c, rfl, space c List.mem_cons_self⟩

theorem endsName_append_of_isSpace (h : ∃ c ∈ cs.head?, isSpace c = true) :
    EndsName (cs ++ rest) := by
  obtain ⟨c, hc, hspace⟩ := h
  intro d hd
  obtain rfl : c = d := by simpa [List.head?_append, Option.mem_def.1 hc] using hd
  exact isNameChar_of_isSpace hspace

theorem AllSpace.endsName_append (h : AllSpace cs) (hr : EndsName rest) :
    EndsName (cs ++ rest) := by
  cases cs with
  | nil => exact hr
  | cons c cs => exact endsName_append_of_isSpace ⟨c, rfl, h c List.mem_cons_self⟩

section

variable {name : String} {attributes : List (String × String)} {text : List Char}

/-- A name with attributes starts with a blank or with the name. -/
theorem TagText.exists_cons (h : TagText name attributes text) :
    ∃ c cs, text = c :: cs ∧ (isSpace c = true ∨ isNameStart c = true) := by
  obtain @⟨blanks, cs, hspace, hname, -, -⟩ := h
  cases blanks with
  | nil =>
    cases hchars : name.toList with
    | nil => simp [hchars, isName] at hname
    | cons c chars =>
      rw [hchars, isName, Bool.and_eq_true] at hname
      exact ⟨c, chars ++ cs, rfl, Or.inr hname.1⟩
  | cons c blanks => exact ⟨c, _, rfl, Or.inl (hspace c List.mem_cons_self)⟩

theorem TagText.ne_slash (h : TagText name attributes text) (cs : List Char) :
    text ++ rest ≠ '/' :: cs := by
  obtain ⟨c, chars, rfl, hc⟩ := h.exists_cons
  intro heq
  obtain rfl : c = '/' := (List.cons.inj heq).1
  rcases hc with hc | hc <;> contradiction

theorem TagText.exists_read (h : TagText name attributes text) (hr : ClosesTag rest) :
    ∃ cs, readName? (skipSpace (text ++ rest)) = some (name.toList, cs) ∧
      readAttributes cs = (attributes, rest) := by
  obtain @⟨blanks, cs, hspace, hname, hkeys, hseparated⟩ := h
  have hend : EndsName (cs ++ rest) := by
    cases hkeys with
    | nil space => exact space.endsName_append (hr.endsName [])
    | cons => exact endsName_append_of_isSpace (hseparated (List.cons_ne_nil _ _))
  refine ⟨cs ++ rest, ?_, hkeys.readAttributes_append hr⟩
  rw [List.append_assoc, List.append_assoc, hspace.skipSpace_append, skipSpace_name hname,
    readName?_append hname hend]

end

theorem tagText_of_read {name after : List Char} (h : readName? (skipSpace cs) = some (name, after)) :
    ∃ text, cs = text ++ (readAttributes after).2 ∧
      TagText (String.ofList name) (readAttributes after).1 text := by
  obtain ⟨blanks, hspace, hcs⟩ := exists_allSpace_append_skipSpace cs
  obtain ⟨hskip, hname, hend⟩ := readName?_eq_some_iff.1 h
  obtain ⟨keys, hafter, hkeys⟩ := exists_attributesText after
  rw [hafter] at hend
  have hname' : isName (String.ofList name).toList = true := by rwa [String.toList_ofList]
  have htag := TagText.intro hspace hname' hkeys (hkeys.separated hend)
  rw [String.toList_ofList] at htag
  refine ⟨_, ?_, htag⟩
  rw [hcs, hskip, List.append_assoc, List.append_assoc, ← hafter]

/-- What is read as a tag is written as one. -/
theorem exists_tokenText {t : Token} (h : readTag? cs = some (t, rest)) :
    ∃ text, cs = text ++ rest ∧ TokenText t text := by
  unfold readTag? at h
  split at h
  · rename_i cs
    split at h
    · rename_i name after hname
      split at h
      · rename_i rest' hclose
        obtain ⟨rfl, rfl⟩ := Prod.mk.inj (Option.some.inj h)
        obtain ⟨blanks, hspace, hcs⟩ := exists_allSpace_append_skipSpace cs
        obtain ⟨hskip, hname, -⟩ := readName?_eq_some_iff.1 hname
        obtain ⟨blanks', hspace', hafter⟩ := exists_allSpace_append_skipSpace after
        have hname' : isName (String.ofList name).toList = true := by
          rwa [String.toList_ofList]
        have htext := TokenText.closing hspace hname' hspace'
        rw [String.toList_ofList] at htext
        refine ⟨_, ?_, htext⟩
        rw [hcs, hskip, hafter, hclose]
        simp
      · simp at h
    · simp at h
  · split at h
    · rename_i name after hname
      obtain ⟨text, hcs, htag⟩ := tagText_of_read hname
      split at h
      · rename_i attributes after' hread
        rw [hread] at hcs htag
        obtain ⟨rfl, rfl⟩ := Prod.mk.inj (Option.some.inj h)
        exact ⟨text ++ ['>'], by simpa using hcs, .opening htag⟩
      · rename_i attributes after' hread
        rw [hread] at hcs htag
        obtain ⟨rfl, rfl⟩ := Prod.mk.inj (Option.some.inj h)
        exact ⟨text ++ ['/', '>'], by simpa using hcs, .empty htag⟩
      · simp at h
    · simp at h

/-- What is written as a tag is read whatever follows. -/
theorem TokenText.readTag?_append {t : Token} {text : List Char} (h : TokenText t text)
    (rest : List Char) : readTag? (text ++ rest) = some (t, rest) := by
  obtain htag | htag | @⟨name, before, after, hspace, hname, hspace'⟩ := h
  · obtain ⟨cs, hname, hkeys⟩ := htag.exists_read ⟨rest, Or.inl rfl⟩
    rw [List.append_assoc, List.singleton_append, readTag?, hname]
    · simp [hkeys]
    · exact htag.ne_slash
  · obtain ⟨cs, hname, hkeys⟩ := htag.exists_read ⟨rest, Or.inr rfl⟩
    rw [List.append_assoc, List.cons_append, List.singleton_append, readTag?, hname]
    · simp [hkeys]
    · exact htag.ne_slash
  · have hclose : ClosesTag ('>' :: rest) := ⟨rest, Or.inl rfl⟩
    have hend : EndsName (after ++ '>' :: rest) := hspace'.endsName_append (hclose.endsName [])
    have htext : '/' :: (before ++ name.toList ++ after ++ ['>']) ++ rest =
        '/' :: (before ++ (name.toList ++ (after ++ '>' :: rest))) := by simp
    rw [htext, readTag?, hspace.skipSpace_append, skipSpace_name hname,
      readName?_append hname hend]
    simp [hspace'.skipSpace_append, hclose.skipSpace_eq]

/-- A tag is read if it is written as one. -/
theorem readTag?_eq_some_iff {t : Token} :
    readTag? cs = some (t, rest) ↔ ∃ text, cs = text ++ rest ∧ TokenText t text :=
  ⟨exists_tokenText, fun ⟨_, hcs, h⟩ => hcs ▸ h.readTag?_append rest⟩

end DesktopSearch.Xml
