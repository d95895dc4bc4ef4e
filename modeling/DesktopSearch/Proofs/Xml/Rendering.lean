import DesktopSearch.Proofs.Xml.Tokens

/-!
# The language of documents

An element is written as a tag that closes at once, or as its content between an opening tag and a
closing tag with its name. A document is an element with blanks around it, and may have a prolog in
front. `read?_eq_some_iff` : the reader accepts exactly these texts, with blanks after the prolog as
well, and reads each of them as the element that it is a text of.
-/

namespace DesktopSearch.Xml

/-! ## Elements -/

mutual

/-- The text of an element. -/
inductive ElementText : Xml → List Char → Prop
  | empty {name : String} {attributes : List (String × String)} {tag : List Char}
    (isTag : TagText name attributes tag) :
    ElementText (element name attributes []) ('<' :: (tag ++ ['/', '>']))
  | full {name : String} {attributes : List (String × String)} {content : List Xml}
    {tag inner before after : List Char} (isTag : TagText name attributes tag)
    (inside : ContentText content inner) (space : AllSpace before) (space' : AllSpace after) :
    ElementText (element name attributes content) ('<' :: (tag ++ '>' :: (inner ++
      '<' :: '/' :: (before ++ name.toList ++ after ++ ['>']))))

/-- The text of a content : elements and runs of text, which are as long as they can be. -/
inductive ContentText : List Xml → List Char → Prop
  | nil : ContentText [] []
  | element {x : Xml} {xs : List Xml} {cs rest : List Char} (first : ElementText x cs)
    (others : ContentText xs rest) : ContentText (x :: xs) (cs ++ rest)
  | text {s : String} {xs : List Xml} {cs rest : List Char} (first : RunText s cs)
    (maximal : AtTag rest) (others : ContentText xs rest) : ContentText (text s :: xs) (cs ++ rest)

end

variable {x : Xml} {xs : List Xml} {cs rest : List Char} {ts : List Token}

theorem TagText.isName {name : String} {attributes : List (String × String)}
    (h : TagText name attributes cs) : isName name.toList = true := by
  obtain ⟨-, hname, -, -⟩ := h
  exact hname

mutual

/-- The text of an element is that of balanced tokens, whatever follows. -/
theorem ElementText.exists_tokens : ∀ {x : Xml} {cs : List Char}, ElementText x cs →
    ∀ {xs : List Xml} {ts : List Token} {rest : List Char}, Balanced xs ts → TokensText ts rest →
      ∃ us, Balanced (x :: xs) us ∧ TokensText us (cs ++ rest)
  | _, _, .empty isTag, _, _, rest, hbalanced, htokens => by
    have htext := TokensText.tag (.empty isTag) htokens
    exact ⟨_, .empty _ _ hbalanced, by simpa using htext⟩
  | _, _, .full isTag inside space space', _, _, rest, hbalanced, htokens => by
    obtain ⟨us, hus, hinside⟩ := inside.exists_tokens
    have hclosing := TokensText.tag (.closing space isTag.isName space') htokens
    have htext := TokensText.tag (.opening isTag) (hinside.append hclosing (atTag_cons _))
    exact ⟨_, .full _ _ hus hbalanced, by simpa using htext⟩

/-- The text of a content is that of balanced tokens. -/
theorem ContentText.exists_tokens : ∀ {xs : List Xml} {cs : List Char}, ContentText xs cs →
    ∃ ts, Balanced xs ts ∧ TokensText ts cs
  | _, _, .nil => ⟨[], .nil, .nil⟩
  | _, _, .element first others => by
    obtain ⟨ts, hbalanced, htokens⟩ := others.exists_tokens
    exact first.exists_tokens hbalanced htokens
  | _, _, .text first maximal others => by
    obtain ⟨ts, hbalanced, htokens⟩ := others.exists_tokens
    exact ⟨_, .text _ hbalanced, .text first maximal htokens⟩

end

/-- The text of balanced tokens is that of the content that they make up. -/
theorem Balanced.contentText (h : Balanced xs ts) (hcs : TokensText ts cs) : ContentText xs cs := by
  induction h generalizing cs with
  | nil =>
    cases hcs
    exact .nil
  | text s _ ih =>
    cases hcs with
    | tag first _ => nomatch first
    | text first maximal others => exact .text first maximal (ih others)
  | empty name attributes _ ih =>
    cases hcs with
    | tag first others =>
      cases first with
      | empty isTag => exact .element (.empty isTag) (ih others)
  | full name attributes _ _ ih ih' =>
    cases hcs with
    | tag first others =>
      cases first with
      | opening isTag =>
        -- The text is cut where the closing tag starts, since a run of text never reaches into a tag.
        obtain ⟨inner, after, rfl, hinner, hafter⟩ := others.exists_of_append
        cases hafter with
        | tag closing following =>
          cases closing with
          | closing space _ space' =>
            have hall := ContentText.element (.full isTag (ih hinner) space space') (ih' following)
            simpa using hall

/-- The texts of an element are those of the tokens that are put together to it. -/
theorem elementText_iff :
    ElementText x cs ↔ ∃ ts, tokens? cs = some ts ∧ build? ts [] = some x := by
  simp only [tokens?_eq_some_iff, build?_eq_some_iff]
  constructor
  · intro h
    obtain ⟨ts, hbalanced, htokens⟩ := h.exists_tokens .nil .nil
    rw [List.append_nil] at htokens
    have hx : x.isElement = true := by cases h <;> rfl
    exact ⟨ts, htokens, hx, hbalanced⟩
  · rintro ⟨ts, htokens, hx, hbalanced⟩
    cases hbalanced.contentText htokens with
    | element first others =>
      cases others
      rwa [List.append_nil]
    | text => simp [isElement] at hx

/-- What is written for a tidy element is a text of it. -/
theorem IsTidy.elementText (h : x.IsTidy) (hx : x.isElement = true) :
    ElementText x x.render.toList := by
  have htokens := h.tokens?_eq hx
  cases x with
  | text s => simp [isElement] at hx
  | element name attributes content =>
    exact elementText_iff.2 ⟨_, htokens, build?_root name attributes content⟩

/-- The text of an element starts and ends with a bracket, and is not that of a prolog. -/
theorem ElementText.exists_eq (h : ElementText x cs) :
    ∃ c ds, cs = '<' :: c :: (ds ++ ['>']) ∧ c ≠ '?' := by
  have hstart {name : String} {attributes : List (String × String)} {tag : List Char}
      (h : TagText name attributes tag) : ∃ c ds, tag = c :: ds ∧ c ≠ '?' := by
    obtain ⟨c, ds, rfl, hc⟩ := h.exists_cons
    refine ⟨c, ds, rfl, ?_⟩
    rintro rfl
    rcases hc with hc | hc <;> contradiction
  cases h with
  | empty isTag =>
    obtain ⟨c, ds, rfl, hc⟩ := hstart isTag
    exact ⟨c, ds ++ ['/'], by simp, hc⟩
  | @full name _ _ _ inner before after isTag =>
    obtain ⟨c, ds, rfl, hc⟩ := hstart isTag
    exact ⟨c, ds ++ '>' :: (inner ++ '<' :: '/' :: (before ++ name.toList ++ after)),
      by simp, hc⟩

/-! ## Documents -/

/-- The text of a prolog, which ends where the first mark of its end is. -/
inductive PrologText : List Char → Prop
  | intro {inner : List Char} (unmarked : ¬ ['?', '>'] <:+: inner) :
    PrologText ('<' :: '?' :: (inner ++ ['?', '>']))

/-- The text in front of the root of a document : blanks, and maybe a prolog followed by `between`. -/
inductive FrontText (between : List Char) : List Char → Prop
  | blanks {before : List Char} (space : AllSpace before) : FrontText between before
  | prolog {before prolog : List Char} (space : AllSpace before) (isProlog : PrologText prolog) :
    FrontText between (before ++ prolog ++ between)

/-- The text of a document, with `between` after its prolog. -/
inductive DocumentText (between : List Char) (x : Xml) : List Char → Prop
  | intro {front root after : List Char} (isFront : FrontText between front)
    (isRoot : ElementText x root) (space : AllSpace after) :
    DocumentText between x (front ++ root ++ after)

theorem dropThrough?_eq_some_iff : dropThrough? cs = some rest ↔
    ∃ inner, cs = inner ++ '?' :: '>' :: rest ∧ ¬ ['?', '>'] <:+: inner := by
  fun_induction dropThrough? cs with
  | case1 cs =>
    rw [Option.some.injEq]
    constructor
    · rintro rfl
      exact ⟨[], rfl, by simp⟩
    · rintro ⟨inner, heq, hinner⟩
      match inner with
      | [] => simpa using heq
      | [c] => simp at heq
      | c :: d :: inner =>
        obtain ⟨rfl, rfl, -⟩ : '?' = c ∧ '>' = d ∧ _ := by simpa using heq
        exact absurd (List.prefix_append ['?', '>'] inner).isInfix hinner
  | case2 c cs hmark ih =>
    rw [ih]
    constructor
    · rintro ⟨inner, rfl, hinner⟩
      refine ⟨c :: inner, rfl, fun hmem => ?_⟩
      rcases List.infix_cons_iff.1 hmem with hmem | hmem
      · obtain ⟨rfl, inner, rfl⟩ := List.cons_prefix_cons.1 hmem
        exact hmark _ rfl rfl
      · exact hinner hmem
    · rintro ⟨inner, heq, hinner⟩
      cases inner with
      | nil =>
        obtain ⟨rfl, rfl⟩ := List.cons.inj heq
        exact absurd rfl (hmark rest rfl)
      | cons d inner =>
        obtain ⟨rfl, rfl⟩ := List.cons.inj heq
        exact ⟨inner, rfl, fun hmem => hinner (List.infix_cons hmem)⟩
  | case3 => simp

theorem PrologText.skipProlog? (h : PrologText cs) (rest : List Char) :
    skipProlog? (cs ++ rest) = some rest := by
  obtain @⟨inner, hinner⟩ := h
  exact dropThrough?_eq_some_iff.2 ⟨inner, by simp, hinner⟩

theorem PrologText.skipSpace_append (h : PrologText cs) (rest : List Char) :
    skipSpace (cs ++ rest) = cs ++ rest := by
  obtain ⟨-⟩ := h
  exact skipSpace_cons (by decide) _

/-- A text goes on as itself unless it starts with a prolog. -/
theorem skipProlog?_eq_some (h : Xml.skipProlog? cs = some rest) :
    cs = rest ∨ ∃ prolog, PrologText prolog ∧ cs = prolog ++ rest := by
  unfold Xml.skipProlog? at h
  split at h
  · obtain ⟨inner, rfl, hinner⟩ := dropThrough?_eq_some_iff.1 h
    exact Or.inr ⟨_, .intro hinner, by simp⟩
  · exact Or.inl (Option.some.inj h)

/-- The blanks, the prolog and what comes after it are skipped up to the root. -/
theorem FrontText.exists_skip {between front root : List Char} (h : FrontText between front)
    (hroot : ElementText x root) (rest : List Char) :
    ∃ blanks, (blanks = [] ∨ blanks = between) ∧
      Xml.skipProlog? (skipSpace (front ++ (root ++ rest))) = some (blanks ++ (root ++ rest)) := by
  cases h with
  | blanks space =>
    refine ⟨[], Or.inl rfl, ?_⟩
    obtain ⟨c, ds, rfl, hc⟩ := hroot.exists_eq
    rw [space.skipSpace_append, List.cons_append, skipSpace_cons (by decide), Xml.skipProlog?]
    · rfl
    · rintro after heq
      exact hc (List.cons.inj (List.cons.inj heq).2).1
  | prolog space isProlog =>
    refine ⟨between, Or.inr rfl, ?_⟩
    rw [List.append_assoc, List.append_assoc, space.skipSpace_append, isProlog.skipSpace_append,
      isProlog.skipProlog?]

theorem dropLastSpace_append {blanks : List Char} (h : AllSpace blanks) (cs : List Char) :
    dropLastSpace (cs ++ blanks) = dropLastSpace cs := by
  rw [dropLastSpace, dropLastSpace, List.reverse_append,
    List.dropWhile_append_of_pos fun c hc => h c (List.mem_reverse.1 hc)]

theorem exists_dropLastSpace_append_allSpace (cs : List Char) :
    ∃ blanks, AllSpace blanks ∧ cs = dropLastSpace cs ++ blanks := by
  obtain ⟨blanks, hblanks, hcs⟩ := exists_allSpace_append_skipSpace cs.reverse
  refine ⟨blanks.reverse, fun c hc => hblanks c (List.mem_reverse.1 hc), ?_⟩
  rw [dropLastSpace, ← skipSpace, ← List.reverse_append, ← hcs, List.reverse_reverse]

/-- A document is read as the element that it is a text of, blanks after its prolog or not. -/
theorem DocumentText.read? {between : List Char} (h : DocumentText between x cs)
    (hbetween : AllSpace between) : read? cs = some x := by
  obtain @⟨front, root, after, hfront, hroot, hafter⟩ := h
  obtain ⟨ts, htokens, hbuild⟩ := elementText_iff.1 hroot
  obtain ⟨blanks, hblanks, hskip⟩ := hfront.exists_skip hroot []
  obtain ⟨c, ds, hds, -⟩ := hroot.exists_eq
  have hend : dropLastSpace (front ++ root ++ after) = front ++ root := by
    rw [dropLastSpace_append hafter, hds, ← List.cons_append, ← List.cons_append,
      ← List.append_assoc, dropLastSpace_concat _ (by decide)]
  have hstart : skipSpace (blanks ++ root) = root := by
    have hspace : AllSpace blanks := by
      rcases hblanks with rfl | rfl
      · exact .nil
      · exact hbetween
    rw [hspace.skipSpace_append, hds, skipSpace_cons (by decide)]
  rw [List.append_nil] at hskip
  rw [Xml.read?, hend, hskip, Option.bind_some, hstart, htokens, Option.bind_some, hbuild]

/-- What is read is the text of a document. -/
theorem exists_documentText (h : read? cs = some x) :
    ∃ between, AllSpace between ∧ DocumentText between x cs := by
  rw [Xml.read?] at h
  obtain ⟨rest, hskip, h⟩ := Option.bind_eq_some_iff.1 h
  have hroot : ElementText x (skipSpace rest) := elementText_iff.2 (Option.bind_eq_some_iff.1 h)
  obtain ⟨after, hafter, hcs⟩ := exists_dropLastSpace_append_allSpace cs
  obtain ⟨before, hbefore, hfront⟩ := exists_allSpace_append_skipSpace (dropLastSpace cs)
  obtain ⟨between, hbetween, hrest⟩ := exists_allSpace_append_skipSpace rest
  rcases skipProlog?_eq_some hskip with heq | ⟨prolog, hprolog, heq⟩
  · have hblanks : FrontText [] (before ++ between) := .blanks (hbefore.append hbetween)
    have htext := DocumentText.intro hblanks hroot hafter
    rw [List.append_assoc before, ← hrest, ← heq, ← hfront, ← hcs] at htext
    exact ⟨[], .nil, htext⟩
  · have hprolog : FrontText between (before ++ prolog ++ between) := .prolog hbefore hprolog
    have htext := DocumentText.intro hprolog hroot hafter
    rw [List.append_assoc _ between, ← hrest, List.append_assoc before, ← heq, ← hfront,
      ← hcs] at htext
    exact ⟨between, hbetween, htext⟩

/-- A text is read as an element if it is the text of a document with that root, possibly with blanks
after the prolog. -/
theorem read?_eq_some_iff : read? cs = some x ↔
    ∃ between, AllSpace between ∧ DocumentText between x cs :=
  ⟨exists_documentText, fun ⟨_, hbetween, h⟩ => h.read? hbetween⟩

/-- A blank after the prolog is not part of a document with nothing there: no root starts with one. -/
theorem not_documentText_of_blank {prolog : List Char} (hprolog : PrologText prolog) {c : Char}
    (hc : isSpace c = true) : ¬ DocumentText [] x (prolog ++ c :: rest) := by
  intro h
  generalize htext : prolog ++ c :: rest = text at h
  obtain @⟨front, root, after, hfront, hroot, -⟩ := h
  obtain ⟨blanks, hblanks, hskip⟩ := hfront.exists_skip hroot after
  obtain rfl : blanks = [] := by simpa using hblanks
  rw [← List.append_assoc, ← htext, hprolog.skipSpace_append, hprolog.skipProlog?] at hskip
  obtain ⟨d, ds, rfl, -⟩ := hroot.exists_eq
  obtain rfl : c = '<' := (List.cons.inj (Option.some.inj hskip)).1
  contradiction

/-- A blank after the prolog is read, although a document with nothing there does not have it. -/
theorem read?_blank_after_prolog :
    read? "<?x?> <literal>a</literal>".toList = some (element "literal" [] [text "a"]) ∧
      ¬ DocumentText [] (element "literal" [] [text "a"]) "<?x?> <literal>a</literal>".toList := by
  have hprolog : PrologText "<?x?>".toList := by
    have hinner : ¬ ['?', '>'] <:+: ['x'] := by decide
    exact .intro hinner
  have hblank : AllSpace [' '] := by simp [AllSpace, isSpace]
  have htidy : IsTidy (element "literal" [] [text "a"]) :=
    .element _ _ _ rfl (by simp) (by simpa using .text "a" (by decide)) (List.isChain_singleton _)
  have hroot : ElementText (element "literal" [] [text "a"]) "<literal>a</literal>".toList :=
    htidy.elementText rfl
  have hdocument : DocumentText [' '] (element "literal" [] [text "a"])
      "<?x?> <literal>a</literal>".toList := .intro (.prolog .nil hprolog) hroot .nil
  exact ⟨hdocument.read? hblank, not_documentText_of_blank hprolog rfl⟩

end DesktopSearch.Xml
