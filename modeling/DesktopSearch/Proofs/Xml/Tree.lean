import DesktopSearch.Proofs.Xml.Tag
import Mathlib.Data.List.Chain

/-!
# Documents read back

A tree `IsTidy` when its names are names, no run of text in it is empty and no two runs follow each
other : that is what a reader can tell from the text. `read?_render` : an element that is tidy reads
back from its text exactly. The text is first cut into the `tokensOf` the tree, whatever follows it,
and these are then put together again inside whatever elements are open.
-/

namespace DesktopSearch.Xml

/-! ## Trees -/

/-- Induction over trees, with the pieces of a content taken one by one. -/
@[induction_eliminator] theorem induct {p : Xml → Prop} (text : ∀ s, p (text s))
    (element : ∀ name attributes content, (∀ x ∈ content, p x) →
      p (element name attributes content)) : ∀ x, p x
  | .text s => text s
  | .element name attributes content =>
    element name attributes content fun x _ => induct text element x
termination_by x => sizeOf x
decreasing_by
  have := List.sizeOf_lt_of_mem ‹x ∈ content›
  rw [Xml.element.sizeOf_spec]
  omega

/-- One of two pieces next to each other is an element. -/
def Separate (x y : Xml) : Prop := x.isElement = true ∨ y.isElement = true

/-- A tree whose text shows all of it. -/
inductive IsTidy : Xml → Prop
  | text (s : String) (full : s ≠ "") : IsTidy (text s)
  | element (name : String) (attributes : List (String × String)) (content : List Xml)
    (isName : isName name.toList = true) (keys : ∀ a ∈ attributes, Xml.isName a.1.toList = true)
    (pieces : ∀ x ∈ content, IsTidy x) (separate : content.IsChain Separate) :
    IsTidy (element name attributes content)

theorem toList_renderAll (xs : List Xml) :
    (renderAll xs).toList = xs.flatMap fun x => x.render.toList := by
  induction xs with
  | nil => simp [renderAll]
  | cons x xs ih => rw [renderAll, String.toList_append, ih, List.flatMap_cons]

/-! ## Tokens -/

mutual

/-- The tags and the runs of text of a tree. -/
def tokensOf : Xml → List Token
  | text s => [.text s]
  | element name attributes content =>
    if content.isEmpty && closesAtOnce name then [.empty name attributes]
    else .opening name attributes :: (tokensOfAll content ++ [.closing name])

/-- The tags and the runs of text of a content. -/
def tokensOfAll : List Xml → List Token
  | [] => []
  | x :: xs => x.tokensOf ++ tokensOfAll xs

end

/-- A tag or the end of the text comes next. -/
def AtTag (rest : List Char) : Prop := ∀ c ∈ rest.head?, c = '<'

theorem atTag_cons (rest : List Char) : AtTag ('<' :: rest) := by
  rintro c ⟨⟩
  rfl

theorem tokens?_tag {cs rest : List Char} {t : Token} (h : readTag? cs = some (t, rest)) :
    tokens? ('<' :: cs) = (tokens? rest).map (t :: ·) := by
  rw [tokens?, if_pos rfl]
  split
  · rename_i heq
    rw [h] at heq
    obtain ⟨rfl, rfl⟩ := Prod.mk.inj (Option.some.inj heq)
    rfl
  · rename_i heq
    rw [h] at heq
    contradiction

/-- A run of text is cut off up to the next tag. -/
theorem tokens?_run {cs rest : List Char} {s : String} (hne : cs ≠ []) (hcs : '<' ∉ cs)
    (hread : unescape? cs = some s.toList) (hr : AtTag rest) :
    tokens? (cs ++ rest) = (tokens? rest).map (.text s :: ·) := by
  have hend : ∀ c ∈ rest.head?, (c != '<') = false := fun c hc => by rw [hr c hc]; rfl
  cases cs with
  | nil => contradiction
  | cons c cs =>
    rw [List.mem_cons, not_or] at hcs
    have htail : ∀ d ∈ cs, (d != '<') = true := fun d hd =>
      bne_iff_ne.2 fun heq => hcs.2 (heq ▸ hd)
    rw [List.cons_append, tokens?, if_neg (Ne.symm hcs.1),
      Text.takeWhile_append_of_stop htail hend, Text.dropWhile_append_of_stop htail hend, hread,
      Option.bind_some, String.ofList_toList]

theorem tokens?_text {s : String} (hs : s ≠ "") {rest : List Char} (hr : AtTag rest) :
    tokens? (escape s.toList ++ rest) = (tokens? rest).map (.text s :: ·) := by
  have hne : escape s.toList ≠ [] := by
    rw [Ne, escape_eq_nil_iff]
    simpa using hs
  exact tokens?_run hne (not_mem_escape (Or.inl rfl) s.toList) (unescape?_escape s.toList) hr

/-- The text of an element starts with a tag. -/
theorem atTag_render {x : Xml} (h : x.isElement = true) (rest : List Char) :
    AtTag (x.render.toList ++ rest) := by
  cases x with
  | text s => simp [isElement] at h
  | element name attributes content =>
    rw [render]
    split
    · rw [String.toList_append, toList_renderOpening]
      rintro c ⟨⟩
      rfl
    · simp only [String.toList_append, toList_renderOpening]
      rintro c ⟨⟩
      rfl

/-- The tokens of a content, if those of its pieces are found whatever follows. -/
theorem tokens?_content {xs : List Xml} (hsep : xs.IsChain Separate)
    (h : ∀ x ∈ xs, ∀ rest, x.isElement = true ∨ AtTag rest →
      tokens? (x.render.toList ++ rest) = (tokens? rest).map (x.tokensOf ++ ·))
    {rest : List Char} (hr : AtTag rest) :
    tokens? ((xs.flatMap fun x => x.render.toList) ++ rest) =
      (tokens? rest).map (tokensOfAll xs ++ ·) := by
  induction xs with
  | nil => simp [tokensOfAll]
  | cons x xs ih =>
    have htail := ih (List.isChain_of_isChain_cons hsep) fun y hy => h y (by simp [hy])
    have hnext : x.isElement = true ∨ AtTag ((xs.flatMap fun x => x.render.toList) ++ rest) := by
      cases xs with
      | nil => exact Or.inr hr
      | cons y ys =>
        refine (List.isChain_cons_cons.1 hsep).1.imp_right fun hy => ?_
        rw [List.flatMap_cons, List.append_assoc]
        exact atTag_render hy _
    rw [List.flatMap_cons, List.append_assoc, h x (by simp) _ hnext, htail, Option.map_map,
      tokensOfAll]
    simp [Function.comp_def]

/-- A tidy tree is cut into its tokens, whatever follows an element and up to the next tag after a run
of text. -/
theorem tokens?_render {x : Xml} (h : x.IsTidy) : ∀ rest, x.isElement = true ∨ AtTag rest →
    tokens? (x.render.toList ++ rest) = (tokens? rest).map (x.tokensOf ++ ·) := by
  induction h with
  | text s full =>
    intro rest hr
    have hr : AtTag rest := hr.resolve_left (by simp [isElement])
    rw [render, String.toList_ofList, tokens?_text full hr, tokensOf]
    rfl
  | element name attributes content hname hkeys _ hsep ih =>
    intro rest _
    rw [render, tokensOf]
    split
    · have htext : (renderOpening name attributes ++ "/>").toList ++ rest =
          '<' :: (openingText name attributes ++ '/' :: '>' :: rest) := by
        simp [toList_renderOpening]
      rw [htext, tokens?_tag (readTag?_empty hname hkeys rest)]
      rfl
    · have htext : (renderOpening name attributes ++ ">" ++ renderAll content ++ "</" ++ name ++
          ">").toList ++ rest = '<' :: (openingText name attributes ++ '>' ::
            ((content.flatMap fun x => x.render.toList) ++
              '<' :: '/' :: (name.toList ++ '>' :: rest))) := by
        simp [toList_renderOpening, toList_renderAll]
      rw [htext, tokens?_tag (readTag?_opening hname hkeys _),
        tokens?_content hsep ih (atTag_cons _), tokens?_tag (readTag?_closing hname rest)]
      simp [Function.comp_def]

/-- A tidy element is cut into its tokens. -/
theorem IsTidy.tokens?_eq {x : Xml} (h : x.IsTidy) (hx : x.isElement = true) :
    tokens? x.render.toList = some x.tokensOf := by
  have h := tokens?_render h [] (Or.inl hx)
  rwa [List.append_nil, tokens?, Option.map_some, List.append_nil] at h

/-! ## Putting together -/

/-- The tokens of a content add its pieces to the element that is open, if those of each piece do. -/
theorem build?_content {xs : List Xml} (h : ∀ x ∈ xs, ∀ ts o os,
      build? (x.tokensOf ++ ts) (o :: os) = build? ts (o.add x :: os))
    (ts : List Token) (o : Unclosed) (os : List Unclosed) :
    build? (tokensOfAll xs ++ ts) (o :: os) =
      build? ts ({ o with content := xs.reverse ++ o.content } :: os) := by
  induction xs generalizing o with
  | nil => rfl
  | cons x xs ih =>
    rw [tokensOfAll, List.append_assoc, h x (by simp), ih fun y hy => h y (by simp [hy])]
    simp [Unclosed.add]

/-- The tokens of a tree add it to the element that is open. -/
theorem build?_tokensOf (x : Xml) : ∀ ts o os,
    build? (x.tokensOf ++ ts) (o :: os) = build? ts (o.add x :: os) := by
  induction x with
  | text s =>
    intro ts o os
    rfl
  | element name attributes content ih =>
    intro ts o os
    rw [tokensOf]
    split
    · rename_i hempty
      obtain rfl : content = [] := by simpa using (Bool.and_eq_true_iff.1 hempty).1
      rfl
    · rw [List.cons_append, List.append_assoc, build?, build?_content ih]
      simp [build?, Unclosed.close]

/-- The tokens of an element are put together to it. -/
theorem build?_root (name : String) (attributes : List (String × String)) (content : List Xml) :
    build? (tokensOf (element name attributes content)) [] =
      some (element name attributes content) := by
  rw [tokensOf]
  split
  · rename_i hempty
    obtain rfl : content = [] := by simpa using (Bool.and_eq_true_iff.1 hempty).1
    rfl
  · rw [build?, build?_content fun x _ => build?_tokensOf x]
    simp [build?, Unclosed.close, finish?]

/-! ## Documents -/

theorem dropLastSpace_concat (cs : List Char) {c : Char} (h : isSpace c = false) :
    dropLastSpace (cs ++ [c]) = cs ++ [c] := by
  rw [dropLastSpace, List.reverse_append, List.reverse_singleton, List.singleton_append,
    List.dropWhile_cons, h]
  simp

/-- The text of a tidy element starts with a bracket and a name, and ends with a bracket. -/
theorem IsTidy.render_eq {x : Xml} (h : x.IsTidy) (hx : x.isElement = true) :
    ∃ c cs, isNameStart c = true ∧ x.render.toList = '<' :: c :: (cs ++ ['>']) := by
  cases h with
  | text s full => simp [isElement] at hx
  | element name attributes content hname _ _ _ =>
    cases hchars : name.toList with
    | nil => simp [hchars, isName] at hname
    | cons c cs =>
      rw [hchars, isName, Bool.and_eq_true] at hname
      rw [render]
      split
      · exact ⟨c, cs ++ attributesText attributes ++ ['/'], hname.1,
          by simp [toList_renderOpening, openingText, hchars]⟩
      · exact ⟨c, cs ++ attributesText attributes ++ '>' :: (renderAll content).toList ++
          '<' :: '/' :: name.toList, hname.1, by simp [toList_renderOpening, openingText, hchars]⟩

/-- A tidy element reads back from its text. -/
theorem read?_render {x : Xml} (h : x.IsTidy) (hx : x.isElement = true) :
    read? x.render.toList = some x := by
  obtain ⟨c, cs, hc, htext⟩ := h.render_eq hx
  have hend : dropLastSpace x.render.toList = x.render.toList := by
    rw [htext, ← List.cons_append, ← List.cons_append]
    exact dropLastSpace_concat _ (by decide)
  have hstart : skipSpace x.render.toList = x.render.toList := by
    rw [htext]
    exact skipSpace_cons (by decide) _
  have hprolog : skipProlog? x.render.toList = some x.render.toList := by
    rw [htext, skipProlog?]
    rintro rest heq
    obtain rfl : c = '?' := (List.cons.inj (List.cons.inj heq).2).1
    contradiction
  rw [read?, hend, hstart, hprolog, Option.bind_some, hstart, h.tokens?_eq hx, Option.bind_some]
  cases x with
  | text s => simp [isElement] at hx
  | element name attributes content => exact build?_root name attributes content

end DesktopSearch.Xml
