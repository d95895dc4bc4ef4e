import DesktopSearch.Proofs.Xml.Lexical
import DesktopSearch.Proofs.Xml.Tree

/-!
# Tokens of documents

A document is read in two stages, and each of them reads all that has the form of a document and nothing
else. The text is cut into tags and the runs of text between them (`tokens?_eq_some_iff`). Tokens that
are `Balanced`, every closing tag with the name of the element it closes, are put together to an element
(`build?_eq_some_iff`).
-/

namespace DesktopSearch.Xml

/-! ## Cutting -/

/-- The text of a run between tags. -/
structure RunText (s : String) (cs : List Char) : Prop where
  ne_nil : cs ≠ []
  plain : '<' ∉ cs
  decodes : Decodes cs s.toList

/-- The text of tokens, with runs of text as long as they can be. -/
inductive TokensText : List Token → List Char → Prop
  | nil : TokensText [] []
  | tag {t : Token} {ts : List Token} {cs rest : List Char} (first : TokenText t cs)
    (others : TokensText ts rest) : TokensText (t :: ts) ('<' :: (cs ++ rest))
  | text {s : String} {ts : List Token} {cs rest : List Char} (first : RunText s cs)
    (maximal : AtTag rest) (others : TokensText ts rest) :
    TokensText (.text s :: ts) (cs ++ rest)

variable {cs ds rest : List Char} {ts us : List Token}

theorem AtTag.append (h : AtTag cs) (h' : AtTag ds) : AtTag (cs ++ ds) := by
  cases cs with
  | nil => exact h'
  | cons c cs => exact h

theorem AtTag.of_append (h : AtTag (cs ++ ds)) : AtTag cs := by
  cases cs with
  | nil => exact fun c hc => by simp at hc
  | cons c cs => exact h

theorem TokensText.append (h : TokensText ts cs) (h' : TokensText us ds) (hd : AtTag ds) :
    TokensText (ts ++ us) (cs ++ ds) := by
  induction h with
  | nil => exact h'
  | tag first _ ih =>
    rw [List.cons_append, List.cons_append, List.append_assoc]
    exact .tag first ih
  | text first maximal _ ih =>
    rw [List.append_assoc]
    exact .text first (maximal.append hd) ih

/-- The text of tokens is made up of the texts of a first part and of the others. -/
theorem TokensText.exists_of_append (h : TokensText (ts ++ us) cs) :
    ∃ as bs, cs = as ++ bs ∧ TokensText ts as ∧ TokensText us bs := by
  induction ts generalizing cs with
  | nil => exact ⟨[], cs, rfl, .nil, h⟩
  | cons t ts ih =>
    cases h with
    | tag first others =>
      obtain ⟨as, bs, rfl, has, hbs⟩ := ih others
      exact ⟨_, bs, by simp, .tag first has, hbs⟩
    | text first maximal others =>
      obtain ⟨as, bs, rfl, has, hbs⟩ := ih others
      exact ⟨_, bs, by simp, .text first maximal.of_append has, hbs⟩

/-- A text is cut into tokens if it is their text. -/
theorem tokens?_eq_some_iff : tokens? cs = some ts ↔ TokensText ts cs := by
  constructor
  · intro h
    fun_induction tokens? cs generalizing ts with
    | case1 =>
      obtain rfl := Option.some.inj h
      exact .nil
    | case2 cs t rest hread ih =>
      obtain ⟨us, hus, rfl⟩ := Option.map_eq_some_iff.1 h
      obtain ⟨text, rfl, ht⟩ := readTag?_eq_some_iff.1 hread
      exact .tag ht (ih hus)
    | case3 => simp at h
    | case4 c cs hc ih =>
      obtain ⟨s, hs, h⟩ := Option.bind_eq_some_iff.1 h
      obtain ⟨us, hus, rfl⟩ := Option.map_eq_some_iff.1 h
      obtain ⟨hcs, hrun, hend⟩ := Text.scan_iff.1 ⟨rfl, rfl⟩
      have hfirst : RunText (String.ofList s) (c :: cs.takeWhile (· != '<')) :=
        { ne_nil := List.cons_ne_nil _ _
          plain := fun hmem => by
            rcases List.mem_cons.1 hmem with heq | hmem
            · exact hc heq.symm
            · simpa using hrun _ hmem
          decodes := by rwa [String.toList_ofList, ← unescape?_eq_some_iff] }
      have hall := TokensText.text hfirst (fun d hd => by simpa using hend d hd) (ih hus)
      rwa [List.cons_append, ← hcs] at hall
  · intro h
    induction h with
    | nil => rw [tokens?]
    | tag first _ ih =>
      rw [tokens?_tag (readTag?_eq_some_iff.2 ⟨_, rfl, first⟩), ih, Option.map_some]
    | text first maximal _ ih =>
      rw [tokens?_run first.ne_nil first.plain (unescape?_eq_some_iff.2 first.decodes) maximal, ih,
        Option.map_some]

/-! ## Putting together -/

/-- Tokens that make up a content. -/
inductive Balanced : List Xml → List Token → Prop
  | nil : Balanced [] []
  | text (s : String) {xs : List Xml} {ts : List Token} (others : Balanced xs ts) :
    Balanced (text s :: xs) (.text s :: ts)
  | empty (name : String) (attributes : List (String × String)) {xs : List Xml} {ts : List Token}
    (others : Balanced xs ts) :
    Balanced (element name attributes [] :: xs) (.empty name attributes :: ts)
  | full (name : String) (attributes : List (String × String)) {content xs : List Xml}
    {us ts : List Token} (inside : Balanced content us) (others : Balanced xs ts) :
    Balanced (element name attributes content :: xs)
      (.opening name attributes :: (us ++ .closing name :: ts))

variable {x : Xml} {xs : List Xml}

/-- How tokens go on after a complete element, inside the elements that are open. -/
def resume? (x : Xml) (ts : List Token) : List Unclosed → Option Xml
  | [] => finish? x ts
  | o :: os => build? ts (o.add x :: os)

theorem build?_closing (name : String) (ts : List Token) (o : Unclosed) (os : List Unclosed) :
    build? (.closing name :: ts) (o :: os) =
      if o.name = name then resume? o.close ts os else none := by
  cases os <;> rfl

theorem finish?_eq_some_iff {root : Xml} : finish? root ts = some x ↔ ts = [] ∧ root = x := by
  cases ts <;> simp [finish?]

/-- Balanced tokens add what they make up to the element that is open. -/
theorem Balanced.build?_append (h : Balanced xs ts) (us : List Token) (o : Unclosed)
    (os : List Unclosed) : build? (ts ++ us) (o :: os) =
      build? us ({ o with content := xs.reverse ++ o.content } :: os) := by
  induction h generalizing us o os with
  | nil => rfl
  | text s _ ih =>
    rw [List.cons_append, build?, ih]
    simp [Unclosed.add]
  | empty name attributes _ ih =>
    rw [List.cons_append, build?, ih]
    simp [Unclosed.add]
  | full name attributes _ _ ih ih' =>
    rw [List.cons_append, List.append_assoc, build?, ih, List.cons_append, build?_closing,
      if_pos rfl, resume?, ih']
    simp [Unclosed.add, Unclosed.close]

/-- Tokens that are put together inside an element are balanced up to the tag that closes it. -/
theorem exists_balanced : ∀ (ts : List Token) (o : Unclosed) (os : List Unclosed),
    build? ts (o :: os) = some x → ∃ xs us vs, ts = us ++ .closing o.name :: vs ∧ Balanced xs us ∧
      resume? (element o.name o.attributes (o.content.reverse ++ xs)) vs os = some x
  | [], o, os, h => by simp [build?] at h
  | .text s :: ts, o, os, h => by
    obtain ⟨xs, us, vs, rfl, hbalanced, hvs⟩ := exists_balanced ts (o.add (text s)) os h
    exact ⟨text s :: xs, .text s :: us, vs, rfl, .text s hbalanced, by
      simpa [Unclosed.add] using hvs⟩
  | .empty name attributes :: ts, o, os, h => by
    obtain ⟨xs, us, vs, rfl, hbalanced, hvs⟩ :=
      exists_balanced ts (o.add (element name attributes [])) os h
    exact ⟨_, .empty name attributes :: us, vs, rfl, .empty name attributes hbalanced, by
      simpa [Unclosed.add] using hvs⟩
  -- The tokens up to the tag that closes the inner element are its content, and those after it, which
  -- are fewer, go on with the outer one.
  | .opening name attributes :: ts, o, os, h => by
    obtain ⟨content, us, vs, rfl, hinside, h⟩ := exists_balanced ts ⟨name, attributes, []⟩ (o :: os) h
    obtain ⟨xs, us', vs', rfl, hbalanced, hvs⟩ := exists_balanced vs _ os h
    exact ⟨_, .opening name attributes :: (us ++ .closing name :: us'), vs', by
      simp [Unclosed.add], .full name attributes hinside hbalanced, by
      simpa [Unclosed.add] using hvs⟩
  | .closing name :: ts, o, os, h => by
    rw [build?_closing] at h
    split_ifs at h with hname
    exact ⟨[], [], ts, by rw [hname]; rfl, .nil, by simpa [Unclosed.close] using h⟩
termination_by ts => ts.length

/-- Tokens are put together to an element if they make it up. -/
theorem build?_eq_some_iff :
    build? ts [] = some x ↔ x.isElement = true ∧ Balanced [x] ts := by
  constructor
  · intro h
    cases ts with
    | nil => simp [build?] at h
    | cons t ts =>
      cases t with
      | text s => simp [build?] at h
      | closing name => simp [build?] at h
      | empty name attributes =>
        obtain ⟨rfl, rfl⟩ := finish?_eq_some_iff.1 h
        exact ⟨rfl, .empty name attributes .nil⟩
      | opening name attributes =>
        obtain ⟨content, us, vs, rfl, hinside, h⟩ := exists_balanced ts ⟨name, attributes, []⟩ [] h
        obtain ⟨rfl, rfl⟩ := finish?_eq_some_iff.1 h
        exact ⟨rfl, .full name attributes hinside .nil⟩
  · rintro ⟨hx, h⟩
    cases h with
    | text s _ => simp [isElement] at hx
    | empty name attributes others =>
      cases others
      rfl
    | full name attributes inside others =>
      cases others
      rw [build?, inside.build?_append, build?_closing, if_pos rfl]
      simp [resume?, finish?, Unclosed.close]

end DesktopSearch.Xml
