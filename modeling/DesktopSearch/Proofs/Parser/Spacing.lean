import DesktopSearch.Proofs.Parser.Answer
import DesktopSearch.Proofs.Parser.Cursor
import DesktopSearch.Proofs.Parser.Draft
import DesktopSearch.Proofs.Parser.Span
import DesktopSearch.Proofs.Parser.Spelled
import DesktopSearch.Proofs.Text.Scan

/-!
# White space

What a text is read as depends on the texts and the lengths of its tokens. The lengths count because the
decimals of a number are counted in the input, zeros included; so until numbers have got their decimals, words
and integers are seen together with their lengths (`Term.measured`), and from then on terms are bare.

A text `Renders` its written tokens: quotations with their quotes, separators and words, with white space
around them. Two texts that render the same tokens have tokens of the same texts and lengths, so they are read
as the same query (`Parser.StandsAt.read_spacing`).
-/

namespace DesktopSearch

/-! ## Terms with lengths -/

/-- The term without its spans, apart from the length of a word or of an integer. -/
def Term.measured : Term → Term
  | .literal s (.string word) => .literal ⟨0, s.length⟩ (.string word)
  | .literal s (.integer n) => .literal ⟨0, s.length⟩ (.integer n)
  | t => t.bare

namespace Term

variable {t u : Term}

theorem literal?_measured (t : Term) : t.measured.literal? = t.literal? := by
  cases t with
  | literal s l => cases l <;> rfl
  | _ => rfl

theorem isView_measured : IsView measured := ⟨literal?_measured, rfl⟩

theorem bare_measured (t : Term) : t.measured.bare = t.bare := by
  cases t with
  | literal s l => cases l <;> rfl
  | comparison s c v => exact bare_bare _
  | negation s t => exact bare_bare _
  | optional s t => exact bare_bare _
  | group s k ts => exact bare_bare _
  | _ => rfl

theorem literal?_eq_of_measured (h : t.measured = u.measured) : t.literal? = u.literal? := by
  rw [← literal?_measured, h, literal?_measured]

theorem string?_eq_of_measured (h : t.measured = u.measured) : t.string? = u.string? := by
  rw [string?, literal?_eq_of_measured h, string?]

theorem integer?_eq_of_measured (h : t.measured = u.measured) : t.integer? = u.integer? := by
  rw [integer?, literal?_eq_of_measured h, integer?]

/-- Words and integers that look alike have the same length. -/
theorem length_eq_of_measured (h : t.measured = u.measured)
    (ht : t.string?.isSome = true ∨ t.integer?.isSome = true) : t.span.length = u.span.length := by
  have hkept {t : Term} (ht : t.string?.isSome = true ∨ t.integer?.isSome = true) :
      t.measured.span.length = t.span.length := by
    cases t with
    | literal s l =>
      cases l with
      | string word => rfl
      | integer i => rfl
      | _ => simp [string?, integer?, Term.literal?, Literal.string?, Literal.integer?] at ht
    | _ => simp [string?, integer?, Term.literal?] at ht
  rw [← hkept ht, h]
  rw [string?_eq_of_measured h, integer?_eq_of_measured h] at ht
  exact hkept ht

theorem map_bare_of_measured {ts us : List Term} (h : ts.map measured = us.map measured) :
    ts.map bare = us.map bare := by
  have hbare (ts : List Term) : (ts.map measured).map bare = ts.map bare := by
    rw [List.map_map]
    exact List.map_congr_left fun t _ => bare_measured t
  rw [← hbare ts, h, hbare us]

end Term

/-! ## Readings of numbers -/

namespace Reading

open Term

theorem measured_pieceTerms (start start' : Nat) (texts : List (List Char)) :
    (pieceTerms start texts).map measured = (pieceTerms start' texts).map measured := by
  induction texts generalizing start start' with
  | nil => rfl
  | cons cs texts ih =>
    rw [pieceTerms, pieceTerms, List.map_cons, List.map_cons, ih]
    rfl

theorem readsAlike_readUnits : ReadsAlike measured readUnits := by
  intro window window' ts us _ hts
  match ts, us with
  | [], [] => rfl
  | [], _ :: _ => simp at hts
  | _ :: _, [] => simp at hts
  | t :: ts, u :: us =>
    have hword := string?_eq_of_measured (List.cons.inj hts).1
    simp only [readUnits, hword]
    split
    · rename_i g _
      split
      · rfl
      · rename_i hwhole
        have hcut : g.isCut = true := Bool.not_eq_true' _ ▸ Bool.not_eq_true _ ▸ hwhole
        rw [placed_pieceTerms hcut, placed_pieceTerms hcut]
        exact measured_pieceTerms _ _ _
    · rfl

/-- The length of the decimals is one of those that are seen. A double has no length that is seen, whatever
window it is put into. -/
theorem readsAlike_readDecimals : ReadsAlike measured readDecimals := by
  intro window window' ts us _ hts
  have hread : readDecimals ts = readDecimals us := by
    match ts, us with
    | [], [] | [_], [_] => rfl
    | [], _ :: _ | _ :: _, [] | _ :: _ :: _, [_] | [_], _ :: _ :: _ => simp at hts
    | whole :: part :: ts, whole' :: part' :: us =>
      obtain ⟨hwhole, hts⟩ := List.cons.inj hts
      obtain ⟨hpart, -⟩ := List.cons.inj hts
      simp only [readDecimals, integer?_eq_of_measured hwhole, ← integer?_eq_of_measured hpart]
      split
      · rename_i hd
        rw [length_eq_of_measured hpart (Or.inr (by simp [hd]))]
      · rfl
  rw [hread]
  obtain hnone | ⟨_, _, _, _, _, d, -, hd⟩ := readDecimals_cases us
  · rw [hnone]
    rfl
  · rw [hd]
    rfl

/-- A pattern of one slot gives each term to the reading, and puts the answer in its place. -/
theorem rewriteHere?_slot {p : Pattern} (hp : p.parts = [.capture 0]) (reader : Reader) (t : Term)
    (ts : List Term) : rewriteHere? p reader (t :: ts) =
      if (reader [t]).isEmpty then none else some (placed [t] (reader [t]) ++ ts) := by
  have hmatch : p.matchAt (t :: ts) = .matched (Taken.capture {} 0 t) := by
    rw [Pattern.matchAt, hp, Part.matchAll, Part.matchAll]
  have hslots : p.slotCount = 1 := by
    rw [Pattern.slotCount, hp]
    rfl
  rw [rewriteHere?, hmatch, hslots]
  rfl

/-- A number takes over the length of its word. -/
theorem rewritesAlike_readNumbers (settings : Settings) {p : Pattern} (hp : p.parts = [.capture 0]) :
    RewritesAlike measured p (readNumbers settings) := by
  intro ts us h
  match ts, us with
  | [], [] => rfl
  | [], _ :: _ | _ :: _, [] => simp at h
  | t :: ts, u :: us =>
    obtain ⟨htu, hrest⟩ := List.cons.inj h
    have hword := string?_eq_of_measured htu
    have hread : readNumbers settings [t] = readNumbers settings [u] := by
      simp only [readNumbers, hword]
    rw [rewriteHere?_slot hp, rewriteHere?_slot hp, hread]
    obtain hnone | ⟨s, word, _, n, hu, -, hn⟩ := readNumbers_cases settings [u]
    · rw [hnone]
      rfl
    · obtain ⟨rfl, -⟩ := List.cons.inj hu
      have hlength := length_eq_of_measured htu (Or.inl (hword ▸ rfl))
      have hspan (t : Term) : spanOf [t] = t.span := rfl
      simp [hn, answer, placed, hspan, ofLiteral, withSpan, measured, hlength, hrest]

end Reading

/-! ## Drafts -/

theorem Pattern.parts_of_slot {p : Pattern} (h : Pattern.ofText "%1" = .ok p) : p.parts = [.capture 0] := by
  have hread : Pattern.ofText "%1" = .ok ⟨["%1"], [.capture 0]⟩ := rfl
  rw [← Except.ok.inj (hread.symm.trans h)]

/-- What has the same image is there or not there alike. -/
theorem rel_of_map_eq {α β : Type} {f : α → β} {a? b? : Option α} (h : a?.map f = b?.map f) :
    Option.Rel (fun a b => f a = f b) a? b? := by
  cases a? with
  | none =>
    rw [Option.map_none, eq_comm, Option.map_eq_none_iff] at h
    rw [h]
    exact .none
  | some a =>
    rw [Option.map_some, eq_comm, Option.map_eq_some_iff] at h
    obtain ⟨b, rfl, hb⟩ := h
    exact .some hb.symm

theorem rel_map {α γ : Type} {g g' : α → γ} {q : α → α → Prop} {r : γ → γ → Prop} {a? b? : Option α}
    (h : Option.Rel q a? b?) (hg : ∀ a b, q a b → r (g a) (g' b)) :
    Option.Rel r (a?.map g) (b?.map g') := by
  cases h with
  | none => exact .none
  | some hab => exact .some (hg _ _ hab)

open Term

theorem Draft.foldDates?_map_bare (settings : Settings) (now : Instant) {d e : Draft}
    (h : d.terms.map bare = e.terms.map bare) :
    (d.foldDates? settings now).map (·.terms.map bare) =
      (e.foldDates? settings now).map (·.terms.map bare) := by
  have hfold (d : Draft) : (d.foldDates? settings now).map (·.terms.map bare) =
      DesktopSearch.foldDates? settings now (d.terms.map bare) := by
    rw [foldDates?_bare, Draft.foldDates?, Option.map_map]
    rfl
  rw [hfold, hfold, h]

/-- Drafts of the same words and lengths come to the same terms, apart from spans, unless neither of them is
finished. -/
theorem Draft.rel_tryAll? {x : Surroundings} (now : Instant) (cursor cursor' : Option Nat) {d e : Draft}
    (h : d.terms.map measured = e.terms.map measured) :
    Option.Rel (fun d e : Draft => d.terms.map bare = e.terms.map bare)
      (d.tryAll? x now cursor) (e.tryAll? x now cursor') := by
  obtain ⟨phs, hphs, hlater⟩ := Phrasing.exists_ofDates x.flags
  rw [List.forall_mem_append] at hlater
  rw [tryAll?, tryAll?, hphs]
  simp only [List.foldl_cons]
  refine rel_map (rel_of_map_eq (Draft.foldDates?_map_bare x.settings now ?_)) fun _ _ =>
    tryPhrasings_map_bare hlater.2
  refine tryPhrasings_map_bare hlater.1 (map_bare_of_measured ?_)
  -- decimals, numbers and units, from the last one to the first
  refine tryPhrasing_map_congr
    (fun _ _ p _ => Reading.readsAlike_readDecimals.rewritesAlike isView_measured p) ?_
  refine tryPhrasing_map_congr (fun pattern hpattern p hp => ?_) ?_
  · rw [List.mem_singleton.1 hpattern] at hp
    exact Reading.rewritesAlike_readNumbers x.settings (Pattern.parts_of_slot hp)
  · exact tryPhrasing_map_congr
      (fun _ _ p _ => Reading.readsAlike_readUnits.rewritesAlike isView_measured p) h

/-! ## Tokens -/

namespace Token

/-- The text of a token, and its length in the input. -/
def shown (t : Term) : Option String × Nat := (t.string?, t.span.length)

theorem map_measured_of_shown {s : Settings} {text text' : String}
    (h : (tokenize s text).map shown = (tokenize s text').map shown) :
    (tokenize s text).map measured = (tokenize s text').map measured := by
  have htokens (text : String) : (tokenize s text).map measured =
      ((tokenize s text).map shown).map fun e => .literal ⟨0, e.2⟩ (.string (e.1.getD "")) := by
    rw [List.map_map]
    refine List.map_congr_left fun t ht => ?_
    obtain ⟨span, word, rfl⟩ := exists_of_mem_tokenize ht
    rfl
  rw [htokens, htokens, h]

/-- How a written token is shown. -/
def ofWritten? : List Char → Option (Option String × Nat)
  | '"' :: cs =>
    let text := cs.takeWhile (· != '"')
    if text.isEmpty then none else some (some (String.ofList text), 1 + cs.length)
  | cs => some (some (String.ofList cs), cs.length)

theorem ofWritten?_of_ne {c : Char} (h : c ≠ '"') (cs : List Char) :
    ofWritten? (c :: cs) = some (some (String.ofList (c :: cs)), 1 + cs.length) := by
  unfold ofWritten?
  split
  · simp_all
  · rw [List.length_cons, Nat.add_comm]

end Token

/-- A text is a list of written tokens with white space between them. -/
inductive Renders (s : Settings) : List (List Char) → List Char → Prop
  | nil : Renders s [] []
  | blank {tokens : List (List Char)} {c : Char} {cs : List Char} (blank : Text.isBlank c = true)
    (rest : Renders s tokens cs) : Renders s tokens (c :: cs)
  | quotation {tokens : List (List Char)} {text cs : List Char} (plain : '"' ∉ text)
    (rest : Renders s tokens cs) : Renders s (('"' :: text ++ ['"']) :: tokens) ('"' :: text ++ '"' :: cs)
  | openQuotation {text : List Char} (plain : '"' ∉ text) : Renders s ['"' :: text] ('"' :: text)
  | separator {tokens : List (List Char)} {c : Char} {cs : List Char} (quote : c ≠ '"')
    (blank : Text.isBlank c = false) (alone : s.standsAlone c = true) (rest : Renders s tokens cs) :
    Renders s ([c] :: tokens) (c :: cs)
  | word {tokens : List (List Char)} {c : Char} {word cs : List Char}
    (letters : ∀ d ∈ c :: word, s.isWordChar d = true) (ends : ∀ d ∈ cs.head?, s.isWordChar d = false)
    (rest : Renders s tokens cs) : Renders s ((c :: word) :: tokens) (c :: word ++ cs)

namespace Renders

variable {s : Settings} {tokens : List (List Char)} {cs : List Char}

/-- The tokens of a text are those that it renders. -/
theorem map_shown_read (h : Renders s tokens cs) (place : Nat) :
    (Token.read s place cs).map Token.shown = tokens.filterMap Token.ofWritten? := by
  have hquotation {text rest : List Char} (hplain : '"' ∉ text)
      (hends : ∀ c ∈ rest.head?, (c != '"') = false) :
      (text ++ rest).takeWhile (· != '"') = text ∧ (text ++ rest).dropWhile (· != '"') = rest :=
    Text.scan_iff.2 ⟨rfl, fun c hc => bne_iff_ne.2 fun h => hplain (h ▸ hc), hends⟩
  induction h generalizing place with
  | nil => simp [Token.read]
  | @blank tokens c cs hblank rest ih =>
    have hquote : c ≠ '"' := by
      rintro rfl
      simp [Text.isBlank] at hblank
    rw [Token.read, if_neg hquote, if_pos hblank, ih]
  | @quotation tokens text cs hplain rest ih =>
    obtain ⟨htake, hdrop⟩ := @hquotation text ('"' :: cs) hplain (by simp)
    obtain ⟨hwritten, -⟩ := @hquotation text ['"'] hplain (by simp)
    rw [List.cons_append, Token.read, if_pos rfl, htake, hdrop, List.filterMap_cons, List.cons_append,
      Token.ofWritten?, hwritten]
    dsimp only
    split
    · rw [List.drop_one, List.tail_cons, ih]
    · simp [ih, Token.shown, Token.term, Term.string?, Term.literal?, Literal.string?, Term.span,
        Nat.add_assoc]
  | @openQuotation text hplain =>
    obtain ⟨htake, hdrop⟩ := @hquotation text [] hplain (by simp)
    rw [List.append_nil] at htake hdrop
    rw [Token.read, if_pos rfl, htake, hdrop, List.filterMap_cons, Token.ofWritten?, htake]
    dsimp only
    split
    · simp [Token.read]
    · simp [Token.read, Token.shown, Token.term, Term.string?, Term.literal?, Literal.string?, Term.span]
  | @separator tokens c cs hquote hblank halone rest ih =>
    rw [Token.read, if_neg hquote, if_neg (by simp [hblank]), if_pos halone, List.map_cons, ih,
      List.filterMap_cons_some (Token.ofWritten?_of_ne hquote [])]
    rfl
  | @word tokens c word cs hletters hends rest ih =>
    obtain ⟨hc, hword⟩ := List.forall_mem_cons.1 hletters
    obtain ⟨htake, hdrop⟩ := Text.scan_iff.2 ⟨rfl, hword, hends⟩
    simp only [Settings.isWordChar, Bool.and_eq_true, bne_iff_ne, Bool.not_eq_true'] at hc
    rw [List.cons_append, Token.read, if_neg hc.1.1, if_neg (by simp [hc]), if_neg (by simp [hc]), htake,
      hdrop, List.map_cons, ih, List.filterMap_cons_some (Token.ofWritten?_of_ne hc.1.1 word)]
    rfl

end Renders

/-! ## Texts -/

theorem Draft.same_parsed {x : Surroundings} {d e : Draft} (h : d.terms.map bare = e.terms.map bare) :
    (d.parsed x).query.same (e.parsed x).query = true := by
  have hterm : (fuse x.settings x.flags d.terms 0).1.same (fuse x.settings x.flags e.terms 0).1 = true := by
    rw [same_iff_bare_eq, ← fuse_bare, ← fuse_bare, h]
  simp [parsed, Query.same, Query.ofTerm, hterm]

theorem same_parse? {x : Surroundings} {now : Instant} {text text' : String} (cursor cursor' : Option Nat)
    (h : (tokenize x.settings text).map Token.shown = (tokenize x.settings text').map Token.shown) :
    Option.Rel (fun q r => q.same r = true) ((parse? x now cursor text).map Parsed.query)
      ((parse? x now cursor' text').map Parsed.query) := by
  rw [parse?, parse?, Option.map_map, Option.map_map]
  exact rel_map (Draft.rel_tryAll? now cursor cursor' (Token.map_measured_of_shown h)) fun _ _ =>
    Draft.same_parsed

namespace Parser

/-- Texts whose tokens have the same texts and lengths are read as the same query, with any cursor and by
any two parsers that have the same settings, store and time, or neither of them is read. Such are two texts
that differ in the white space around their tokens alone. -/
theorem StandsAt.read_spacing {settings : Settings} {store : Option Store} {now : Instant}
    {p q : Parser} (hp : p.StandsAt settings store now) (hq : q.StandsAt settings store now)
    (flags : ParserFlags) (cursor cursor' : Option Nat) (text text' : String) :
    ((tokenize settings text).map Token.shown = (tokenize settings text').map Token.shown →
      Option.Rel (fun a b => a.same b = true) (p.read flags cursor text).1 (q.read flags cursor' text').1) ∧
    ∀ tokens, Renders settings tokens text.toList → Renders settings tokens text'.toList →
      (tokenize settings text).map Token.shown = (tokenize settings text').map Token.shown := by
  refine ⟨fun h => ?_, fun tokens htext htext' => ?_⟩
  · have hread {p : Parser} (hp : p.StandsAt settings store now) (cursor : Option Nat) (text : String) :
        (p.read flags cursor text).1 =
          (parse? ⟨settings, flags, .ofStore store⟩ now cursor text).map Parsed.query := by
      rw [← hp.settings, ← hp.now, ← hp.directory_eq, Parser.read, accept_fst]
    rw [hread hp, hread hq]
    exact same_parse? cursor cursor' h
  · rw [tokenize, htext.map_shown_read, tokenize, htext'.map_shown_read]

/-- A parser that has read "size > 2KB" reads "size>  2KB" as the same query. -/
theorem read_spacing_sizeGreater :
    let now : Instant :=
      .midnight ⟨2024, 2, 29, by decide, by decide, by decide, by decide, by decide, by decide⟩
    let p := fresh .english none now
    let q := (p.read {} none "size > 2KB").2.2
    let tokens := ["size".toList, ['>'], "2KB".toList]
    p.StandsAt .english none now ∧ q.StandsAt .english none now ∧
      Renders .english tokens "size > 2KB".toList ∧ Renders .english tokens "size>  2KB".toList ∧
      (tokenize .english "size > 2KB").map Token.shown = (tokenize .english "size>  2KB").map Token.shown ∧
      (p.read {} none "size > 2KB").1.isSome = true ∧
      Option.Rel (fun a b => a.same b = true) (p.read {} none "size > 2KB").1
        (q.read {} (some 4) "size>  2KB").1 := by
  intro now p q tokens
  have hp : p.StandsAt .english none now := standsAt_fresh .english none now
  have hq : q.StandsAt .english none now := hp.read {} none "size > 2KB"
  have hsize : ∀ c ∈ "size".toList, Settings.english.isWordChar c = true :=
    List.all_eq_true.1 (by decide +kernel)
  have hunit : ∀ c ∈ "2KB".toList, Settings.english.isWordChar c = true :=
    List.all_eq_true.1 (by decide +kernel)
  have hends {c : Char} (cs : List Char) (hc : Settings.english.isWordChar c = false) :
      ∀ d ∈ (c :: cs).head?, Settings.english.isWordChar d = false := by
    simpa using hc
  have hvalue : Renders .english ["2KB".toList] (' ' :: "2KB".toList) :=
    .blank (by decide) (.word hunit (by simp) .nil)
  have hspaced : Renders .english tokens "size > 2KB".toList :=
    .word hsize (hends _ (by decide +kernel)) (.blank (by decide)
      (.separator (by decide) (by decide) (by decide +kernel) hvalue))
  have hclose : Renders .english tokens "size>  2KB".toList :=
    .word hsize (hends _ (by decide +kernel)) (.separator (by decide) (by decide) (by decide +kernel)
      (.blank (by decide) hvalue))
  obtain ⟨hsame, hshown⟩ := hp.read_spacing hq {} none (some 4) "size > 2KB" "size>  2KB"
  have htokens := hshown tokens hspaced hclose
  obtain ⟨a, ha, -⟩ := exists_read_size none
  have hread := Option.isSome_iff_exists.2 ⟨a, ha⟩
  exact ⟨hp, hq, hspaced, hclose, htokens, hread, hsame htokens⟩

end Parser

end DesktopSearch
