import DesktopSearch.Parser.Token
import DesktopSearch.Proofs.Text.Scan

/-!
# Tokens of a text

Nothing of a text is lost between its tokens. Double quotes open and close quotations by turns. A token is
either a quotation, and then its text is what stands between two quotes, or it is plain, and then its text
is what its span covers (`IsQuotation`, `IsPlain`). The tokens stand one behind the other, and what they do
not cover is white space or the quotes of an empty quotation (`IsSkipped`). All this is kept while a text is
read from left to right (`tiles_read`) ; `tokenize_lossless` says it of the whole text.
-/

namespace DesktopSearch.Token

variable {s : Settings}

/-! ## Places of a text -/

/-- The characters that a span covers. -/
def covered (cs : List Char) (s : Span) : List Char := (cs.drop s.start).take s.length

/-- The number of double quotes in front of a place is even. -/
def IsOutside (cs : List Char) (i : Nat) : Prop := (cs.take i).count '"' % 2 = 0

/-- At a place there is a double quote that opens a quotation. -/
structure Opens (cs : List Char) (i : Nat) : Prop where
  quote : cs[i]? = some '"'
  outside : IsOutside cs i

/-- What stands between the double quote at a place and the next one, or the end of the text. -/
def quoted (cs : List Char) (i : Nat) : List Char := (cs.drop (i + 1)).takeWhile (· != '"')

/-- The token is a quotation : it starts where the quotation opens, and ends behind the quote that closes
it, or with the text. -/
structure IsQuotation (cs : List Char) (t : Term) : Prop where
  opens : Opens cs t.span.start
  text : t = .literal t.span (.string (String.ofList (quoted cs t.span.start)))
  filled : quoted cs t.span.start ≠ []
  stop : t.span.stop = min (t.span.start + (quoted cs t.span.start).length + 2) cs.length

/-- The token is a separator or a word. A word goes on as far as it can. -/
structure IsPlain (s : Settings) (cs : List Char) (t : Term) : Prop where
  outside : IsOutside cs t.span.start
  text : t = .literal t.span (.string (String.ofList (covered cs t.span)))
  characters : ∀ c ∈ covered cs t.span, Text.isBlank c = false ∧ c ≠ '"'
  single : (∃ c ∈ covered cs t.span, s.isSeparator c = true) ∨ s.wordsSeparatedBySpaces = false →
    t.span.length = 1
  longest : (∀ c ∈ covered cs t.span, s.standsAlone c = false) →
    ∀ c, cs[t.span.stop]? = some c → s.isWordChar c = false

/-- At a place there is white space, or one of the quotes of a quotation with nothing in it. -/
def IsSkipped (cs : List Char) (i : Nat) : Prop :=
  (∃ c, cs[i]? = some c ∧ Text.isBlank c = true) ∨
    cs[i]? = some '"' ∧ ∃ j, Opens cs j ∧ quoted cs j = [] ∧ (i = j ∨ i = j + 1)

/-! ## Tiles -/

/-- The tokens from a place on stand one behind the other, inside the text, and what is not covered by them is
skipped. -/
structure Tiles (s : Settings) (cs : List Char) (place : Nat) (ts : List Term) : Prop where
  inside : ∀ t ∈ ts, place ≤ t.span.start ∧ 0 < t.span.length ∧ t.span.stop ≤ cs.length
  kind : ∀ t ∈ ts, IsPlain s cs t ∨ IsQuotation cs t
  ordered : ts.Pairwise fun t u => t.span.stop ≤ u.span.start
  skipped : ∀ i, place ≤ i → i < cs.length →
    (∀ t ∈ ts, ¬(t.span.start ≤ i ∧ i < t.span.stop)) → IsSkipped cs i

namespace Tiles

variable {cs : List Char} {place next : Nat} {t : Term} {ts : List Term}

theorem nil (h : cs.length ≤ place) : Tiles s cs place [] where
  inside := by simp
  kind := by simp
  ordered := .nil
  skipped i hplace hi := by omega

/-- The places in front of the tokens may be skipped. -/
theorem skip (h : Tiles s cs next ts) (hle : place ≤ next)
    (hskipped : ∀ i, place ≤ i → i < next → IsSkipped cs i) : Tiles s cs place ts where
  inside u hu := ⟨Nat.le_trans hle (h.inside u hu).1, (h.inside u hu).2⟩
  kind := h.kind
  ordered := h.ordered
  skipped i hplace hi hfree := by
    rcases Nat.lt_or_ge i next with hlt | hge
    · exact hskipped i hplace hlt
    · exact h.skipped i hge hi hfree

/-- A token may stand in front of the tokens. -/
theorem cons (h : Tiles s cs t.span.stop ts) (hlength : 0 < t.span.length) (hstop : t.span.stop ≤ cs.length)
    (hkind : IsPlain s cs t ∨ IsQuotation cs t) : Tiles s cs t.span.start (t :: ts) where
  inside := by
    refine List.forall_mem_cons.2 ⟨⟨Nat.le_refl _, hlength, hstop⟩, fun u hu => ?_⟩
    obtain ⟨hle, hinside⟩ := h.inside u hu
    exact ⟨Nat.le_trans (Nat.le_add_right _ _) hle, hinside⟩
  kind := List.forall_mem_cons.2 ⟨hkind, h.kind⟩
  ordered := List.pairwise_cons.2 ⟨fun u hu => (h.inside u hu).1, h.ordered⟩
  skipped i hplace hi hfree := by
    obtain ⟨ht, hfree⟩ := List.forall_mem_cons.1 hfree
    exact h.skipped i (Nat.le_of_not_lt fun hlt => ht ⟨hplace, hlt⟩) hi hfree

end Tiles

/-! ## Reading -/

theorem isOutside_append {before : List Char} (h : before.count '"' % 2 = 0) (cs : List Char) :
    IsOutside (before ++ cs) before.length := by
  rwa [IsOutside, List.take_left]

theorem covered_append (before word rest : List Char) :
    covered (before ++ (word ++ rest)) ⟨before.length, word.length⟩ = word := by
  simp [covered]

theorem quoted_append {text rest : List Char} (before : List Char) (htext : ∀ c ∈ text, (c != '"') = true)
    (hrest : ∀ c ∈ rest.head?, (c != '"') = false) :
    quoted (before ++ '"' :: (text ++ rest)) before.length = text := by
  have hdrop : (before ++ '"' :: (text ++ rest)).drop (before.length + 1) = text ++ rest := by
    simp [List.drop_append]
  rw [quoted, hdrop, Text.takeWhile_append_of_stop htext hrest]

theorem opens_append {before : List Char} (h : before.count '"' % 2 = 0) (cs : List Char) :
    Opens (before ++ '"' :: cs) before.length :=
  ⟨by simp, isOutside_append h _⟩

theorem isPlain_term {before : List Char} (heven : before.count '"' % 2 = 0) (word rest : List Char)
    (hword : ∀ c ∈ word, Text.isBlank c = false ∧ c ≠ '"')
    (hsingle : (∃ c ∈ word, s.isSeparator c = true) ∨ s.wordsSeparatedBySpaces = false → word.length = 1)
    (hlongest : (∀ c ∈ word, s.standsAlone c = false) → ∀ c ∈ rest.head?, s.isWordChar c = false) :
    IsPlain s (before ++ (word ++ rest)) (term before.length word.length word) := by
  have hcovered : covered (before ++ (word ++ rest)) (term before.length word.length word).span = word :=
    covered_append before word rest
  have hnext : (before ++ (word ++ rest))[(term before.length word.length word).span.stop]? = rest.head? := by
    simp [term, Term.span, Span.stop, List.getElem?_append_right, List.head?_eq_getElem?]
  exact ⟨isOutside_append heven _, by rw [hcovered]; rfl, by rwa [hcovered], by rwa [hcovered],
    by rwa [hcovered, hnext]⟩

theorem isPlain_alone {before : List Char} {c : Char} (heven : before.count '"' % 2 = 0) (hquote : c ≠ '"')
    (hblank : Text.isBlank c = false) (halone : s.standsAlone c = true) (rest : List Char) :
    IsPlain s (before ++ c :: rest) (term before.length 1 [c]) :=
  isPlain_term heven [c] rest (List.forall_mem_singleton.2 ⟨hblank, hquote⟩) (fun _ => rfl)
    fun h => by simp [halone] at h

theorem isPlain_word {before : List Char} {c : Char} {more rest : List Char}
    (heven : before.count '"' % 2 = 0) (hword : ∀ d ∈ c :: more, s.isWordChar d = true)
    (hrest : ∀ d ∈ rest.head?, s.isWordChar d = false) :
    IsPlain s (before ++ (c :: more ++ rest)) (term before.length (c :: more).length (c :: more)) := by
  have hparts : ∀ d ∈ c :: more, Text.isBlank d = false ∧ d ≠ '"' ∧ s.isSeparator d = false ∧
      s.wordsSeparatedBySpaces = true := by
    intro d hd
    have := hword d hd
    simp_all [Settings.isWordChar, Settings.standsAlone]
  refine isPlain_term heven _ _ (fun d hd => ⟨(hparts d hd).1, (hparts d hd).2.1⟩) ?_ fun _ => hrest
  rintro (⟨d, hd, hseparator⟩ | hspaces)
  · simp [(hparts d hd).2.2.1] at hseparator
  · simp [(hparts c List.mem_cons_self).2.2.2] at hspaces

/-- A quotation, which ends with its closing quote or with the text. -/
theorem isQuotation_term {before text rest : List Char} (heven : before.count '"' % 2 = 0)
    (htext : ∀ c ∈ text, (c != '"') = true) (hrest : ∀ c ∈ rest.head?, (c != '"') = false)
    (hfilled : text ≠ []) :
    IsQuotation (before ++ '"' :: (text ++ rest))
      (term before.length (1 + text.length + min 1 rest.length) text) := by
  have hquoted := quoted_append before htext hrest
  refine ⟨opens_append heven _, ?_, ?_, ?_⟩
  · rw [term, Term.span, hquoted]
  · rwa [term, Term.span, hquoted]
  · rw [term, Term.span, hquoted, Span.stop]
    simp only [List.length_append, List.length_cons]
    omega

/-- A quotation with nothing in it. -/
theorem isSkipped_quotation {before rest : List Char} {i : Nat} (heven : before.count '"' % 2 = 0)
    (hrest : ∀ c ∈ rest.head?, (c != '"') = false) (hle : before.length ≤ i)
    (hlt : i < before.length + (1 + min 1 rest.length)) : IsSkipped (before ++ '"' :: rest) i := by
  have hquoted : quoted (before ++ '"' :: ([] ++ rest)) before.length = [] := quoted_append before nofun hrest
  refine Or.inr ⟨?_, before.length, opens_append heven rest, hquoted, by omega⟩
  obtain rfl | rfl : i = before.length ∨ i = before.length + 1 := by omega
  · simp
  · cases rest with
    | nil => simp at hlt
    | cons c rest =>
      obtain rfl : c = '"' := by simpa using hrest c rfl
      simp

/-- The quotes of a quotation are two, if anything stands behind it. -/
theorem count_quotation {before text rest : List Char} (heven : before.count '"' % 2 = 0)
    (htext : ∀ c ∈ text, (c != '"') = true) (hrest : ∀ c ∈ rest.head?, (c != '"') = false)
    (hmore : rest.drop 1 ≠ []) : (before ++ '"' :: (text ++ rest.take 1)).count '"' % 2 = 0 := by
  cases rest with
  | nil => simp at hmore
  | cons c rest =>
    obtain rfl : c = '"' := by simpa using hrest c rfl
    have hplain : text.count '"' = 0 := List.count_eq_zero.2 fun h => by simpa using htext _ h
    simp [hplain]
    omega

/-- The tokens that are read from a place on, where no quotation is open, tile the text from there on. -/
theorem tiles_read (before cs : List Char) (heven : cs ≠ [] → before.count '"' % 2 = 0) :
    Tiles s (before ++ cs) before.length (read s before.length cs) := by
  generalize hplace : before.length = place
  fun_induction read s place cs generalizing before with
  | case1 place =>
    exact .nil (by simp [hplace])
  | case2 place cs text rest length tokens hempty ih =>
    subst hplace
    have heven := heven (by simp)
    obtain ⟨hsplit, htext, hrest⟩ : cs = text ++ rest ∧ _ := Text.scan_iff.1 ⟨rfl, rfl⟩
    have h := ih (before ++ '"' :: (text ++ rest.take 1)) (count_quotation heven htext hrest)
      (by simp [length]; omega)
    rw [List.append_assoc, List.cons_append, List.append_assoc, List.take_append_drop, ← hsplit] at h
    have hnil : text = [] := List.isEmpty_iff.1 hempty
    refine h.skip (Nat.le_add_right _ _) fun i hle hlt => ?_
    rw [hsplit, hnil, List.nil_append]
    exact isSkipped_quotation heven hrest hle (by simpa [length, hnil] using hlt)
  | case3 place cs text rest length tokens hfilled ih =>
    subst hplace
    have heven := heven (by simp)
    obtain ⟨hsplit, htext, hrest⟩ : cs = text ++ rest ∧ _ := Text.scan_iff.1 ⟨rfl, rfl⟩
    have h := ih (before ++ '"' :: (text ++ rest.take 1)) (count_quotation heven htext hrest)
      (by simp [length]; omega)
    rw [List.append_assoc, List.cons_append, List.append_assoc, List.take_append_drop, ← hsplit] at h
    have hquotation : IsQuotation (before ++ '"' :: cs) (term before.length length text) := by
      rw [hsplit]
      exact isQuotation_term heven htext hrest (by simpa using hfilled)
    have hlength : 0 < 1 + text.length + min 1 rest.length := by omega
    exact h.cons (t := term before.length length text) hlength
      (by rw [hquotation.stop]; exact Nat.min_le_right _ _) (Or.inr hquotation)
  | case4 place c cs hquote hblank ih =>
    have heven := heven (by simp)
    have h := ih (before ++ [c]) (fun _ => by simpa [hquote] using heven) (by simp [hplace])
    rw [List.append_assoc, List.singleton_append] at h
    refine h.skip (Nat.le_add_right _ _) fun i hle hlt => Or.inl ⟨c, ?_, hblank⟩
    obtain rfl : i = before.length := by omega
    simp
  | case5 place c cs hquote hblank halone ih =>
    have heven := heven (by simp)
    have h := ih (before ++ [c]) (fun _ => by simpa [hquote] using heven) (by simp [hplace])
    rw [List.append_assoc, List.singleton_append] at h
    subst hplace
    exact h.cons (t := term before.length 1 [c]) Nat.one_pos (by simp [term, Term.span, Span.stop])
      (Or.inl (isPlain_alone heven hquote (Bool.not_eq_true _ ▸ hblank) halone cs))
  | case6 place c cs hquote hblank halone more length ih =>
    subst hplace
    have heven := heven (by simp)
    obtain ⟨hsplit, hmore, hrest⟩ : cs = more ++ cs.dropWhile s.isWordChar ∧ _ := Text.scan_iff.1 ⟨rfl, rfl⟩
    have hword : ∀ d ∈ c :: more, s.isWordChar d = true :=
      List.forall_mem_cons.2 ⟨by simp [Settings.isWordChar, hquote, hblank, halone], hmore⟩
    have hplain : '"' ∉ c :: more := fun h => by simpa [Settings.isWordChar] using hword _ h
    have h := ih (before ++ c :: more) (fun _ => by simpa [List.count_eq_zero.2 hplain] using heven)
      (by simp [length]; omega)
    rw [List.append_assoc, List.cons_append, ← hsplit] at h
    have hlength : (c :: more).length = length := Nat.add_comm _ _
    have hplain := isPlain_word heven hword hrest
    rw [List.cons_append, ← hsplit, hlength] at hplain
    refine h.cons (t := term before.length length (c :: more)) ?_ ?_ (Or.inl hplain)
    · exact Nat.lt_of_lt_of_le Nat.one_pos (Nat.le_add_right _ _)
    · rw [hsplit]
      simp [term, Term.span, Span.stop, length]
      omega

/-! ## Texts -/

/-- Two tokens are parted : one of them is a separator, or between them there is white space, a double quote
or a separator. -/
def Parted (s : Settings) (cs : List Char) (t u : Term) : Prop :=
  (∃ c ∈ covered cs t.span ++ covered cs u.span, s.isSeparator c = true) ∨
    ∃ i c, t.span.stop ≤ i ∧ i < u.span.start ∧ cs[i]? = some c ∧
      (Text.isBlank c = true ∨ c = '"' ∨ s.isSeparator c = true)

/-- Where words are separated by blanks, a word that goes on as far as it can is parted from what stands
behind it. -/
theorem IsPlain.parted {cs : List Char} {t u : Term} (hspaces : s.wordsSeparatedBySpaces = true)
    (ht : IsPlain s cs t) (hu : IsPlain s cs u) (hlength : 0 < u.span.length) (hstop : u.span.stop ≤ cs.length)
    (hle : t.span.stop ≤ u.span.start) : Parted s cs t u := by
  by_cases hseparator : ∃ c ∈ covered cs t.span ++ covered cs u.span, s.isSeparator c = true
  · exact Or.inl hseparator
  simp only [not_exists, not_and, Bool.not_eq_true, List.forall_mem_append] at hseparator
  have hinside : t.span.stop < cs.length := by
    rw [Span.stop] at hstop
    omega
  have hnext : cs[t.span.stop]? = some cs[t.span.stop] := List.getElem?_eq_getElem hinside
  have hends : s.isWordChar cs[t.span.stop] = false :=
    ht.longest (fun c hc => by simp [Settings.standsAlone, hspaces, hseparator.1 c hc]) _ hnext
  rcases Nat.eq_or_lt_of_le hle with heq | hlt
  · -- the next token would start with a character of a word
    have hmem : cs[t.span.stop] ∈ covered cs u.span := by
      rw [covered, ← heq, List.drop_eq_getElem_cons hinside, List.take_cons hlength]
      exact List.mem_cons_self
    have hcharacter := hu.characters _ hmem
    have hseparator := hseparator.2 _ hmem
    simp [Settings.isWordChar, Settings.standsAlone, hspaces, hcharacter, hseparator] at hends
  · refine Or.inr ⟨t.span.stop, cs[t.span.stop], Nat.le_refl _, hlt, hnext, ?_⟩
    simp only [Settings.isWordChar, Settings.standsAlone, hspaces] at hends
    grind

/-- No character of a text gets lost when it is cut into tokens. The tokens stand one behind the other, and
each one is plain or a quotation. What they do not cover is white space or the quotes of an empty quotation.
Where words are separated by blanks, two plain tokens are parted. -/
theorem tokenize_lossless (s : Settings) (text : String) :
    (∀ t ∈ tokenize s text, 0 < t.span.length ∧ t.span.stop ≤ text.length ∧
      (IsPlain s text.toList t ∨ IsQuotation text.toList t)) ∧
    (tokenize s text).Pairwise (fun t u => t.span.stop ≤ u.span.start) ∧
    (∀ i < text.length, (∀ t ∈ tokenize s text, ¬(t.span.start ≤ i ∧ i < t.span.stop)) →
      IsSkipped text.toList i) ∧
    (s.wordsSeparatedBySpaces = true → (tokenize s text).Pairwise fun t u =>
      IsPlain s text.toList t → IsPlain s text.toList u → Parted s text.toList t u) := by
  have h : Tiles s text.toList 0 (tokenize s text) := tiles_read [] text.toList fun _ => rfl
  rw [← String.length_toList]
  refine ⟨fun t ht => ⟨(h.inside t ht).2.1, (h.inside t ht).2.2, h.kind t ht⟩, h.ordered, ?_, ?_⟩
  · exact fun i hi hfree => h.skipped i (Nat.zero_le i) hi hfree
  · intro hspaces
    refine h.ordered.imp_of_mem fun _ hu hle ht' hu' => ?_
    obtain ⟨-, hlength, hstop⟩ := h.inside _ hu
    exact ht'.parted hspaces hu' hlength hstop hle

end DesktopSearch.Token
