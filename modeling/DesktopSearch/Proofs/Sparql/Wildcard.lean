import DesktopSearch.Proofs.Sparql.Phrase
import DesktopSearch.Proofs.Text.Scan

/-!
# Wildcards in searched texts

Full-text search needs some characters in front of a wildcard. Whether a text has them is decided once, at
its first wildcard, so every wildcard of a text that is searched for has them in front of it, but they may
be those of another word : the first word of the text always has its own (`early_words_follow`). A text that
has not got them is compared with the regular expression of the glob instead.

What is compared is followed through lowering by the relation `Term.Contains` between a term and the
literals whose texts it wants to be contained in a value; wherever lowering succeeds, a pattern for each of
them stands somewhere between the braces (`finds_of_lower`).
-/

namespace DesktopSearch

namespace Sparql

open Sparql.Pattern Text

/-! ## Early wildcards -/

theorem hasEarlyWildcard_iff {cs : List Char} : hasEarlyWildcard cs ↔
    ∃ front c rest, cs = front ++ c :: rest ∧ isWildcard c ∧ front.length < wildcardDistance := by
  rw [hasEarlyWildcard, Bool.and_eq_true, decide_eq_true_eq]
  constructor
  · rintro ⟨hany, hlength⟩
    have hcut := List.takeWhile_append_dropWhile (p := (!isWildcard ·)) (l := cs)
    cases hrest : cs.dropWhile (!isWildcard ·) with
    | nil =>
      rw [List.dropWhile_eq_nil_iff] at hrest
      obtain ⟨c, hc, hwildcard⟩ := List.any_eq_true.1 hany
      have hplain := hrest c hc
      simp [hwildcard] at hplain
    | cons c rest =>
      have hstop : ∀ d ∈ (cs.dropWhile (!isWildcard ·)).head?, (!isWildcard d) = false :=
        eq_false_of_mem_head?_dropWhile
      have hc := hstop c (by rw [hrest]; rfl)
      rw [hrest] at hcut
      exact ⟨_, c, rest, hcut.symm, by simpa using hc, hlength⟩
  · rintro ⟨front, c, rest, rfl, hc, hlength⟩
    refine ⟨by simp [hc], Nat.lt_of_le_of_lt ?_ hlength⟩
    rw [List.takeWhile_append]
    split
    · simp [hc]
    · exact (List.takeWhile_prefix _).length_le

/-- A text has the early wildcards of the texts that it starts with. -/
theorem hasEarlyWildcard_of_startsWith {w cs : List Char} (h : w <+: cs) (hw : hasEarlyWildcard w) :
    hasEarlyWildcard cs := by
  obtain ⟨rest, rfl⟩ := h
  obtain ⟨front, c, behind, rfl, hc, hlength⟩ := hasEarlyWildcard_iff.1 hw
  exact hasEarlyWildcard_iff.2 ⟨front, c, behind ++ rest, by simp, hc, hlength⟩

/-! ## Patterns for texts -/

/-- The pattern looks for the text : for the text itself, or by the regular expression of the glob if a
wildcard stands too close to its start. -/
def Finds (text : String) (p : Pattern) : Prop :=
  ∃ v, if hasEarlyWildcard (trim text.toList) then
      p = .matchesRegexp v (String.ofList (globPattern (trim text.toList)))
    else ∃ score, p = .searches v (String.ofList (trim text.toList)) score

theorem finds_of_containsPattern {scoring counts : Bool} {v : Variable} {text : String} {p : Pattern}
    {s s' : Lowering} (h : containsPattern scoring v text counts s = some (p, s')) : Finds text p := by
  refine ⟨v, ?_⟩
  rw [containsPattern] at h
  dsimp only at h
  split at h
  · rename_i hearly
    rw [if_pos hearly]
    exact (pure_eq_some.1 h).1.symm
  rename_i hearly
  rw [if_neg hearly]
  split at h
  · exact ⟨none, (pure_eq_some.1 h).1.symm⟩
  split at h
  · obtain ⟨-, s₁, -, h⟩ := bind_eq_some.1 h
    exact ⟨none, (pure_eq_some.1 h).1.symm⟩
  · obtain ⟨score, s₁, -, h⟩ := bind_eq_some.1 h
    obtain ⟨-, s₂, -, h⟩ := bind_eq_some.1 h
    exact ⟨some score, (pure_eq_some.1 h).1.symm⟩

/-- A pattern of the list, or one between its braces, has the property. -/
inductive Somewhere (P : Pattern → Prop) : List Pattern → Prop
  | here {p : Pattern} {ps : List Pattern} (h : P p) : Somewhere P (p :: ps)
  | within {p : Pattern} {ps body : List Pattern} (hbody : body ∈ p.bodies) (h : Somewhere P body) :
    Somewhere P (p :: ps)
  | behind {p : Pattern} {ps : List Pattern} (h : Somewhere P ps) : Somewhere P (p :: ps)

section

variable {P : Pattern → Prop} {ps qs : List Pattern}

theorem Somewhere.append_right (h : Somewhere P ps) : Somewhere P (ps ++ qs) := by
  induction h with
  | here h => exact .here h
  | within hbody h _ => exact .within hbody h
  | behind _ ih => exact .behind ih

theorem Somewhere.append_left (h : Somewhere P qs) : Somewhere P (ps ++ qs) := by
  induction ps with
  | nil => exact h
  | cons p ps ih => exact .behind ih

/-- Somewhere is between some braces. -/
theorem Somewhere.exists_inside {all around : List Pattern} (h : Somewhere P ps)
    (front : List Pattern) (hinside : Inside all around (front ++ ps)) :
    ∃ around front p rest, Inside all around (front ++ p :: rest) ∧ P p := by
  induction h generalizing around front with
  | here h => exact ⟨_, _, _, _, hinside, h⟩
  | within hbody _ ih => exact ih [] (hinside.inner hbody)
  | @behind p ps _ ih => exact ih (front ++ [p]) (by rwa [List.append_assoc])

end

/-! ## Terms -/

end Sparql

/-- The term wants the text of the literal to be contained in a value. -/
inductive Term.Contains (l : Literal) : Term → Prop
  | literal (s : Span) : Contains l (.literal s l)
  | value {c : Comparison} (s r : Span) (h : c.comparator = .contains) :
    Contains l (.comparison s c (.literal r l))
  | nested {c : Comparison} {t : Term} (s : Span) (ht : t.literal? = none) (h : Contains l t) :
    Contains l (.comparison s c t)
  | negation {t : Term} (s : Span) (h : Contains l t) : Contains l (.negation s t)
  | optional {t : Term} (s : Span) (h : Contains l t) : Contains l (.optional s t)
  | member {t : Term} {ts : List Term} (s : Span) (k : Connective) (ht : t ∈ ts) (h : Contains l t) :
    Contains l (.group s k ts)

theorem Term.Contains.isValid {l : Literal} {t : Term} (h : t.Contains l) : t.isValid = true := by
  cases h <;> rfl

namespace Sparql

open Sparql.Pattern Text

variable {x : Setting} {c : Comparison} {l : Literal} {subject : Variable} {ps : List Pattern}
  {s s' : Lowering}

theorem finds_of_literalComparison (hc : c.comparator = .contains)
    (h : literalComparison x c l subject s = some (ps, s')) : Somewhere (Finds l.text) ps := by
  obtain ⟨p, s₁, -, h⟩ := bind_eq_some.1 h
  rw [if_neg (by simp [hc])] at h
  obtain ⟨⟨v, isFirst⟩, s₂, -, h⟩ := bind_eq_some.1 h
  simp only [hc] at h
  obtain ⟨filter, s₃, hfilter, h⟩ := bind_eq_some.1 h
  obtain ⟨rfl, -⟩ := pure_eq_some.1 h
  have hfinds := finds_of_containsPattern hfilter
  split
  · exact .behind (.here hfinds)
  · exact .here hfinds

theorem finds_of_labelComparison (hc : c.comparator = .contains)
    (h : labelComparison x c l subject s = some (ps, s')) : Somewhere (Finds l.text) ps := by
  obtain ⟨p, s₁, -, h⟩ := bind_eq_some.1 h
  obtain ⟨⟨v, isFirst⟩, s₂, -, h⟩ := bind_eq_some.1 h
  obtain ⟨label, s₃, -, h⟩ := bind_eq_some.1 h
  simp only [hc] at h
  obtain ⟨text, s₄, -, h⟩ := bind_eq_some.1 h
  obtain ⟨contains, s₅, hcontains, h⟩ := bind_eq_some.1 h
  obtain ⟨rfl, -⟩ := pure_eq_some.1 h
  exact Somewhere.append_left (.behind (.here (finds_of_containsPattern hcontains)))

theorem finds_of_lowerLiteral (h : lowerLiteral x l subject s = some (ps, s')) :
    Somewhere (Finds l.text) ps := by
  obtain ⟨property, s₁, -, h⟩ := bind_eq_some.1 h
  obtain ⟨object, s₂, -, h⟩ := bind_eq_some.1 h
  obtain ⟨contains, s₃, hcontains, h⟩ := bind_eq_some.1 h
  obtain ⟨rfl, -⟩ := pure_eq_some.1 h
  exact .behind (.here (finds_of_containsPattern hcontains))

variable {P : Pattern → Prop}

/-- The step leaves a pattern with the property. -/
def Leaves (P : Pattern → Prop) (step : Lower (List Pattern)) : Prop :=
  ∀ s ps s', step s = some (ps, s') → Somewhere P ps

theorem Leaves.inGroup {step : Lower (List Pattern)} (h : Leaves P step) :
    Leaves P (inGroup step) := by
  intro s ps s' hstep
  obtain ⟨s₁, hinner, -⟩ := inGroup_eq_some.1 hstep
  exact h _ _ _ hinner

theorem leaves_nestedComparison {nested : Variable → Lower (List Pattern)}
    (h : ∀ v, Leaves P (nested v)) : Leaves P (nestedComparison x c nested subject) := by
  intro s ps s' hstep
  obtain ⟨p, s₁, -, hstep⟩ := bind_eq_some.1 hstep
  obtain ⟨⟨v, isFirst⟩, s₂, -, hstep⟩ := bind_eq_some.1 hstep
  obtain ⟨qs, s₃, hnested, hstep⟩ := bind_eq_some.1 hstep
  obtain ⟨rfl, -⟩ := pure_eq_some.1 hstep
  exact Somewhere.append_left ((h v).inGroup _ _ _ hnested)

theorem leaves_lowerAll {t : Term} {ts : List Term} (ht : t ∈ ts)
    (h : Leaves P (lower x t subject)) : Leaves P (lowerAll x ts subject) := by
  induction ts with
  | nil => simp at ht
  | cons u ts ih =>
    intro s ps s' hstep
    rw [lowerAll] at hstep
    obtain ⟨qs, s₁, hfirst, hstep⟩ := bind_eq_some.1 hstep
    obtain ⟨rs, s₂, hrest, hstep⟩ := bind_eq_some.1 hstep
    obtain ⟨rfl, -⟩ := pure_eq_some.1 hstep
    rcases List.mem_cons.1 ht with rfl | ht
    · exact (h _ _ _ hfirst).append_right
    · exact (ih ht _ _ _ hrest).append_left

theorem leaves_lowerBranches {t : Term} {ts : List Term} (ht : t ∈ ts)
    (h : Leaves P (lower x t subject)) {s s' : Lowering} {branches : List Pattern}
    (hstep : lowerBranches x ts subject s = some (branches, s')) :
    ∃ body, .block body ∈ branches ∧ Somewhere P body := by
  induction ts generalizing s s' branches with
  | nil => simp at ht
  | cons u ts ih =>
    rw [lowerBranches] at hstep
    obtain ⟨qs, s₁, hfirst, hstep⟩ := bind_eq_some.1 hstep
    obtain ⟨rs, s₂, hrest, hstep⟩ := bind_eq_some.1 hstep
    obtain ⟨rfl, -⟩ := pure_eq_some.1 hstep
    rcases List.mem_cons.1 ht with rfl | ht
    · exact ⟨qs, List.mem_cons_self .., h.inGroup _ _ _ hfirst⟩
    · obtain ⟨body, hbody, hfinds⟩ := ih ht hrest
      exact ⟨body, List.mem_cons_of_mem _ hbody, hfinds⟩

/-- Wherever a term wants a text to be contained in a value, lowering it writes a pattern that looks for
the text. -/
theorem finds_of_lower {t : Term} (ht : t.Contains l) (subject : Variable) :
    Leaves (Finds l.text) (lower x t subject) := by
  induction ht generalizing subject with
  | literal r =>
    intro s ps s' h
    exact finds_of_lowerLiteral h
  | value r r' hc =>
    intro s ps s' h
    unfold lower lowerComparison at h
    rw [if_neg (by simp [Term.isValid])] at h
    split at h
    · exact finds_of_literalComparison hc h
    · exact finds_of_labelComparison hc h
  | nested r ht hcontains ih =>
    intro s ps s' h
    unfold lower lowerComparison at h
    rw [if_neg (by simp [hcontains.isValid])] at h
    split at h
    · rw [ht] at h
      contradiction
    split at h
    · contradiction
    · cases hcontains
    · exact leaves_nestedComparison ih _ _ _ h
  | negation r _ ih =>
    intro s ps s' h
    rw [lower] at h
    obtain ⟨body, s₁, hbody, h⟩ := bind_eq_some.1 h
    obtain ⟨rfl, -⟩ := pure_eq_some.1 h
    exact .within (List.mem_singleton_self body) ((ih subject).inGroup _ _ _ hbody)
  | optional r _ ih =>
    intro s ps s' h
    rw [lower] at h
    obtain ⟨body, s₁, hbody, h⟩ := bind_eq_some.1 h
    obtain ⟨rfl, -⟩ := pure_eq_some.1 h
    exact .within (List.mem_singleton_self body) ((ih subject).inGroup _ _ _ hbody)
  | member r k ht _ ih =>
    cases k with
    | and => exact leaves_lowerAll ht (ih subject)
    | or =>
      intro s ps s' h
      rw [lower] at h
      obtain ⟨branches, s₁, hbranches, h⟩ := bind_eq_some.1 h
      obtain ⟨rfl, -⟩ := pure_eq_some.1 h
      obtain ⟨body, hbody, hfinds⟩ := leaves_lowerBranches ht (ih subject) hbranches
      exact .within (List.mem_filterMap.2 ⟨_, hbody, rfl⟩) hfinds

/-! ## Queries -/

theorem searched_of_body? {o : Ontology} {q : Query} {f : Flags} (h : body? o q f = some (ps, s))
    {around front rest : List Pattern} {v : Variable} {t : String} {score : Option Variable}
    (hinside : Inside ps around (front ++ .searches v t score :: rest)) :
    IsSought q f.counting t ∧ hasEarlyWildcard t.toList = false := by
  let m : Material := ⟨fun _ => True, fun t => IsSought q f.counting t ∧ hasEarlyWildcard t.toList = false⟩
  have hgives : m.Gives (prepared o q f.counting) := by
    refine ⟨fun _ _ _ _ => trivial, fun l hl hearly => ⟨⟨l, mem_literals_of_prepared hl, rfl⟩, ?_⟩⟩
    rwa [String.toList_ofList]
  obtain ⟨-, -, hps⟩ :=
    makes_lowerQuery hgives {} ps s rfl Material.covers_start (lowerQuery_of_body? h)
  exact (hps.of_inside hinside).text t rfl

/-- Every text that a query searches for is one of its literals', and each wildcard in it has the characters
in front of it that full-text search needs. They may be those of other words: a word with an early wildcard
stands behind another word, but not always behind its own characters. Wherever the term that is lowered
wants a text to be contained in a value, there is a pattern that looks for this text, and if the first
wildcard of the text is too early, it does so by the regular expression of the glob. -/
theorem early_words_follow (o : Ontology) (q : Query) (flags : Flags)
    (h : body? o q (flags.withQuery q.flags) = some (ps, s)) :
    (∀ around front rest v t score, Inside ps around (front ++ .searches v t score :: rest) →
      IsSought q (flags.withQuery q.flags).counting t ∧
      (∀ before c after, t.toList = before ++ c :: after → isWildcard c →
        wildcardDistance ≤ before.length) ∧
      ∀ before w after, words t.toList = before ++ w :: after → hasEarlyWildcard w → before ≠ []) ∧
    ∀ l, (prepared o q (flags.withQuery q.flags).counting).Contains l →
      ∃ around front p rest, Inside ps around (front ++ p :: rest) ∧ Finds l.text p := by
  refine ⟨fun around front rest v t score hinside => ?_, fun l hl => ?_⟩
  · obtain ⟨hsought, hearly⟩ := searched_of_body? h hinside
    refine ⟨hsought, fun before c after ht hc => ?_, ?_⟩
    · by_contra hlength
      rw [hasEarlyWildcard_iff.2 ⟨before, c, after, ht, hc, Nat.lt_of_not_le hlength⟩] at hearly
      contradiction
    · rintro before w after hwords hw rfl
      obtain ⟨l, -, rfl⟩ := hsought
      rw [String.toList_ofList] at hwords hearly
      have hfirst := prefix_of_words_eq_cons isBlank_of_mem_head?_trim hwords
      rw [hasEarlyWildcard_of_startsWith hfirst hw] at hearly
      contradiction
  · obtain ⟨qs, s₁, hlower, -, rfl, -, -⟩ := exists_lower_of_body? h
    exact (finds_of_lower hl _ _ _ _ hlower).append_right.exists_inside [] .self

/-- The second word has an early wildcard, and the first one the characters that the text needs. -/
theorem early_words_follow_abcd :
    let q : Query := .ofTerm (.ofLiteral (.string " abcd* e*"))
    let flags : Flags := { noResultRestrictions := true }
    ∃ ps s, body? .desktop q (flags.withQuery q.flags) = some (ps, s) ∧
      (∀ before c after, "abcd* e*".toList = before ++ c :: after → isWildcard c →
        wildcardDistance ≤ before.length) ∧
      (∀ before w after, words "abcd* e*".toList = before ++ w :: after → hasEarlyWildcard w →
        before ≠ []) ∧
      ∃ around front p rest, Inside ps around (front ++ p :: rest) ∧ Finds " abcd* e*" p := by
  intro q flags
  have hbody : body? .desktop q (flags.withQuery q.flags) =
      some ([.triple (.var .result) (.var (.generated 1)) (.var (.generated 2))] ++
        [.searches (.generated 2) "abcd* e*" none],
        { used := 2, searches := [⟨.generated 2, "abcd* e*", none⟩] }) := rfl
  obtain ⟨hsearches, hwanted⟩ := early_words_follow .desktop q flags hbody
  obtain ⟨-, hwildcards, hwords⟩ := hsearches [] _ [] _ _ _ .self
  exact ⟨_, _, hbody, hwildcards, hwords, hwanted (.string " abcd* e*") (.literal .empty)⟩

/-- A word with an early wildcard is searched for if a longer word stands in front of it. -/
theorem early_word_searched_hello :
    let q : Query := .ofTerm (.ofLiteral (.string "hello w*"))
    let flags : Flags := { noResultRestrictions := true }
    compile .desktop q flags =
      "select distinct ?r where \x7b ?r ?v1 ?v2 . ?v2 bif:contains \"'hello w*'\" . \x7d" ∧
    (∃ front s, body? .desktop q (flags.withQuery q.flags) =
      some (front ++ [.searches (.generated 2) "hello w*" none], s)) ∧
    ∃ w ∈ words "hello w*".toList, hasEarlyWildcard w := by
  intro q flags
  have hbody : body? .desktop q (flags.withQuery q.flags) =
      some ([.triple (.var .result) (.var (.generated 1)) (.var (.generated 2))] ++
        [.searches (.generated 2) "hello w*" none],
        { used := 2, searches := [⟨.generated 2, "hello w*", none⟩] }) := rfl
  exact ⟨by decide +kernel, ⟨_, _, hbody⟩, "w*".toList, by decide, by decide⟩

end Sparql

end DesktopSearch
