import DesktopSearch.Proofs.Fusion.Kept
import DesktopSearch.Proofs.Parser.Cursor
import DesktopSearch.Proofs.Parser.Draft
import DesktopSearch.Proofs.Pattern.Captured

/-!
# Queries inside a text

The last phrasing looks for "related to" : the run of terms behind these words, up to a comma or to the end,
becomes a query of its own, and a comparison with this query takes the place of the window. The next run may
hold this comparison, so queries are nested. The lists that are fused are the runs, one after the other
(`Parser.runs`), and in the end the terms that are left (`Parser.leftover`).

Each of them is fused up to the first parenthesis that closes nothing in it, and what stands behind is lost.
`Parser.mem_literals_read_of_run` : a word that stands in front is found in the query of the text, unless a
later list has the comparison that holds it behind such a parenthesis. For one run this is said by
`Nests.carries_word` and `Nests.carries`, and for the chain of runs by `carries_of_capturing`.
-/

namespace DesktopSearch

/-! ## Runs that are read -/

namespace Draft

variable {x : Surroundings} {cursor : Option Nat} {ph : Phrasing} {d : Draft}

/-- What the reading of a phrasing understands while one of its patterns is tried. -/
def patternRuns (x : Surroundings) (ph : Phrasing) (d : Draft) (pattern : String) : List (List Term) :=
  match Pattern.ofText pattern with
  | .error _ => []
  | .ok p =>
    (rewrite p (ph.reading.apply x) d.terms).trials.filterMap (Trial.read? (ph.reading.apply x))

/-- What it understands while several patterns are tried, one after the other. -/
def patternsRuns (x : Surroundings) (cursor : Option Nat) (ph : Phrasing) :
    Draft → List String → List (List Term)
  | _, [] => []
  | d, pattern :: patterns =>
    d.patternRuns x ph pattern ++ patternsRuns x cursor ph (d.tryPattern x cursor ph pattern) patterns

/-- What phrasings understand that are tried one after the other. -/
def runs (x : Surroundings) (cursor : Option Nat) : Draft → List Phrasing → List (List Term)
  | _, [] => []
  | d, ph :: phs => d.patternsRuns x cursor ph ph.patterns ++ runs x cursor (d.tryPhrasing x cursor ph) phs

/-- The draft when relations are looked for, if its dates can be folded. -/
def beforeRelations? (x : Surroundings) (now : Instant) (cursor : Option Nat) (d : Draft) : Option Draft :=
  (((Phrasing.ofDates x.flags).foldl (tryPhrasing x cursor) d).foldDates? x.settings now).map
    ((Phrasing.ofComparators ++ Phrasing.ofProperties).foldl (tryPhrasing x cursor))

theorem tryAll?_eq (x : Surroundings) (now : Instant) (cursor : Option Nat) (d : Draft) :
    d.tryAll? x now cursor =
      (d.beforeRelations? x now cursor).map (Phrasing.ofRelations.foldl (tryPhrasing x cursor)) := by
  rw [tryAll?, beforeRelations?, Option.map_map]
  refine Option.map_congr fun dated _ => ?_
  rw [Function.comp_apply, Phrasing.afterDates, List.foldl_append]

/-! ### Chains -/

variable {R : List Term → List Term → List Term → Prop}

theorem tryPattern_capturing {pattern : String}
    (hR : ∀ p, Pattern.ofText pattern = .ok p →
      ∀ {ts cs us}, RewritesWindow p (ph.reading.apply x) ts cs us → R ts cs us) :
    Capturing R d.terms (d.patternRuns x ph pattern) (d.tryPattern x cursor ph pattern).terms := by
  unfold patternRuns tryPattern
  cases hp : Pattern.ofText pattern with
  | error _ => exact .refl _
  | ok p => exact rewriteWithin_capturing (hR p hp) maxRewrites d.terms

theorem tryPatterns_capturing {patterns : List String}
    (hR : ∀ pattern ∈ patterns, ∀ p, Pattern.ofText pattern = .ok p →
      ∀ {ts cs us}, RewritesWindow p (ph.reading.apply x) ts cs us → R ts cs us) :
    Capturing R d.terms (d.patternsRuns x cursor ph patterns)
      (patterns.foldl (tryPattern x cursor ph) d).terms := by
  induction patterns generalizing d with
  | nil => exact .refl _
  | cons pattern patterns ih =>
    rw [List.forall_mem_cons] at hR
    exact (tryPattern_capturing hR.1).trans (ih hR.2)

/-- The runs that phrasings understand lead from the draft to the draft that they leave. -/
theorem tryPhrasings_capturing {phs : List Phrasing}
    (hR : ∀ ph ∈ phs, ∀ pattern ∈ ph.patterns, ∀ p, Pattern.ofText pattern = .ok p →
      ∀ {ts cs us}, RewritesWindow p (ph.reading.apply x) ts cs us → R ts cs us) :
    Capturing R d.terms (d.runs x cursor phs) (phs.foldl (tryPhrasing x cursor) d).terms := by
  induction phs generalizing d with
  | nil => exact .refl _
  | cons ph phs ih =>
    rw [List.forall_mem_cons] at hR
    exact (tryPatterns_capturing hR.1).trans (ih hR.2)

end Draft

/-! ## Nesting -/

variable {x : Surroundings} {t : Term} {ts run us : List Term} {word : String}

/-- `us` is `ts` with a window replaced by a comparison with what a run comes to. The run holds what is no
literal in the window. -/
def Nests (x : Surroundings) (ts run us : List Term) : Prop :=
  ∃ before window after s head, ts = before ++ (window ++ after) ∧
    us = before ++ .comparison s head (fuse x.settings x.flags run 0).1 :: after ∧
    ∀ t ∈ window, t.literal? = none → t ∈ run

/-- A comparison in the list holds the word. -/
def Carries (word : String) (ts : List Term) : Prop :=
  ∃ s head value, .comparison s head value ∈ ts ∧ .string word ∈ value.literals

/-- What a list carries is a literal of what it comes to, unless it stands behind a parenthesis. -/
theorem Carries.mem_literals_fuse (h : Carries word ts)
    (hbehind : ∀ u ∈ behind x.settings 0 ts, .string word ∉ u.literals) :
    .string word ∈ (fuse x.settings x.flags ts 0).1.literals := by
  obtain ⟨s, head, value, hmem, hvalue⟩ := h
  obtain hfront | hcloses | hlost := mem_inFront_or x.settings hmem
  · exact (mem_literals_fuse_comparison hfront hvalue).2
  · have hplain : Role.of x.settings (.comparison s head value) = .plain := rfl
    exact absurd (hplain.symm.trans hcloses) (by simp)
  · exact absurd hvalue (hbehind (.comparison s head value) hlost)

namespace Nests

/-- The comparison holds the words in front. -/
theorem carries_word (h : Nests x ts run us) (ht : t ∈ inFront x.settings 0 run)
    (hplain : Role.of x.settings t = .plain) (hword : t.string? = some word) :
    Carries (globbed x.flags word) us := by
  obtain ⟨before, window, after, s, head, -, rfl, -⟩ := h
  exact ⟨s, head, _, List.mem_append_right _ List.mem_cons_self,
    (mem_literals_fuse_word ht hplain hword).2⟩

/-- Another comparison is untouched, or in the run. -/
theorem carries (h : Nests x ts run us) (hts : Carries word ts)
    (hbehind : ∀ u ∈ behind x.settings 0 run, .string word ∉ u.literals) : Carries word us := by
  obtain ⟨before, window, after, s, head, rfl, rfl, hwindow⟩ := h
  obtain ⟨r, head', value, hmem, hvalue⟩ := hts
  rcases List.mem_append.1 hmem with hmem | hmem
  · exact ⟨r, head', value, List.mem_append_left _ hmem, hvalue⟩
  rcases List.mem_append.1 hmem with hmem | hmem
  · have hrun : Carries word run := ⟨r, head', value, hwindow _ hmem rfl, hvalue⟩
    exact ⟨s, head, _, List.mem_append_right _ List.mem_cons_self, hrun.mem_literals_fuse hbehind⟩
  · exact ⟨r, head', value, List.mem_append_right _ (List.mem_cons_of_mem _ hmem), hvalue⟩

end Nests

/-- What a list carries is carried on by the runs after it. -/
theorem carries_of_capturing {runs : List (List Term)} (h : Capturing (Nests x) ts runs us)
    (hts : Carries word ts)
    (hbehind : ∀ run ∈ runs, ∀ u ∈ behind x.settings 0 run, .string word ∉ u.literals) :
    Carries word us := by
  induction h with
  | refl ts => exact hts
  | head first _ ih =>
    rw [List.forall_mem_cons] at hbehind
    exact ih (first.carries hts hbehind.1) hbehind.2

/-! ## Relations -/

/-- A run is read if it comes to something. -/
theorem nests_of_readSubquery {p : Pattern} (hp : p.IsSlotless) {property : Uri}
    (h : RewritesWindow p (Reading.readSubquery x.settings x.flags property) ts run us) :
    Nests x ts run us := by
  obtain ⟨before, window, after, hts, hus, hwindow⟩ := h.mem_of_literal?_eq_none hp
  have hvalid : (fuse x.settings x.flags run 0).1.isValid = true := by
    by_contra hinvalid
    exact h.answers (if_neg hinvalid)
  have hread : Reading.readSubquery x.settings x.flags property run =
      [.compare (some property) (fuse x.settings x.flags run 0).1 .equal] :=
    if_pos hvalid
  rw [hread] at hus
  exact ⟨before, window, after, _, _, hts, hus, hwindow⟩

theorem Phrasing.isSlotless_of_mem_ofRelations {ph : Phrasing} (hph : ph ∈ ofRelations)
    {pattern : String} (hpattern : pattern ∈ ph.patterns) {p : Pattern}
    (hp : Pattern.ofText pattern = .ok p) : p.IsSlotless := by
  have hall : ofRelations.all (fun ph => ph.patterns.all fun pattern =>
      (Pattern.ofText pattern).toOption.all (·.parts.all (!·.isSlot))) = true := by
    decide +kernel
  have hparts := List.all_eq_true.1 (List.all_eq_true.1 hall ph hph) pattern hpattern
  rw [hp] at hparts
  exact fun part hpart => by simpa using List.all_eq_true.1 hparts part hpart

/-- The runs of relations are nested, one after the other, and leave the terms of the finished draft. -/
theorem Draft.capturing_runs (x : Surroundings) (cursor : Option Nat) (d : Draft) :
    Capturing (Nests x) d.terms (d.runs x cursor Phrasing.ofRelations)
      (Phrasing.ofRelations.foldl (tryPhrasing x cursor) d).terms := by
  refine tryPhrasings_capturing fun ph hph pattern hpattern p hp ts cs us h => ?_
  have hslotless := Phrasing.isSlotless_of_mem_ofRelations hph hpattern hp
  obtain rfl := List.mem_singleton.1 hph
  exact nests_of_readSubquery hslotless h

/-! ## Texts -/

namespace Parser

/-- A text when relations are looked for, if its dates can be folded. -/
def beforeRelations? (p : Parser) (flags : ParserFlags) (cursor : Option Nat) (text : String) : Option Draft :=
  Draft.beforeRelations? ⟨p.settings, flags, p.directory⟩ p.now cursor ⟨tokenize p.settings text, [], []⟩

/-- The runs of terms that become queries of their own while a text is read. -/
def runs (p : Parser) (flags : ParserFlags) (cursor : Option Nat) (text : String) : List (List Term) :=
  (p.beforeRelations? flags cursor text).elim [] fun d =>
    d.runs ⟨p.settings, flags, p.directory⟩ cursor Phrasing.ofRelations

/-- The terms that are left in the end. -/
def leftover (p : Parser) (flags : ParserFlags) (cursor : Option Nat) (text : String) : List Term :=
  (p.beforeRelations? flags cursor text).elim [] fun d =>
    (Phrasing.ofRelations.foldl (Draft.tryPhrasing ⟨p.settings, flags, p.directory⟩ cursor) d).terms

variable {p : Parser} {flags : ParserFlags} {cursor : Option Nat} {text : String}

/-- What is left of a text that could be read until relations are looked for is fused to its query. -/
theorem exists_read_of_beforeRelations? {d : Draft} (h : p.beforeRelations? flags cursor text = some d) :
    ∃ q, (p.read flags cursor text).1 = some q ∧
      q.term = (fuse p.settings flags (p.leftover flags cursor text) 0).1 := by
  refine ⟨.ofTerm (fuse p.settings flags (p.leftover flags cursor text) 0).1, read_eq_some_iff.2
    ⟨Phrasing.ofRelations.foldl (Draft.tryPhrasing ⟨p.settings, flags, p.directory⟩ cursor) d, ?_, ?_⟩, rfl⟩
  · rw [Draft.tryAll?_eq, ← beforeRelations?, h, Option.map_some]
  · rw [leftover, h, Option.elim_some]

/-- A plain word of a run is searched for if it stands in front of the first parenthesis that closes nothing
in the run, and if no list that is fused later has the comparison that holds it behind such a parenthesis. -/
theorem mem_literals_read_of_run (p : Parser) (flags : ParserFlags) (cursor : Option Nat) (text : String)
    {earlier later : List (List Term)} {run : List Term} {t : Term} {word : String}
    (hruns : p.runs flags cursor text = earlier ++ run :: later)
    (ht : t ∈ inFront p.settings 0 run) (hplain : Role.of p.settings t = .plain)
    (hword : t.string? = some word)
    (hlater : ∀ ts ∈ later ++ [p.leftover flags cursor text], ∀ u ∈ behind p.settings 0 ts,
      .string (globbed flags word) ∉ u.literals) :
    ∃ q, (p.read flags cursor text).1 = some q ∧ .string (globbed flags word) ∈ q.term.literals := by
  cases hd : p.beforeRelations? flags cursor text with
  | none => simp [runs, hd] at hruns
  | some d =>
    have hall : Capturing (Nests ⟨p.settings, flags, p.directory⟩) d.terms (p.runs flags cursor text)
        (p.leftover flags cursor text) := by
      rw [runs, leftover, hd, Option.elim_some, Option.elim_some]
      exact Draft.capturing_runs ⟨p.settings, flags, p.directory⟩ cursor d
    rw [List.forall_mem_append, List.forall_mem_singleton] at hlater
    rw [hruns] at hall
    obtain ⟨_, -, hrest⟩ := hall.exists_of_append
    cases hrest with
    | head first rest =>
      have hcarries := carries_of_capturing rest (first.carries_word ht hplain hword) hlater.1
      obtain ⟨q, hq, hterm⟩ := exists_read_of_beforeRelations? hd
      exact ⟨q, hq, hterm ▸ hcarries.mem_literals_fuse (x := ⟨p.settings, flags, p.directory⟩) hlater.2⟩

/-- "related to" captures the parenthesis behind "Akademy" and the word behind it. Nothing is lost later. -/
theorem exists_runs_parenthesized :
    let p := fresh .english none
      (.midnight ⟨2024, 2, 29, by decide, by decide, by decide, by decide, by decide, by decide⟩)
    let text := "(related to Akademy) Kate"
    ∃ akademy close kate, p.runs {} none text = [[akademy, close, kate]] ∧
      (akademy.string? = some "Akademy" ∧ Role.of .english akademy = .plain) ∧
      Role.of .english close = .closes ∧
      (kate.string? = some "Kate" ∧ Role.of .english kate = .plain) ∧
      behind .english 0 (p.leftover {} none text) = [] ∧
      ∃ q, (p.read {} none text).1 = some q ∧ q.term.literals = [.string "Akademy"] := by
  intro p text
  have hread : (p.runs {} none text).map (·.map fun t => (t.string?, Role.of .english t)) =
        [[(some "Akademy", .plain), (some ")", .closes), (some "Kate", .plain)]] ∧
      (behind .english 0 (p.leftover {} none text)).length = 0 ∧
      (fuse .english {} (p.leftover {} none text) 0).1.literals = [.string "Akademy"] := by
    decide +kernel
  obtain ⟨hruns, hbehind, hliterals⟩ := hread
  simp only [List.map_eq_cons_iff, List.map_eq_nil_iff, Prod.mk.injEq] at hruns
  obtain ⟨_, _, hruns, hrun, rfl⟩ := hruns
  obtain ⟨akademy, _, rfl, hakademy, close, _, rfl, ⟨-, hclose⟩, kate, _, rfl, hkate, rfl⟩ := hrun
  refine ⟨akademy, close, kate, hruns, hakademy, hclose, hkate, List.length_eq_zero_iff.1 hbehind, ?_⟩
  cases hd : p.beforeRelations? {} none text with
  | none => simp [runs, hd] at hruns
  | some d =>
    obtain ⟨q, hq, hterm⟩ := exists_read_of_beforeRelations? hd
    exact ⟨q, hq, by rw [hterm]; exact hliterals⟩

/-- "Akademy" stands in front of the parenthesis. -/
theorem mem_literals_read_of_run_parenthesized :
    let p := fresh .english none
      (.midnight ⟨2024, 2, 29, by decide, by decide, by decide, by decide, by decide, by decide⟩)
    let text := "(related to Akademy) Kate"
    ∃ run t, p.runs {} none text = [] ++ run :: [] ∧ t ∈ inFront .english 0 run ∧
      Role.of .english t = .plain ∧ t.string? = some "Akademy" ∧
      (∀ ts ∈ [] ++ [p.leftover {} none text], ∀ u ∈ behind .english 0 ts,
        .string (globbed {} "Akademy") ∉ u.literals) ∧
      ∃ q, (p.read {} none text).1 = some q ∧ .string (globbed {} "Akademy") ∈ q.term.literals := by
  intro p text
  obtain ⟨akademy, close, kate, hruns, ⟨hword, hplain⟩, hclose, -, hbehind, -⟩ :=
    exists_runs_parenthesized
  have hruns : p.runs {} none text = [] ++ [akademy, close, kate] :: [] := hruns
  have hfront : akademy ∈ inFront p.settings 0 [akademy, close, kate] := by
    rw [inFront_other (hplain ▸ by simp) (hplain ▸ by simp)]
    exact List.mem_cons_self
  have hlater : ∀ ts ∈ [] ++ [p.leftover {} none text], ∀ u ∈ behind .english 0 ts,
      .string (globbed {} "Akademy") ∉ u.literals := by
    intro ts hts u hu
    rw [List.mem_singleton.1 hts, hbehind] at hu
    simp at hu
  exact ⟨_, akademy, hruns, hfront, hplain, hword, hlater,
    mem_literals_read_of_run p {} none text hruns hfront hplain hword hlater⟩

/-- The word behind the parenthesis is captured, and lost. -/
theorem not_mem_literals_read_parenthesized :
    let p := fresh .english none
      (.midnight ⟨2024, 2, 29, by decide, by decide, by decide, by decide, by decide, by decide⟩)
    let text := "(related to Akademy) Kate"
    LeavesOpen .english 0 (tokenize .english text) 0 ∧
      (∃ run ∈ p.runs {} none text, ∃ t ∈ run, Role.of .english t = .plain ∧ t.string? = some "Kate") ∧
      ∃ q, (p.read {} none text).1 = some q ∧ .string "Kate" ∉ q.term.literals := by
  intro p text
  obtain ⟨akademy, close, kate, hruns, -, -, ⟨hword, hplain⟩, -, q, hq, hliterals⟩ :=
    exists_runs_parenthesized
  refine ⟨by decide +kernel, ⟨_, hruns ▸ List.mem_singleton_self _, kate, by simp, hplain, hword⟩, q, hq, ?_⟩
  rw [hliterals]
  decide

end Parser

end DesktopSearch
