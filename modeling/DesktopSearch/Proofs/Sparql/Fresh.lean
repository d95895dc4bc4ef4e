import DesktopSearch.Ontology.Desktop
import DesktopSearch.Proofs.Sparql.Body

/-!
# Variables that nothing else is named like

All variables that a query makes up come from one count, so they differ from each other, from the result and
from the variables of fetched properties, wherever in the query they stand (`Mentions`). A comparison may be
named as its author likes, though, and nothing keeps its name apart from those that are made up : it is one
of them exactly if it is the letter v with a number that has been counted (`generated_fresh`).
-/

namespace DesktopSearch.Sparql

open Sparql.Pattern

/-- The variable stands in a pattern, a column, a sort key or a search of the query. -/
inductive Mentions (ps : List Pattern) (s : Lowering) (v : Variable) : Prop
  | pattern {around front rest : List Pattern} {p : Pattern}
    (inside : Inside ps around (front ++ p :: rest)) (mem : v ∈ p.ownVariables)
  | column {c : Column} (column : c ∈ s.columns) (mem : v ∈ c.variables)
  | sortKey {k : SortKey} (sortKey : k ∈ s.sortKeys) (eq : v = k.expression.variable)
  | search {f : Search} (search : f ∈ s.searches) (mem : v = f.variable_ ∨ v ∈ f.score)

variable {o : Ontology} {q : Query} {f : Flags} {ps : List Pattern} {s : Lowering}

/-- Every variable of a query is one of its material. -/
theorem Mentions.has {m : Material} {v : Variable} (h : Mentions ps s v) (hs : m.Covers s)
    (hps : EverywhereAll (m.Fits s.used) ps) : m.Has s.used v := by
  cases h with
  | pattern inside mem => exact (hps.of_inside inside).known v mem
  | column column mem => exact hs.columns _ column v mem
  | sortKey sortKey eq => exact eq ▸ hs.sortKeys _ sortKey
  | search search mem =>
    obtain ⟨hvariable, hscore, -⟩ := hs.searches _ search
    rcases mem with rfl | mem
    · exact hvariable
    · exact hscore v mem

theorem Mentions.of_mem {v : Variable} {p : Pattern} (hp : p ∈ ps) (hv : v ∈ p.ownVariables) :
    Mentions ps s v := by
  obtain ⟨front, rest, rfl⟩ := List.append_of_mem hp
  exact .pattern .self hv

theorem exists_trace_of_body? (h : body? o q f = some (ps, s)) :
    ∃ vs, Trace (lowerQuery o q f) {} vs ps s ∧
      ∀ n, Mentions ps s (.generated n) → .generated n ∈ vs := by
  obtain ⟨⟨vs, htrace⟩, hcovers, hps⟩ := makes_lowerQuery (Material.gives_all _) {} ps s rfl
    Material.covers_start (lowerQuery_of_body? h)
  refine ⟨vs, htrace, fun n hn => htrace.mem_iff.2 ?_⟩
  obtain ⟨hpos, hle⟩ := hn.has hcovers hps
  exact ⟨n, hpos, hle, rfl⟩

theorem text_generated_ne_requestName (n i : Nat) :
    (Variable.generated n).text ≠ (Variable.named (Query.requestName i)).text := by
  intro h
  have h := congrArg (fun s => s.toList.take 2) h
  simp [Variable.text, Query.requestName] at h

/-- The variables that a query makes up are named differently from each other, from the result and from the
variables of all fetched properties. The name of a comparison is that of one of them exactly if it is the
letter v with a number that has been counted. -/
theorem generated_fresh (o : Ontology) (q : Query) (flags : Flags) {ps : List Pattern} {s : Lowering}
    (h : body? o q (flags.withQuery q.flags) = some (ps, s)) :
    ∃ vs, Trace (lowerQuery o q (flags.withQuery q.flags)) {} vs ps s ∧
      (∀ n, Mentions ps s (.generated n) → .generated n ∈ vs) ∧
      (vs.map Variable.text).Nodup ∧
      (∀ v ∈ vs, v.text ≠ Variable.result.text) ∧
      (∀ v ∈ vs, ∀ e ∈ q.requestMap, v.text ≠ (Variable.named e.1).text) ∧
      ∀ c ∈ q.term.comparisons, ∀ name ∈ c.variableName,
        (∃ v ∈ vs, v.text = (Variable.named name).text) ↔
          ∃ n, 0 < n ∧ n ≤ s.used ∧ name = "v" ++ toString n := by
  obtain ⟨vs, htrace, hmentions⟩ := exists_trace_of_body? h
  have hgenerated : ∀ v ∈ vs, ∃ n, 0 < n ∧ n ≤ s.used ∧ v = .generated n :=
    fun v hv => htrace.mem_iff.1 hv
  refine ⟨vs, htrace, hmentions, htrace.nodup_text, fun v hv => ?_, fun v hv e he => ?_, ?_⟩
  · obtain ⟨n, -, -, rfl⟩ := hgenerated v hv
    exact text_generated_ne_result n
  · obtain ⟨n, -, -, rfl⟩ := hgenerated v hv
    obtain ⟨⟨r, i⟩, -, rfl⟩ := List.mem_map.1 he
    exact text_generated_ne_requestName n i
  · intro c _ name _
    constructor
    · rintro ⟨v, hv, hname⟩
      obtain ⟨n, hpos, hle, rfl⟩ := hgenerated v hv
      exact ⟨n, hpos, hle, (text_generated_eq_named_iff n name).1 hname⟩
    · rintro ⟨n, hpos, hle, hname⟩
      exact ⟨.generated n, htrace.mem_iff.2 ⟨n, hpos, hle, rfl⟩,
        (text_generated_eq_named_iff n name).2 hname⟩

/-- The search for a text beside a named title. -/
def titledReport (name : String) : Query :=
  .ofTerm (.allOf [.comparison .empty { property := some Vocabulary.Nie.title, variableName := some name }
    .nothing, .ofLiteral (.string "report")])

/-- A name that is no number after the letter v is not made up. -/
theorem generated_fresh_title :
    let q := titledReport "title"
    ∃ (ps : List Pattern) (s : Lowering) (vs : List Variable),
      body? .desktop q (Flags.withQuery {} q.flags) = some (ps, s) ∧
      vs.length = 3 ∧ (vs.map Variable.text).Nodup ∧
      ∀ v ∈ vs, v.text ≠ (Variable.named "title").text := by
  intro q
  obtain ⟨⟨ps, s⟩, hbody⟩ : ∃ r, body? .desktop q (Flags.withQuery {} q.flags) = some r := ⟨_, rfl⟩
  have hused : s.used = 3 := by
    have hs := congrArg (fun r => r.map (·.2.used)) hbody
    exact (Option.some.inj hs).symm
  obtain ⟨vs, htrace, -, hnodup, -, -, hnames⟩ := generated_fresh .desktop q {} hbody
  refine ⟨ps, s, vs, hbody, ?_, hnodup, fun v hv hname => ?_⟩
  · have hlength := htrace.used_eq
    rw [hused] at hlength
    simpa using hlength.symm
  · obtain ⟨n, -, -, hn⟩ := (hnames _ List.mem_cons_self "title" rfl).1 ⟨v, hv, hname⟩
    simpa using congrArg (fun t => t.toList.head?) hn

/-- A title that is named like the first variable that is made up is mistaken for it : the text is searched
for in a property with the name of the title. -/
theorem generated_not_fresh_v1 :
    let q := titledReport "v1"
    let flags : Flags := { noResultRestrictions := true }
    (∃ ps s, body? .desktop q (flags.withQuery q.flags) = some (ps, s) ∧
      Mentions ps s (.generated 1) ∧ Mentions ps s (.named "v1")) ∧
    (Variable.generated 1).text = (Variable.named "v1").text ∧
    compile .desktop q flags =
      "select distinct ?r ?v1 where \x7b " ++
        "?r <http://www.semanticdesktop.org/ontologies/2007/01/19/nie#title> ?v1 . " ++
        "?r ?v1 ?v2 . ?v2 bif:contains \"'report'\" . \x7d" := by
  intro q flags
  have hbody : body? .desktop q (flags.withQuery q.flags) =
      some ([.triple (.var .result) (.uri Vocabulary.Nie.title) (.var (.named "v1")),
        .triple (.var .result) (.var (.generated 1)) (.var (.generated 2)),
        .searches (.generated 2) "report" none],
        { used := 2, scope := [(Vocabulary.Nie.title, .named "v1")], columns := [.value (.named "v1")],
          searches := [⟨.generated 2, "report", none⟩] }) := rfl
  refine ⟨⟨_, _, hbody, ?_, ?_⟩, by decide, by decide +kernel⟩
  · exact .of_mem (List.mem_cons_of_mem _ List.mem_cons_self)
      (by simp [Pattern.ownVariables, binds, Node.variables])
  · exact .column List.mem_cons_self (by simp [Column.variables])

end DesktopSearch.Sparql
