import DesktopSearch.Proofs.Text.Digit
import DesktopSearch.Sparql.Lowering
import Mathlib.Data.List.Nodup

/-!
# Variables that are made up

A `Trace` tells how a step of lowering goes from one state to another, down to the steps that it is put
together from, and which variables it makes up on the way. The variables are numbered one after the other
(`Trace.eq_generated`), since nothing ever sets the count back, and so no two of them have the same name
(`Trace.nodup_text`).
-/

namespace DesktopSearch.Sparql

/-! ## Names of variables -/

theorem text_generated_ne_result (n : Nat) : (Variable.generated n).text ≠ Variable.result.text := by
  intro h
  have h := congrArg (fun s => s.toList.take 2) h
  simp [Variable.text] at h

/-- Among the named variables, a made-up one can be mistaken for those that are named like it only. -/
theorem text_generated_eq_named_iff (n : Nat) (name : String) :
    (Variable.generated n).text = (Variable.named name).text ↔ name = "v" ++ toString n := by
  have hv : "?v" = "?" ++ "v" := rfl
  rw [Variable.text, Variable.text, hv, String.append_assoc, String.append_right_inj]
  exact eq_comm

theorem text_generated_inj {m n : Nat}
    (h : (Variable.generated m).text = (Variable.generated n).text) : m = n := by
  rw [Variable.text, Variable.text, String.append_right_inj] at h
  have hdigits := congrArg (fun s => Text.digitsValue s.toList) h
  rwa [Text.digitsValue_toString, Text.digitsValue_toString] at hdigits

/-! ## Columns and sort keys -/

/-- All that has been selected and sorted by still is. -/
structure Lowering.Keeps (s s' : Lowering) : Prop where
  columns : s.columns <+: s'.columns
  sortKeys : s.sortKeys <+: s'.sortKeys

theorem Lowering.Keeps.refl (s : Lowering) : s.Keeps s := ⟨List.prefix_rfl, List.prefix_rfl⟩

theorem Lowering.Keeps.trans {s t u : Lowering} (hst : s.Keeps t) (htu : t.Keeps u) : s.Keeps u :=
  ⟨hst.columns.trans htu.columns, hst.sortKeys.trans htu.sortKeys⟩

/-! ## Traces -/

/-- The step goes from a state to another with a result, and makes up these variables on the way. -/
inductive Trace : {α : Type} → Lower α → Lowering → List Variable → α → Lowering → Prop
  | pure {α : Type} (a : α) (s : Lowering) : Trace (pure a) s [] a s
  | bind {α β : Type} {m : Lower α} {f : α → Lower β} {a : α} {b : β} {s s₁ s₂ : Lowering}
    {vs ws : List Variable} (first : Trace m s vs a s₁) (rest : Trace (f a) s₁ ws b s₂) :
    Trace (m >>= f) s (vs ++ ws) b s₂
  | freshVariable (s : Lowering) :
    Trace freshVariable s [.generated (s.used + 1)] (.generated (s.used + 1))
      { s with used := s.used + 1 }
  | bindProperty (property : Uri) (v : Variable) (s : Lowering) :
    Trace (bindProperty property v) s [] () { s with scope := (property, v) :: s.scope }
  | boundVariable? (property : Uri) (s : Lowering) :
    Trace (boundVariable? property) s [] ((s.scope.find? (·.1 == property)).map Prod.snd) s
  | addColumn (c : Column) (s : Lowering) :
    Trace (addColumn c) s [] ()
      (if s.columns.any (·.text == c.text) then s else { s with columns := s.columns ++ [c] })
  | addSortKey (k : SortKey) (s : Lowering) :
    Trace (addSortKey k) s [] () { s with sortKeys := s.sortKeys ++ [k] }
  | addSearch (f : Search) (s : Lowering) :
    Trace (addSearch f) s [] () { s with searches := s.searches ++ [f] }
  | inGroup {α : Type} {m : Lower α} {a : α} {s s₁ : Lowering} {vs : List Variable}
    (inner : Trace m { s with scope := [] } vs a s₁) :
    Trace (inGroup m) s vs a { s₁ with scope := s.scope }

namespace Trace

variable {α : Type} {m : Lower α} {a : α} {s s' : Lowering} {vs : List Variable}

/-- Every variable that is made up is counted, and none is forgotten. -/
theorem used_eq (h : Trace m s vs a s') : s'.used = s.used + vs.length := by
  induction h with
  | bind _ _ ihm ihf => rw [ihf, ihm, List.length_append, Nat.add_assoc]
  | addColumn c s => split <;> rfl
  | inGroup _ ih => exact ih
  | _ => rfl

theorem used_le (h : Trace m s vs a s') : s.used ≤ s'.used := by
  rw [h.used_eq]
  exact Nat.le_add_right _ _

/-- The variables are numbered one after the other. -/
theorem eq_generated (h : Trace m s vs a s') :
    vs = (List.range' (s.used + 1) vs.length).map .generated := by
  induction h with
  | bind first _ ihm ihf =>
    rw [List.length_append, ← List.range'_append_1, List.map_append, ← ihm]
    rw [first.used_eq, Nat.add_right_comm] at ihf
    rw [← ihf]
  | inGroup _ ih => exact ih
  | _ => rfl

/-- No two variables that are made up have the same name. -/
theorem nodup_text (h : Trace m s vs a s') : (vs.map Variable.text).Nodup := by
  rw [h.eq_generated, List.map_map]
  exact (List.nodup_range' 1).map fun _ _ hmn => text_generated_inj hmn

/-- What has been selected stays selected, and results that have been sorted by a key stay sorted by it. -/
theorem keeps (h : Trace m s vs a s') : s.Keeps s' := by
  induction h with
  | bind _ _ ihm ihf => exact ihm.trans ihf
  | addColumn c s =>
    split
    · exact .refl s
    · exact ⟨List.prefix_append _ _, List.prefix_rfl⟩
  | addSortKey k s => exact ⟨List.prefix_rfl, List.prefix_append _ _⟩
  | inGroup _ ih => exact ⟨ih.columns, ih.sortKeys⟩
  | _ => exact ⟨List.prefix_rfl, List.prefix_rfl⟩

theorem mem_iff (h : Trace m s vs a s') {v : Variable} :
    v ∈ vs ↔ ∃ n, s.used < n ∧ n ≤ s'.used ∧ v = .generated n := by
  rw [h.used_eq, h.eq_generated, List.length_map, List.length_range', List.mem_map]
  simp only [List.mem_range'_1]
  constructor
  · rintro ⟨n, hn, rfl⟩
    exact ⟨n, by omega, by omega, rfl⟩
  · rintro ⟨n, hn, hn', rfl⟩
    exact ⟨n, by omega, rfl⟩

end Trace

end DesktopSearch.Sparql
