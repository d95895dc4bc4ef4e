import DesktopSearch.Proofs.Fusion.Basic
import DesktopSearch.Proofs.Fusion.Level
import DesktopSearch.Proofs.Fusion.Tuning
import DesktopSearch.Proofs.Term.Meaning
import DesktopSearch.Proofs.Term.NormalForm

/-!
# Fusion as a left fold

A list of terms is a list of `operands`, each with the connective and the negation that stand before it,
and these are joined from the left : "and" and "or" bind alike. An operand without a value takes its
connective and its negation with it.

The `truth` of a term is read off its groups and negations from the truth values of everything else.
`fuse_eq_leftFold` : the truth of what `fuse` answers is the left fold of the operands. Joining to a group
of the same kind, which `Term.append` does, has the truth of a group of two members (`truth_append`).
-/

namespace DesktopSearch

/-! ## Truth -/

namespace Term

variable (v : Term → Bool)

mutual

/-- The truth of a term, given the truth of all terms that are neither groups nor negations. A term that
says nothing has none, and the negation of a term without truth has a truth of its own. -/
def truth : Term → Option Bool
  | invalid _ => none
  | negation s t =>
    match t.truth with
    | some b => some !b
    | none => some (v (negation s t))
  | group _ k ts => k.ofValues (truths ts)
  | t => some (v t)

/-- The truth values of those terms of a list that have one. -/
def truths : List Term → List Bool
  | [] => []
  | t :: ts => t.truth.toList ++ truths ts

end

theorem truths_append (ts us : List Term) : truths v (ts ++ us) = truths v ts ++ truths v us := by
  induction ts with
  | nil => rfl
  | cons t ts ih => rw [List.cons_append, truths, ih, truths, List.append_assoc]

theorem truths_singleton (t : Term) : truths v [t] = (t.truth v).toList := by
  rw [truths, truths, List.append_nil]

theorem truth_pair (s : Span) (k : Connective) (a b : Term) :
    (group s k [a, b]).truth v = k.merge (a.truth v) (b.truth v) := by
  rw [truth, truths, truths_singleton, Connective.ofValues_append, Connective.ofValues_toList,
    Connective.ofValues_toList]

theorem truth_of_not_isValid {t : Term} (h : t.isValid = false) : t.truth v = none := by
  cases t with
  | invalid s => rfl
  | _ => simp [isValid] at h

/-- Joining two terms joins their truth values, whether or not the first one is a group already. -/
theorem truth_append (k : Connective) (a b : Term) :
    (a.append k b).truth v = k.merge (a.truth v) (b.truth v) := by
  cases hb : b.isValid with
  | false =>
    rw [append_of_not_isValid hb, truth_of_not_isValid v hb, Connective.merge_none]
  | true =>
    cases ha : a.isValid with
    | false =>
      rw [append_to_not_isValid ha hb, truth_of_not_isValid v ha]
      rfl
    | true =>
      rw [append, if_neg (by simp [hb]), if_neg (by simp [ha])]
      cases a with
      | group s l ts =>
        dsimp only
        split
        · rename_i h
          rw [truth, truths_append, truths_singleton, Connective.ofValues_append,
            Connective.ofValues_toList, truth, h]
        · exact truth_pair v _ k _ b
      | _ => exact truth_pair v _ k _ b

/-- The term has a truth value. -/
def IsDecided (t : Term) : Prop := (t.truth v).isSome = true

theorem isDecided_negation (s : Span) (t : Term) : (negation s t).IsDecided v := by
  rw [IsDecided, truth]
  split <;> rfl

/-- Joining and negating decided terms makes decided terms. -/
theorem isDecided_closedUnderFusion : ClosedUnderFusion (IsDecided v) where
  withSpan := by
    intro t s h
    cases t with
    | negation _ t => exact isDecided_negation v s t
    | _ => exact h
  negation := by
    intro t s _
    exact isDecided_negation v s t
  append := by
    intro a b k ha hb
    obtain ⟨x, hx⟩ := Option.isSome_iff_exists.1 ha
    obtain ⟨y, hy⟩ := Option.isSome_iff_exists.1 hb
    rw [IsDecided, truth_append, hx, hy]
    rfl

variable {v}

/-- A negation has the opposite truth, wherever it is put. -/
theorem truth_negate {t : Term} (h : t.IsKind (IsDecided v)) (s : Span) :
    ((~~~ t).withSpan s).truth v = (t.truth v).map not := by
  change (t.negate.withSpan s).truth v = _
  rw [negate]
  cases hvalid : t.isValid with
  | false => rw [truth_of_not_isValid v hvalid]; rfl
  | true =>
    obtain ⟨b, hb⟩ := Option.isSome_iff_exists.1 (h hvalid)
    rw [if_pos rfl, withSpan, truth, hb]
    rfl

/-- A term that says something has truth if all such terms of its kind do. -/
theorem IsKind.truth_eq_none_iff {t : Term} (h : t.IsKind (IsDecided v)) :
    t.truth v = none ↔ t.isValid = false := by
  refine ⟨fun hnone => ?_, truth_of_not_isValid v⟩
  rw [← Bool.not_eq_true]
  intro hvalid
  have := h hvalid
  rw [IsDecided, hnone] at this
  contradiction

end Term

/-! ## Operands -/

/-- One of the things that a level joins. -/
structure Operand where
  /-- How it is joined to what stands before it. -/
  connective : Connective
  /-- Whether it is negated. -/
  negated : Bool
  /-- Its truth without the negation, if it says anything. -/
  value : Option Bool

namespace Operand

/-- Joins an operand to what the ones before it came to. An operand without a value adds nothing. -/
def join (sofar : Option Bool) (o : Operand) : Option Bool :=
  match o.value with
  | none => sofar
  | some b => o.connective.merge sofar (some (b != o.negated))

/-- Operands joined from the left. -/
def leftFold (os : List Operand) : Option Bool := os.foldl join none

theorem foldl_join_eq_none_iff (os : List Operand) (sofar : Option Bool) :
    os.foldl join sofar = none ↔ sofar = none ∧ ∀ o ∈ os, o.value = none := by
  induction os generalizing sofar with
  | nil => simp
  | cons o os ih =>
    have hjoin : join sofar o = none ↔ sofar = none ∧ o.value = none := by
      rw [join]
      cases o.value <;> cases sofar <;> simp [Connective.merge]
    rw [List.foldl_cons, ih, hjoin, List.forall_mem_cons, and_assoc]

end Operand

/-- The operands of a level, from a term on, with the connective and the negation that stand before it. The
words of the operators are for the next operand : the last connective counts, and one negation is as good
as many. An operand between parentheses is a level of its own, and stop words are not there. -/
def operands (v : Term → Bool) (settings : Settings) (flags : ParserFlags) (c : ResourceContext)
    (k : Connective) (negated : Bool) : List Term → List Operand
  | [] => []
  | t :: ts =>
    match Role.of settings t with
    | .or => operands v settings flags c .or negated ts
    | .and => operands v settings flags c .and negated ts
    | .not => operands v settings flags c k true ts
    | .skipped => operands v settings flags c k negated ts
    | .closes => []
    | .opens =>
      have := length_behind_le settings 0 ts
      ⟨k, negated, Operand.leftFold (operands v settings flags .general .and false ts)⟩ ::
        operands v settings flags c .and false (behind settings 0 ts)
    | .plain =>
      ⟨k, negated, (tune settings flags c t).truth v⟩ ::
        operands v settings flags (c.after t) .and false ts
termination_by ts => ts.length

/-! ## Fusing -/

namespace LevelState

/-- Adding a term joins an operand. -/
theorem truth_add (s : LevelState) {t : Term} (h : t.IsKind (Term.IsDecided v)) :
    (s.add t).fused.truth v =
      Operand.join (s.fused.truth v) ⟨s.connective, s.negation.isSome, t.truth v⟩ := by
  rw [add, Term.truth_append, Operand.join]
  cases s.negation with
  | none => cases t.truth v <;> simp
  | some span =>
    dsimp only
    rw [Term.truth_negate h]
    cases t.truth v <;> simp

end LevelState

section

variable {settings : Settings} {flags : ParserFlags}

theorem isKind_fuseItems_all {Q : Term → Prop} {ts : List Term} (hQ : ClosedUnderFusion Q)
    (h : ∀ t ∈ ts, ∀ c, (tune settings flags c t).IsKind Q) {s : LevelState}
    (hs : s.fused.IsKind Q) : (fuseItems settings flags s (Item.all settings ts)).fused.IsKind Q :=
  isKind_fuseItems (fun i hi => isKind_fuseItem hQ (Item.holds_ofTerms settings h i hi)) hs

/-- The items of a level are joined like its operands, whatever was joined before. -/
theorem fuseItems_eq_foldl {ts : List Term}
    (h : ∀ t ∈ ts, ∀ c, (tune settings flags c t).IsKind (Term.IsDecided v)) (s : LevelState) :
    (fuseItems settings flags s (Item.all settings ts)).fused.truth v =
      (operands v settings flags s.context s.connective s.negation.isSome ts).foldl Operand.join
        (s.fused.truth v) := by
  match ts with
  | [] => simp [Item.all, Item.ofTerms, Item.read, Item.closeAll, fuseItems, operands]
  | t :: ts =>
    rw [List.forall_mem_cons] at h
    have ih := fuseItems_eq_foldl h.2
    rw [Item.all_cons, operands]
    cases Role.of settings t with
    | or => exact ih { s with connective := .or }
    | and => exact ih { s with connective := .and }
    | not => exact ih (s.negate t.span)
    | skipped => exact ih s
    | closes => rfl
    | plain =>
      -- The context moves on before the term is added, which leaves it alone.
      have hadd := LevelState.truth_add { s with context := s.context.after t } (h.1 s.context)
      dsimp only
      rw [List.foldl_cons, ← hadd]
      exact ih _
    | opens =>
      have hbehind := behind_suffix settings 0 ts
      have hlength := hbehind.length_le
      have hlevel := isKind_fuseItems_all (Term.isDecided_closedUnderFusion v) h.2 (s := {})
        (Term.isKind_of_not_isValid rfl)
      have hvalue : (fuseItems settings flags {} (Item.all settings ts)).fused.truth v =
          Operand.leftFold (operands v settings flags .general .and false ts) := ih {}
      have hadd := s.truth_add hlevel
      rw [hvalue] at hadd
      dsimp only
      rw [List.foldl_cons, ← hadd]
      exact fuseItems_eq_foldl (fun t ht => h.2 t (hbehind.mem ht)) (s.add _)
termination_by ts.length

/-- Terms that are not groups are tuned to terms with truth, unless they say nothing. -/
theorem isKind_tune {t : Term} (h : ∀ k, t.isGroup k = false) (c : ResourceContext) :
    (tune settings flags c t).IsKind (Term.IsDecided v) := by
  have hbetween (p : Option Uri) (low high : Literal) (s : Span) :
      (Term.between p low high s).IsKind (Term.IsDecided v) := by
    intro _
    rw [Term.between, Term.IsDecided, Term.truth_pair]
    rfl
  cases t with
  | invalid s => exact Term.isKind_of_not_isValid rfl
  | literal s l =>
    cases l with
    | string word =>
      rw [tune]
      split <;> exact fun _ => rfl
    | boolean b => exact fun _ => rfl
    | integer n => exact hbetween _ _ _ s
    | double d => exact hbetween _ _ _ s
    | dateTime m => exact hbetween _ _ _ s
  | comparison s head value =>
    rw [tune, tuneComparison_eq]
    split
    · exact hbetween _ _ _ s
    · exact fun _ => rfl
  | negation s t => exact fun _ => Term.isDecided_negation v s t
  | group s k ts => simpa [Term.isGroup] using h k
  | resource | types | optional => exact fun _ => rfl

/-- `fuse` reads the operands of a list from the left : what it answers has the truth of their left fold, and
says nothing if and only if none of them has a value; and a term that is joined to a group of its kind is
joined to what the group means. -/
theorem fuse_eq_leftFold (v : Term → Bool) (settings : Settings) (flags : ParserFlags)
    (ts : List Term) (start : Nat) (h : ∀ t ∈ ts, ∀ k, t.isGroup k = false) :
    let os := operands v settings flags .general .and false (ts.drop start)
    (fuse settings flags ts start).1.truth v = Operand.leftFold os ∧
      ((fuse settings flags ts start).1.isValid = false ↔ ∀ o ∈ os, o.value = none) ∧
      ∀ a k b, (Term.append a k b).truth v = (Term.group .empty k [a, b]).truth v := by
  intro os
  have htuned : ∀ t ∈ ts.drop start, ∀ c, (tune settings flags c t).IsKind (Term.IsDecided v) :=
    fun t ht => isKind_tune (h t (List.mem_of_mem_drop ht))
  have hkind : (fuse settings flags ts start).1.IsKind (Term.IsDecided v) :=
    isKind_fuseItems_all (Term.isDecided_closedUnderFusion v) htuned (Term.isKind_of_not_isValid rfl)
  have hfold : (fuse settings flags ts start).1.truth v = Operand.leftFold os :=
    fuseItems_eq_foldl htuned {}
  refine ⟨hfold, ?_, fun a k b => ?_⟩
  · rw [← hkind.truth_eq_none_iff, hfold, Operand.leftFold, Operand.foldl_join_eq_none_iff]
    simp
  · rw [Term.truth_append, Term.truth_pair]

end

/-- Both connectives bind alike : "alpha or beta gamma" is not satisfied by "alpha" alone. -/
theorem fuse_alpha_or_beta_gamma :
    let ts := ["alpha", "or", "beta", "gamma"].map fun word => Term.ofLiteral (.string word)
    let v (t : Term) := t.string? == some "alpha"
    (fuse .english {} ts 0).1.truth v = some false ∧ (fuse .english {} ts 0).1.isValid = true := by
  intro ts v
  have hgroups : ∀ t ∈ ts, ∀ k, t.isGroup k = false := by simp [ts, Term.ofLiteral, Term.isGroup]
  obtain ⟨htruth, hvalid, -⟩ := fuse_eq_leftFold v .english {} ts 0 hgroups
  have hroles : ts.map (Role.of .english) = [.plain, .or, .plain, .plain] := by decide +kernel
  have hos : operands v .english {} .general .and false ts =
      [⟨.and, false, some true⟩, ⟨.or, false, some false⟩, ⟨.and, false, some false⟩] := by
    simp only [ts, List.map_cons, List.map_nil, List.cons.injEq, and_true] at hroles ⊢
    obtain ⟨halpha, hor, hbeta, hgamma⟩ := hroles
    simp only [operands, halpha, hor, hbeta, hgamma]
    rfl
  rw [List.drop_zero, hos] at htruth hvalid
  refine ⟨htruth, ?_⟩
  rw [← Bool.not_eq_false, hvalid]
  simp

end DesktopSearch
