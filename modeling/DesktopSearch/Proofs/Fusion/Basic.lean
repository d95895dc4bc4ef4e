import DesktopSearch.Fusion.Basic
import Mathlib.Tactic.SplitIfs

/-!
# What fusion builds

The items of a list of terms hold these terms and no others. So if every term of a list is tuned, in
every context, to a term of some kind or to one that says nothing, and if the kind is closed under the
ways in which a level joins its items, then `fuse` answers with a term of that kind or with one that says
nothing (`fuse_of_tuned`).
-/

namespace DesktopSearch

/-! ## Items -/

/-- The terms of an item have a property. -/
inductive Item.Holds (P : Term → Prop) : Item → Prop
  | or : Item.Holds P .or
  | and : Item.Holds P .and
  | not (span : Span) : Item.Holds P (.not span)
  | term (t : Term) (h : P t) : Item.Holds P (.term t)
  | level (items : List Item) (h : ∀ i ∈ items, Item.Holds P i) : Item.Holds P (.level items)

namespace Item

variable {P : Term → Prop}

theorem holds_closeAll {level : List Item} {outer : List (List Item)}
    (hlevel : ∀ i ∈ level, i.Holds P) (houter : ∀ l ∈ outer, ∀ i ∈ l, i.Holds P) :
    ∀ i ∈ closeAll level outer, i.Holds P := by
  induction outer generalizing level with
  | nil => exact hlevel
  | cons l outer ih =>
    rw [List.forall_mem_cons] at houter
    refine ih (List.forall_mem_append.2 ⟨houter.1, ?_⟩) houter.2
    rw [List.forall_mem_singleton]
    exact .level _ hlevel

theorem holds_of_ofTerm {s : Settings} {t : Term} {i : Item} (ht : P t)
    (h : Mark.ofTerm s t = .item i) : i.Holds P := by
  rw [Mark.ofTerm] at h
  split at h
  · rename_i word _
    simp only [Mark.ofWord] at h
    split_ifs at h
    · obtain rfl := Mark.item.inj h
      exact .or
    · obtain rfl := Mark.item.inj h
      exact .and
    · obtain rfl := Mark.item.inj h
      exact .not _
    · obtain rfl := Mark.item.inj h
      exact .term t ht
  · obtain rfl := Mark.item.inj h
    exact .term t ht

/-- The items that are read hold the terms of the list, beside what was there before. -/
theorem holds_read (s : Settings) {ts : List Term} (hts : ∀ t ∈ ts, P t) {level : List Item}
    {outer : List (List Item)} (hlevel : ∀ i ∈ level, i.Holds P)
    (houter : ∀ l ∈ outer, ∀ i ∈ l, i.Holds P) : ∀ i ∈ (read s level outer ts).1, i.Holds P := by
  induction ts generalizing level outer with
  | nil => exact holds_closeAll hlevel houter
  | cons t ts ih =>
    rw [List.forall_mem_cons] at hts
    have hnil : ∀ i ∈ ([] : List Item), i.Holds P := by simp
    have hadd {l : List Item} {i : Item} (hl : ∀ i ∈ l, i.Holds P) (hi : i.Holds P) :
        ∀ j ∈ l ++ [i], j.Holds P :=
      List.forall_mem_append.2 ⟨hl, List.forall_mem_singleton.2 hi⟩
    unfold read
    split
    · rename_i i hmark
      exact ih hts.2 (hadd hlevel (holds_of_ofTerm hts.1 hmark)) houter
    · exact ih hts.2 hlevel houter
    · exact ih hts.2 hnil (List.forall_mem_cons.2 ⟨hlevel, houter⟩)
    · cases outer with
      | nil => exact hlevel
      | cons next outer =>
        rw [List.forall_mem_cons] at houter
        exact ih hts.2 (hadd houter.1 (.level _ hlevel)) houter.2

theorem holds_ofTerms (s : Settings) {ts : List Term} (hts : ∀ t ∈ ts, P t) :
    ∀ i ∈ (ofTerms s ts).1, i.Holds P :=
  holds_read s hts (by simp) (by simp)

end Item

/-! ## Levels -/

/-- A kind of terms that items can be joined to. -/
structure ClosedUnderFusion (Q : Term → Prop) : Prop where
  withSpan : ∀ {t} s, Q t → Q (t.withSpan s)
  negation : ∀ {t} s, Q t → Q (.negation s t)
  append : ∀ {a b} k, Q a → Q b → Q (a.append k b)

/-- Joining makes terms of a kind if pairs are of the kind, and groups with one more member. -/
theorem Term.append_of_groups {Q : Term → Prop}
    (pair : ∀ s k {a b}, Q a → Q b → Q (.group s k [a, b]))
    (more : ∀ s {s' k ts t}, Q (.group s' k ts) → Q t → Q (.group s k (ts ++ [t])))
    {a b : Term} (k : Connective) (ha : Q a) (hb : Q b) : Q (a.append k b) := by
  rw [append]
  split
  · exact ha
  split
  · exact hb
  dsimp only
  split
  · split
    · rename_i h
      exact h ▸ more _ ha hb
    · exact pair _ k ha hb
  · exact pair _ k ha hb

/-- The term is of a kind unless it says nothing. -/
def Term.IsKind (Q : Term → Prop) (t : Term) : Prop := t.isValid = true → Q t

namespace Term

variable {Q : Term → Prop}

theorem isValid_withSpan (t : Term) (s : Span) : (t.withSpan s).isValid = t.isValid := by
  cases t <;> rfl

theorem isKind_of_not_isValid {t : Term} (h : t.isValid = false) : t.IsKind Q := by
  intro hvalid
  rw [h] at hvalid
  contradiction

theorem IsKind.eq_invalid_or {t : Term} (h : t.IsKind Q) : (∃ s, t = .invalid s) ∨ Q t := by
  cases t with
  | invalid s => exact Or.inl ⟨s, rfl⟩
  | _ => exact Or.inr (h rfl)

/-- Negating keeps the kind, wherever the negation is put. -/
theorem IsKind.negate (hQ : ClosedUnderFusion Q) {t : Term} (ht : t.IsKind Q) (s : Span) :
    ((~~~ t).withSpan s).IsKind Q := by
  intro h
  rw [isValid_withSpan] at h
  change t.negate.isValid = true at h
  change Q (t.negate.withSpan s)
  rw [Term.negate] at h ⊢
  split at h
  · rename_i hvalid
    rw [if_pos hvalid]
    exact hQ.withSpan s (hQ.negation _ (ht hvalid))
  · contradiction

theorem append_of_not_isValid {b : Term} (h : b.isValid = false) (a : Term) (k : Connective) :
    a.append k b = a := by
  rw [append, if_pos (by rw [h]; rfl)]

theorem append_to_not_isValid {a b : Term} (ha : a.isValid = false) (hb : b.isValid = true)
    (k : Connective) : a.append k b = b := by
  rw [append, if_neg (by rw [hb]; simp), if_pos (by rw [ha]; rfl)]

theorem IsKind.append (hQ : ClosedUnderFusion Q) {a b : Term} (k : Connective)
    (ha : a.IsKind Q) (hb : b.IsKind Q) : (a.append k b).IsKind Q := by
  cases hbv : b.isValid with
  | false =>
    rw [append_of_not_isValid hbv]
    exact ha
  | true =>
    cases hav : a.isValid with
    | false =>
      rw [append_to_not_isValid hav hbv]
      exact hb
    | true => exact fun _ => hQ.append k (ha hav) (hb hbv)

end Term

/-! ## Fusing -/

variable {Q : Term → Prop}

theorem LevelState.isKind_add (hQ : ClosedUnderFusion Q) {s : LevelState} {t : Term}
    (hs : s.fused.IsKind Q) (ht : t.IsKind Q) : (s.add t).fused.IsKind Q := by
  rw [add]
  refine hs.append hQ _ ?_
  cases s.negation with
  | none => exact ht
  | some span => exact ht.negate hQ _

/-- A level of items that keep the kind is of the kind. -/
theorem isKind_fuseItems {settings : Settings} {flags : ParserFlags} {items : List Item}
    (h : ∀ i ∈ items, ∀ s, s.fused.IsKind Q → (fuseItem settings flags s i).fused.IsKind Q)
    {s : LevelState} (hs : s.fused.IsKind Q) :
    (fuseItems settings flags s items).fused.IsKind Q := by
  induction items generalizing s with
  | nil => exact hs
  | cons i items ih =>
    rw [List.forall_mem_cons] at h
    exact ih h.2 (h.1 s hs)

/-- Reading an item whose terms are tuned to a kind keeps the kind. -/
theorem isKind_fuseItem (hQ : ClosedUnderFusion Q) {settings : Settings} {flags : ParserFlags}
    {i : Item} (h : i.Holds fun t => ∀ c, (tune settings flags c t).IsKind Q) :
    ∀ s, s.fused.IsKind Q → (fuseItem settings flags s i).fused.IsKind Q := by
  induction h with
  | or => exact fun _ hs => hs
  | and => exact fun _ hs => hs
  | not span => exact fun _ hs => hs
  | term t ht => exact fun _ hs => LevelState.isKind_add hQ hs (ht _)
  | level items _ ih =>
    intro s hs
    rw [fuseItem]
    exact LevelState.isKind_add hQ hs (isKind_fuseItems ih (Term.isKind_of_not_isValid rfl))

/-- Terms that are tuned to a kind are fused to that kind. -/
theorem fuse_of_tuned (hQ : ClosedUnderFusion Q) {settings : Settings} {flags : ParserFlags}
    {ts : List Term} (h : ∀ t ∈ ts, ∀ c, (tune settings flags c t).IsKind Q) :
    (fuse settings flags ts 0).1.IsKind Q := by
  have hitems := Item.holds_ofTerms settings h
  exact isKind_fuseItems (fun i hi => isKind_fuseItem hQ (hitems i hi))
    (Term.isKind_of_not_isValid rfl)

end DesktopSearch
