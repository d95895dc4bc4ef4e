import DesktopSearch.Proofs.Fusion.Basic
import DesktopSearch.Proofs.Fusion.Parentheses

/-!
# The nodes of a fused term

Joining terms puts their nodes one after the other, where the nodes of a term are what is found in its
groups and negations from left to right (`Term.nodes`). So a level that is read comes to the nodes of its
items, each tuned where it stands (`content_fuseItems`), by recursion on the length of the list : a level in
parentheses is read from a context of its own, and the level around it goes on behind.

`fuse_nodes` says this of whole lists, and what the terms between two parentheses contribute.
-/

namespace DesktopSearch

/-! ## Nodes -/

namespace Term

mutual

/-- What is found in the groups and negations of a term, from left to right. An optional part is found before
what it holds, and comparisons are not looked into. -/
def nodes : Term → List Term
  | group _ _ ts => memberNodes ts
  | negation _ t => t.nodes
  | optional s t => optional s t :: t.nodes
  | t => [t]

/-- The nodes of the members of a group. -/
def memberNodes : List Term → List Term
  | [] => []
  | t :: ts => t.nodes ++ memberNodes ts

end

theorem memberNodes_append (ts us : List Term) :
    memberNodes (ts ++ us) = memberNodes ts ++ memberNodes us := by
  induction ts with
  | nil => rfl
  | cons t ts ih => rw [List.cons_append, memberNodes, ih, memberNodes, List.append_assoc]

theorem memberNodes_singleton (t : Term) : memberNodes [t] = t.nodes := by
  simp only [memberNodes, List.append_nil]

theorem nodes_pair (s : Span) (k : Connective) (a b : Term) :
    (group s k [a, b]).nodes = a.nodes ++ b.nodes := by
  simp only [nodes, memberNodes, List.append_nil]

/-- The nodes of a term that says something. -/
def content (t : Term) : List Term := if t.isValid then t.nodes else []

theorem content_of_isValid {t : Term} (h : t.isValid = true) : t.content = t.nodes := if_pos h

theorem content_of_not_isValid {t : Term} (h : t.isValid = false) : t.content = [] :=
  if_neg (by simp [h])

theorem content_append (k : Connective) (a b : Term) :
    (a.append k b).content = a.content ++ b.content := by
  cases hb : b.isValid with
  | false => rw [append_of_not_isValid hb, content_of_not_isValid hb, List.append_nil]
  | true =>
    cases ha : a.isValid with
    | false => rw [append_to_not_isValid ha hb, content_of_not_isValid ha, List.nil_append]
    | true =>
      rw [content_of_isValid ha, content_of_isValid hb, append, if_neg (by simp [hb]),
        if_neg (by simp [ha])]
      cases a with
      | group s l ts =>
        dsimp only
        split
        · rw [content_of_isValid rfl, nodes, memberNodes_append, memberNodes_singleton, nodes]
        · rw [content_of_isValid rfl, nodes_pair]
      | _ => rw [content_of_isValid rfl, nodes_pair]

/-- A negation has the nodes of what it negates, wherever it is put. -/
theorem content_negate (t : Term) (s : Span) : ((~~~ t).withSpan s).content = t.content := by
  change (t.negate.withSpan s).content = t.content
  rw [negate]
  cases h : t.isValid with
  | false => rw [content_of_not_isValid h]; rfl
  | true => rw [if_pos rfl, withSpan, content_of_isValid rfl, content_of_isValid h, nodes]

end Term

theorem LevelState.content_add (s : LevelState) (t : Term) :
    (s.add t).fused.content = s.fused.content ++ t.content := by
  rw [add, Term.content_append]
  cases s.negation with
  | none => rfl
  | some span => rw [Term.content_negate]

/-! ## Items where they stand -/

section

variable {settings : Settings} {flags : ParserFlags} {before before' ts us : List Term} {n : Nat}

/-- The items among some terms, in their order and each tuned where it stands : valid terms that are neither
words of the operators, nor parentheses, nor stop words. The terms in front of them, the last of which comes
first, tell the context. -/
def tunedAfter (settings : Settings) (flags : ParserFlags) : (before : List Term) → List Term → List Term
  | _, [] => []
  | before, t :: ts =>
    (if Role.of settings t = .plain ∧ t.isValid then
      [tune settings flags (contextBefore settings 0 before) t] else []) ++
      tunedAfter settings flags (t :: before) ts

theorem tunedAfter_word {t : Term} (h : Role.of settings t ≠ .plain) (before ts : List Term) :
    tunedAfter settings flags before (t :: ts) = tunedAfter settings flags (t :: before) ts := by
  rw [tunedAfter, if_neg fun hplain => h hplain.1, List.nil_append]

theorem tunedAfter_append (before ts us : List Term) :
    tunedAfter settings flags before (ts ++ us) =
      tunedAfter settings flags before ts ++ tunedAfter settings flags (ts.reverse ++ before) us := by
  induction ts generalizing before with
  | nil => rfl
  | cons t ts ih =>
    rw [List.cons_append, tunedAfter, ih, tunedAfter, List.reverse_cons, List.append_assoc,
      List.append_assoc, List.singleton_append]

theorem contextBefore_cons_congr
    (h : ∀ depth, contextBefore settings depth before = contextBefore settings depth before')
    (t : Term) (depth : Nat) :
    contextBefore settings depth (t :: before) = contextBefore settings depth (t :: before') := by
  by_cases hopens : Role.of settings t = .opens
  · cases depth with
    | zero => rw [contextBefore_opens hopens, contextBefore_opens hopens]
    | succ depth => rw [contextBefore_opens_succ hopens, contextBefore_opens_succ hopens, h]
  by_cases hcloses : Role.of settings t = .closes
  · rw [contextBefore_closes hcloses, contextBefore_closes hcloses, h]
  cases depth with
  | zero => rw [contextBefore_other hopens hcloses, contextBefore_other hopens hcloses, h]
  | succ depth =>
    rw [contextBefore_other_succ hopens hcloses, contextBefore_other_succ hopens hcloses, h]

/-- The terms in front matter for their contexts alone. -/
theorem tunedAfter_congr
    (h : ∀ depth, contextBefore settings depth before = contextBefore settings depth before')
    (ts : List Term) :
    tunedAfter settings flags before ts = tunedAfter settings flags before' ts := by
  induction ts generalizing before before' with
  | nil => rfl
  | cons t ts ih => rw [tunedAfter, tunedAfter, h, ih (contextBefore_cons_congr h t)]

/-- A level in parentheses is tuned as it stands there, and the terms behind it as if it were not there. -/
theorem tunedAfter_level {opening close : Term} (hopens : Role.of settings opening = .opens)
    (hcloses : Role.of settings close = .closes) (h : LeavesOpen settings 0 ts 0)
    (before us : List Term) :
    tunedAfter settings flags before (opening :: (ts ++ close :: us)) =
      tunedAfter settings flags (opening :: before) ts ++ tunedAfter settings flags before us := by
  rw [tunedAfter_word (by simp [hopens]), tunedAfter_append, tunedAfter_word (by simp [hcloses]),
    tunedAfter_congr fun depth => contextBefore_level hopens hcloses h depth before]

/-! ## Fusing -/

theorem isValid_tune (settings : Settings) (flags : ParserFlags) (c : ResourceContext) (t : Term) :
    (tune settings flags c t).isValid = t.isValid := by
  cases t with
  | literal span l =>
    cases l with
    | string word =>
      rw [tune]
      split <;> rfl
    | _ => rfl
  | comparison span head value =>
    rw [tune, tuneComparison]
    split <;> rfl
  | _ => rfl

/-- A level in parentheses is added as one term, the one that its terms alone are fused to. -/
theorem fuseItems_level {opening close : Term} (hopens : Role.of settings opening = .opens)
    (hcloses : Role.of settings close = .closes) (h : LeavesOpen settings 0 ts 0) (s : LevelState)
    (us : List Term) :
    fuseItems settings flags s (Item.all settings (opening :: (ts ++ close :: us))) =
      fuseItems settings flags (s.add (fuse settings flags ts 0).1) (Item.all settings us) := by
  rw [Item.all_cons, hopens]
  dsimp only
  rw [Item.all_append_closes h hcloses, h.behind_append_closes rfl hcloses, fuseItems, fuseItem]
  rfl

/-- A level that is not closed is added as the term that its terms are fused to. -/
theorem fuseItems_openLevel {opening : Term} (hopens : Role.of settings opening = .opens)
    (h : LeavesOpen settings 0 ts n) (s : LevelState) :
    fuseItems settings flags s (Item.all settings (opening :: ts)) =
      s.add (fuse settings flags ts 0).1 := by
  rw [Item.all_cons, hopens]
  dsimp only
  rw [h.behind_eq_nil, fuseItems, fuseItem]
  rfl

/-- A plain term adds the nodes that it has where it stands, none if it says nothing. -/
theorem content_fuseItem_plain {t : Term} (hplain : Role.of settings t = .plain) {s : LevelState}
    (hs : s.context = contextBefore settings 0 before) :
    (fuseItem settings flags s (.term t)).fused.content ++
        (tunedAfter settings flags (t :: before) ts).flatMap Term.nodes =
      s.fused.content ++ (tunedAfter settings flags before (t :: ts)).flatMap Term.nodes := by
  rw [fuseItem, LevelState.content_add, tunedAfter, hs, List.flatMap_append, List.append_assoc]
  congr 2
  by_cases hvalid : t.isValid = true
  · rw [Term.content_of_isValid ((isValid_tune ..).trans hvalid), if_pos ⟨hplain, hvalid⟩,
      List.flatMap_singleton]
  · rw [Bool.not_eq_true] at hvalid
    rw [Term.content_of_not_isValid ((isValid_tune ..).trans hvalid),
      if_neg fun hitem => by simp [hvalid] at hitem, List.flatMap_nil]

/-- The items of a level are joined one after the other to what there was. -/
theorem content_fuseItems {ts : List Term} {n : Nat} (h : LeavesOpen settings 0 ts n)
    {before : List Term} {s : LevelState} (hs : s.context = contextBefore settings 0 before) :
    (fuseItems settings flags s (Item.all settings ts)).fused.content =
      s.fused.content ++ (tunedAfter settings flags before ts).flatMap Term.nodes := by
  match ts with
  | [] => simp [Item.all, Item.ofTerms, Item.read, Item.closeAll, fuseItems, tunedAfter]
  | t :: ts =>
    by_cases hopens : Role.of settings t = .opens
    · have hlevel {us : List Term} {m : Nat} (hus : LeavesOpen settings 0 us m)
          (_ : us.length ≤ ts.length) : (fuse settings flags us 0).1.content =
            (tunedAfter settings flags (t :: before) us).flatMap Term.nodes :=
        content_fuseItems hus (s := {}) (contextBefore_opens hopens before).symm
      obtain ⟨m, hm⟩ | ⟨inner, close, after, rfl, hcloses, hinner⟩ :=
        exists_leavesOpen_or settings 0 ts
      · rw [fuseItems_openLevel hopens hm, LevelState.content_add, hlevel hm (Nat.le_refl _),
          tunedAfter_word (by simp [hopens])]
      · obtain ⟨_, hzero, hafter⟩ :=
          ((hinner.add 1).of_append (h.tail_opens hopens)).tail_closes hcloses
        obtain rfl := Nat.succ.inj hzero
        have ih := content_fuseItems hafter
          (s := s.add (fuse settings flags inner 0).1) hs
        rw [fuseItems_level hopens hcloses hinner, ih, LevelState.content_add,
          hlevel hinner (by simp), tunedAfter_level hopens hcloses hinner, List.flatMap_append,
          List.append_assoc]
    by_cases hcloses : Role.of settings t = .closes
    · obtain ⟨_, hzero, -⟩ := h.tail_closes hcloses
      contradiction
    have hcontext := contextBefore_other hopens hcloses before
    have ih {s' : LevelState} (hs' : s'.context = t.context?.getD s.context) :
        (fuseItems settings flags s' (Item.all settings ts)).fused.content =
          s'.fused.content ++ (tunedAfter settings flags (t :: before) ts).flatMap Term.nodes :=
      content_fuseItems (h.tail_other hopens hcloses) (hs'.trans (by rw [hcontext, hs]))
    have hword (hplain : Role.of settings t ≠ .plain) {s' : LevelState}
        (hs' : s'.context = s.context) (hfused : s'.fused = s.fused) :
        (fuseItems settings flags s' (Item.all settings ts)).fused.content =
          s.fused.content ++ (tunedAfter settings flags before (t :: ts)).flatMap Term.nodes := by
      rw [ih (by rw [hs', context?_eq_none hplain]; rfl), hfused, tunedAfter_word hplain]
    rw [Item.all_cons]
    cases hrole : Role.of settings t with
    | opens => contradiction
    | closes => contradiction
    | or => exact hword (by simp [hrole]) rfl rfl
    | and => exact hword (by simp [hrole]) rfl rfl
    | not => exact hword (by simp [hrole]) rfl rfl
    | skipped => exact hword (by simp [hrole]) rfl rfl
    | plain =>
      dsimp only
      rw [fuseItems, ih (by rw [fuseItem]; exact after_eq s.context t)]
      exact content_fuseItem_plain hrole hs
termination_by ts.length

/-- The nodes of a fused list are those of its items in their order, each tuned once and where it stands. The
terms between two parentheses are fused as if they stood alone : they add their nodes, leave the context as it
was, and are read to the parenthesis that closes them. The list is read to its end, and one more term for each
level that is still open there. -/
theorem fuse_nodes (settings : Settings) (flags : ParserFlags) {ts : List Term} {n : Nat}
    (h : LeavesOpen settings 0 ts n) :
    (fuse settings flags ts 0).1.content =
        (tunedAfter settings flags [] ts).flatMap Term.nodes ∧
      (fuse settings flags ts 0).2 = ts.length + n ∧
      ∀ before opening inner close after, ts = before ++ opening :: (inner ++ close :: after) →
        Role.of settings opening = .opens → Role.of settings close = .closes →
        LeavesOpen settings 0 inner 0 →
        fuse settings flags ts (before.length + 1) =
            ((fuse settings flags inner 0).1, before.length + 1 + inner.length) ∧
          (fuse settings flags ts 0).1.content =
            (tunedAfter settings flags [] before).flatMap Term.nodes ++
              (fuse settings flags inner 0).1.content ++
              (tunedAfter settings flags before.reverse after).flatMap Term.nodes ∧
          ∀ s, fuseItems settings flags s
                (Item.all settings (opening :: (inner ++ close :: after))) =
              fuseItems settings flags (s.add (fuse settings flags inner 0).1)
                (Item.all settings after) ∧
            (s.add (fuse settings flags inner 0).1).context = s.context := by
  have hcontent : (fuse settings flags ts 0).1.content =
      (tunedAfter settings flags [] ts).flatMap Term.nodes :=
    content_fuseItems h (s := {}) rfl
  refine ⟨hcontent, ?_, ?_⟩
  · have hread := Item.read_snd_eq h [] List.length_nil
    change 0 + _ = _
    rw [Nat.zero_add]
    exact hread
  · rintro before opening inner close after rfl hopens hcloses hinner
    refine ⟨?_, ?_, fun s => ⟨fuseItems_level hopens hcloses hinner s after, rfl⟩⟩
    · have hread := Item.read_append_closes hinner rfl hcloses [] List.length_nil after
      have hlength := Item.read_snd_eq hinner [] List.length_nil
      have hdrop : (before ++ opening :: (inner ++ close :: after)).drop (before.length + 1) =
          inner ++ close :: after := by
        rw [← List.drop_drop, List.drop_left, List.drop_one, List.tail_cons]
      unfold fuse
      rw [hdrop, Item.ofTerms, hread]
      refine Prod.ext rfl ?_
      exact congrArg (before.length + 1 + ·) hlength
    · have hlevel : (fuse settings flags inner 0).1.content =
          (tunedAfter settings flags (opening :: before.reverse) inner).flatMap Term.nodes :=
        content_fuseItems hinner (s := {}) (contextBefore_opens hopens _).symm
      rw [hcontent, tunedAfter_append, List.append_nil, tunedAfter_level hopens hcloses hinner,
        List.flatMap_append, List.flatMap_append, hlevel, List.append_assoc]

end

/-- A number in parentheses is of the general context, and the one behind them is of the files that stand in
front of them. -/
theorem fuse_nodes_nestedNumber :
    let files : Term := .types .empty [Vocabulary.Nfo.fileDataObject]
    let hundred := Term.ofLiteral (.integer 100)
    let ts := [files, .ofLiteral (.string "("), hundred, .ofLiteral (.string ")"), hundred]
    LeavesOpen .english 0 ts 0 ∧ (fuse .english {} ts 0).2 = 5 ∧
      (fuse .english {} ts 0).1.content = files ::
        ((tune .english {} .general hundred).nodes ++ (tune .english {} .files hundred).nodes) ∧
      fuse .english {} ts 2 = ((fuse .english {} [hundred] 0).1, 3) := by
  intro files hundred ts
  have hroles : ts.map (Role.of .english) = [.plain, .opens, .plain, .closes, .plain] := by
    decide +kernel
  simp only [ts, List.map_cons, List.map_nil, List.cons.injEq, and_true] at hroles
  obtain ⟨hfiles, hopens, hplain, hcloses, -⟩ := hroles
  have hnumber {us : List Term} {depth n : Nat} (h : LeavesOpen .english depth us n) :
      LeavesOpen .english depth (hundred :: us) n := .other (by simp [hplain]) (by simp [hplain]) h
  have hts : LeavesOpen .english 0 ts 0 :=
    .other (by simp [hfiles]) (by simp [hfiles])
      (.opens hopens (hnumber (.closes hcloses (hnumber (.nil 0)))))
  obtain ⟨hcontent, hlength, hlevels⟩ := fuse_nodes .english {} hts
  obtain ⟨hlevel, -, -⟩ := hlevels [files] _ [hundred] _ [hundred] rfl hopens hcloses (hnumber (.nil 0))
  refine ⟨hts, hlength, hcontent.trans ?_, hlevel⟩
  have hcontext : ResourceContext.ofType Vocabulary.Nfo.fileDataObject = .files := by decide +kernel
  have hvalid : hundred.isValid = true := rfl
  simp only [ts, tunedAfter, hfiles, hopens, hplain, hcloses, hvalid]
  simp [contextBefore, hfiles, hopens, hplain, hcloses, Term.context?, hcontext, files,
    Term.isValid, tune, Term.nodes]

/-- A level that is left open is read to one term past the end of the list. -/
theorem fuse_openParenthesis :
    let ts := [Term.ofLiteral (.string "(")]
    LeavesOpen .english 0 ts 1 ∧ (fuse .english {} ts 0).2 = 2 ∧ ts.length = 1 := by
  intro ts
  have hopens : Role.of .english (.ofLiteral (.string "(")) = .opens := by decide +kernel
  have h : LeavesOpen .english 0 ts 1 := .opens hopens (.nil 1)
  have hread := Item.read_snd_eq h [] List.length_nil
  exact ⟨h, congrArg (0 + ·) hread, rfl⟩

end DesktopSearch
