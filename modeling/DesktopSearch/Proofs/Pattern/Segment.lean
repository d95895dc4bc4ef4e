import DesktopSearch.Proofs.Pattern.Expression
import DesktopSearch.Proofs.Pattern.Rewriting

/-!
# Segments

A pattern matches at the start of a list exactly if the list starts with one segment for each of its parts :
one term for a slot, one literal for a keyword, and for a run the terms in front of the first one that the
next part accepts, or all that is left. `Splits` says this without looking at how the pattern is laid over
the list, and `Pattern.matchAt_segments` that both agree, with all that is captured on the way.

A pattern with two runs is another matter : what the first one takes lets the second one be empty at the end
of the list. So the pattern is asked to have one run at most.
-/

namespace DesktopSearch

/-! ## Splitting a list -/

/-- The parts of a pattern with the terms that they stand for. -/
abbrev Segments := List (Part × List Term)

/-- The terms of all segments. -/
def Segments.window (es : Segments) : List Term := es.flatMap Prod.snd

theorem Segments.window_cons (e : Part × List Term) (es : Segments) :
    window (e :: es) = e.2 ++ es.window :=
  List.flatMap_cons

theorem Segments.exists_of_cons_eq_map {part : Part} {parts : List Part} {es : Segments}
    (h : part :: parts = es.map Prod.fst) :
    ∃ segment rest, es = (part, segment) :: rest ∧ parts = rest.map Prod.fst := by
  obtain ⟨⟨_, segment⟩, rest, rfl, rfl, rfl⟩ := List.map_eq_cons_iff.1 h.symm
  exact ⟨segment, rest, rfl, rfl⟩

/-- The segments fit their parts, in front of the terms `after`. -/
inductive Segments.Fit : Segments → List Term → Prop
  | nil (after : List Term) : Fit [] after
  | capture (slot : Nat) (t : Term) {es : Segments} {after : List Term} (rest : Fit es after) :
    Fit ((.capture slot, [t]) :: es) after
  | keyword (k : Keyword) (t : Term) (l : Literal) {es : Segments} {after : List Term}
    (literal : t.literal? = some l) (word : k.accepts l.text = true) (rest : Fit es after) :
    Fit ((.keyword k, [t]) :: es) after
  /-- A run ends in front of the first term that the next part accepts. -/
  | run (ts : List Term) {part : Part} {segment : List Term} {es : Segments} {after : List Term}
    (others : ∀ t ∈ ts, part.accepts t = false) (rest : Fit ((part, segment) :: es) after) :
    Fit ((.run, ts) :: (part, segment) :: es) after
  /-- A run at the end of the pattern takes something, and leaves nothing. -/
  | last (ts : List Term) (some : ts ≠ []) : Fit [(.run, ts)] []

/-- The segments split a list : their parts are the given ones, and the list is what they stand for and
`after`. -/
structure Splits (parts : List Part) (ts : List Term) (es : Segments) (after : List Term) : Prop where
  parts_eq : es.map Prod.fst = parts
  terms_eq : ts = es.window ++ after
  fit : es.Fit after

/-- A pattern without its first part has no more runs than the pattern. -/
theorem count_run_le {part : Part} {parts : List Part} (h : (part :: parts).countP Part.isRun ≤ 1) :
    parts.countP Part.isRun ≤ 1 := by
  rw [List.countP_cons] at h
  omega

/-- A pattern that starts with its only run has none behind it. -/
theorem run_notMem {parts : List Part} (h : (Part.run :: parts).countP Part.isRun ≤ 1) : .run ∉ parts := by
  rw [List.countP_cons_of_pos rfl] at h
  have hnone : parts.countP Part.isRun = 0 := by omega
  exact fun hmem => List.countP_eq_zero.1 hnone _ hmem rfl

theorem ne_run {part : Part} {parts : List Part} (h : (Part.run :: part :: parts).countP Part.isRun ≤ 1) :
    part ≠ .run :=
  fun heq => run_notMem h (List.mem_cons.2 (Or.inl heq.symm))

namespace Segments.Fit

variable {part : Part} {segment ts : List Term} {es : Segments} {after : List Term}

/-- What stands for a part other than a run starts with a term that the part accepts. -/
theorem exists_cons (h : Fit ((part, segment) :: es) after) (hpart : part ≠ .run) :
    ∃ t rest, window ((part, segment) :: es) ++ after = t :: rest ∧ part.accepts t = true := by
  cases h with
  | capture slot t rest => exact ⟨t, _, rfl, rfl⟩
  | keyword k t l literal word rest =>
    exact ⟨t, _, rfl, by rw [Part.accepts, literal]; exact word⟩
  | run => exact absurd rfl hpart
  | last => exact absurd rfl hpart

/-- A run is what stands in front of the first term that the next part accepts. -/
theorem run_eq (others : ∀ t ∈ ts, part.accepts t = false) (rest : Fit ((part, segment) :: es) after)
    (hpart : part ≠ .run) :
    (ts ++ (window ((part, segment) :: es) ++ after)).takeWhile (!part.accepts ·) = ts ∧
      (ts ++ (window ((part, segment) :: es) ++ after)).dropWhile (!part.accepts ·) =
        window ((part, segment) :: es) ++ after := by
  obtain ⟨t, us, hcons, ht⟩ := rest.exists_cons hpart
  have hothers : ∀ u ∈ ts, (!part.accepts u) = true := by simpa using others
  rw [List.takeWhile_append_of_pos hothers, List.dropWhile_append_of_pos hothers, hcons,
    List.takeWhile_cons_of_neg (by simp [ht]), List.dropWhile_cons_of_neg (by simp [ht]),
    List.append_nil]
  exact ⟨rfl, rfl⟩

end Segments.Fit

/-! ## Matching -/

/-- The slot that a segment fills. -/
def Segments.slot? : Part × List Term → Option (Nat × Term)
  | (.capture slot, [t]) => some (slot, t)
  | _ => none

/-- The terms that a segment adds to the runs. -/
def Segments.runTerms : Part × List Term → List Term
  | (.run, ts) => ts
  | _ => []

/-- What is taken with the segments. -/
structure Taken.Adds (x y : Taken) (es : Segments) : Prop where
  slots : y.slots = x.slots ++ es.filterMap Segments.slot?
  run : y.run = x.run ++ es.flatMap Segments.runTerms
  length : y.length = x.length + es.window.length

namespace Taken.Adds

variable {x y : Taken} {es : Segments} {slot : Nat} {t : Term} {k : Keyword} {ts : List Term}

theorem cons_capture (h : (x.capture slot t).Adds y es) : x.Adds y ((.capture slot, [t]) :: es) where
  slots := by
    rw [h.slots, Taken.capture, List.append_assoc]
    rfl
  run := h.run
  length := by
    rw [h.length, Taken.capture, Segments.window_cons, List.length_append, ← Nat.add_assoc]
    rfl

theorem cons_keyword (h : x.keyword.Adds y es) : x.Adds y ((.keyword k, [t]) :: es) where
  slots := h.slots
  run := h.run
  length := by
    rw [h.length, Taken.keyword, Segments.window_cons, List.length_append, ← Nat.add_assoc]
    rfl

theorem cons_run (h : (x.extend ts).next.Adds y es) : x.Adds y ((.run, ts) :: es) where
  slots := h.slots
  run := by
    rw [h.run, Taken.next, Taken.extend, List.append_assoc]
    rfl
  length := by
    rw [h.length, Taken.next, Taken.extend, Segments.window_cons, List.length_append, Nat.add_assoc]

theorem last_run : x.Adds (x.extend ts) [(.run, ts)] where
  slots := (List.append_nil _).symm
  run := by simp [Taken.extend, Segments.runTerms]
  length := by simp [Taken.extend, Segments.window]

end Taken.Adds

/-- A match has segments, and takes what they are. -/
theorem Part.splits_of_matchAll {x y : Taken} {parts : List Part} {ts : List Term}
    (hruns : parts.countP Part.isRun ≤ 1) (hx : .run ∈ parts → x.run = [])
    (h : Part.matchAll x parts ts = .matched y) :
    ∃ es after, Splits parts ts es after ∧ x.Adds y es := by
  fun_induction Part.matchAll x parts ts with
  | case1 x ts =>
    obtain rfl := Outcome.matched.inj h
    exact ⟨[], ts, ⟨rfl, rfl, .nil ts⟩, by simp, by simp, by simp [Segments.window]⟩
  | case2 x _ => exact absurd h (Outcome.atEnd_ne_matched x y)
  | case3 x hrun => exact absurd (by simpa using hx) hrun
  | case4 x part parts _ => exact absurd h (Outcome.atEnd_ne_matched x y)
  | case5 x slot parts t ts ih =>
    obtain ⟨es, after, ⟨rfl, rfl, hfit⟩, hadds⟩ :=
      ih (count_run_le hruns) (fun hmem => hx (by simp [hmem])) h
    exact ⟨(.capture slot, [t]) :: es, after, ⟨rfl, rfl, .capture slot t hfit⟩, hadds.cons_capture⟩
  | case6 x k parts t ts haccepts ih =>
    obtain ⟨es, after, ⟨rfl, rfl, hfit⟩, hadds⟩ :=
      ih (count_run_le hruns) (fun hmem => hx (by simp [hmem])) h
    rw [Part.accepts, Option.any_eq_true] at haccepts
    obtain ⟨l, hl, hword⟩ := haccepts
    exact ⟨(.keyword k, [t]) :: es, after, ⟨rfl, rfl, .keyword k t l hl hword hfit⟩, hadds.cons_keyword⟩
  | case7 => simp at h
  | case8 x t ts =>
    obtain rfl := Outcome.matched.inj h
    exact ⟨[(.run, t :: ts)], [], ⟨rfl, by simp [Segments.window], .last _ (by simp)⟩, .last_run⟩
  | case9 x part parts t ts _ => exact absurd h (Outcome.atEnd_ne_matched _ y)
  | case10 x part parts t ts taken _ ih =>
    have hnone := run_notMem hruns
    obtain ⟨es, after, ⟨hparts, hterms, hfit⟩, hadds⟩ :=
      ih (count_run_le hruns) (fun hmem => absurd hmem hnone) h
    obtain ⟨segment, es, rfl, rfl⟩ := Segments.exists_of_cons_eq_map hparts.symm
    refine ⟨(.run, taken) :: (part, segment) :: es, after, ⟨rfl, ?_, .run taken ?_ hfit⟩, hadds.cons_run⟩
    · rw [Segments.window_cons, List.append_assoc, ← hterms]
      dsimp only
      exact List.takeWhile_append_dropWhile.symm
    · intro u hu
      simpa using List.mem_takeWhile_imp hu

/-- A run ends before the first term that the next part accepts. -/
theorem Part.matchAll_run (x : Taken) {part : Part} {parts : List Part} {ts : List Term}
    (hrest : ts.dropWhile (!part.accepts ·) ≠ []) :
    matchAll x (.run :: part :: parts) ts =
      matchAll (x.extend (ts.takeWhile (!part.accepts ·))).next (part :: parts)
        (ts.dropWhile (!part.accepts ·)) := by
  cases ts with
  | nil => exact absurd rfl hrest
  | cons t ts =>
    rw [matchAll]
    split
    · exact absurd ‹_› hrest
    · rfl

/-- A list that is split into segments matches. -/
theorem Segments.Fit.matchAll {es : Segments} {after : List Term} (h : es.Fit after)
    (hruns : (es.map Prod.fst).countP Part.isRun ≤ 1) (x : Taken) :
    ∃ y, Part.matchAll x (es.map Prod.fst) (es.window ++ after) = .matched y := by
  induction h generalizing x with
  | nil after => exact ⟨x, by simp [Segments.window, Part.matchAll]⟩
  | capture slot t rest ih => exact ih (count_run_le hruns) (x.capture slot t)
  | keyword k t l literal word rest ih =>
    have haccepts : (Part.keyword k).accepts t = true := by
      rw [Part.accepts, literal]
      exact word
    obtain ⟨y, hy⟩ := ih (count_run_le hruns) x.keyword
    refine ⟨y, ?_⟩
    rw [Segments.window_cons, List.map_cons, List.singleton_append, List.cons_append, Part.matchAll,
      if_pos haccepts]
    exact hy
  | run ts others rest ih =>
    have hpart := ne_run hruns
    obtain ⟨htake, hdrop⟩ := rest.run_eq others hpart
    obtain ⟨t, us, hcons, -⟩ := rest.exists_cons hpart
    obtain ⟨y, hy⟩ := ih (count_run_le hruns) (x.extend ts).next
    refine ⟨y, ?_⟩
    rw [Segments.window_cons, List.append_assoc, List.map_cons, List.map_cons,
      Part.matchAll_run x (by rw [hdrop, hcons]; exact List.cons_ne_nil t us), htake, hdrop]
    exact hy
  | last ts some =>
    obtain ⟨t, us, rfl⟩ := List.exists_cons_of_ne_nil some
    exact ⟨x.extend (t :: us), by simp [Segments.window, Part.matchAll]⟩

/-- There is at most one way to split a list into segments for the parts of a pattern. -/
theorem Segments.Fit.unique {es es' : Segments} {after after' : List Term} (h : es.Fit after)
    (h' : es'.Fit after') (hparts : es.map Prod.fst = es'.map Prod.fst)
    (hterms : es.window ++ after = es'.window ++ after') (hruns : (es.map Prod.fst).countP Part.isRun ≤ 1) :
    es = es' ∧ after = after' := by
  induction h generalizing es' after' with
  | nil after =>
    obtain rfl := List.map_eq_nil_iff.1 hparts.symm
    exact ⟨rfl, hterms⟩
  | capture slot t rest ih =>
    obtain ⟨segment, es', rfl, hrest⟩ := Segments.exists_of_cons_eq_map hparts
    cases h' with
    | capture slot t' rest' =>
      obtain ⟨rfl, hbehind⟩ := List.cons.inj hterms
      obtain ⟨rfl, rfl⟩ := ih rest' hrest hbehind (count_run_le hruns)
      exact ⟨rfl, rfl⟩
  | keyword k t l literal word rest ih =>
    obtain ⟨segment, es', rfl, hrest⟩ := Segments.exists_of_cons_eq_map hparts
    cases h' with
    | keyword k t' l' literal' word' rest' =>
      obtain ⟨rfl, hbehind⟩ := List.cons.inj hterms
      obtain ⟨rfl, rfl⟩ := ih rest' hrest hbehind (count_run_le hruns)
      exact ⟨rfl, rfl⟩
  | run ts others rest ih =>
    obtain ⟨segment, es', rfl, hrest⟩ := Segments.exists_of_cons_eq_map hparts
    cases h' with
    | run ts' others' rest' =>
      obtain rfl := (List.cons.inj hrest).1
      have hpart := ne_run hruns
      rw [Segments.window_cons (_, ts), Segments.window_cons (_, segment), List.append_assoc,
        List.append_assoc] at hterms
      dsimp only at hterms
      obtain ⟨htake, hdrop⟩ := rest.run_eq others hpart
      obtain ⟨htake', hdrop'⟩ := rest'.run_eq others' hpart
      rw [hterms, htake'] at htake
      rw [hterms, hdrop'] at hdrop
      obtain ⟨heq, hafter⟩ := ih rest' hrest hdrop.symm (count_run_le hruns)
      exact ⟨by rw [htake, heq], hafter⟩
    | last ts' some' => simp at hrest
  | last ts some =>
    obtain ⟨segment, es', rfl, hrest⟩ := Segments.exists_of_cons_eq_map hparts
    cases h' with
    | run ts' others' rest' => simp at hrest
    | last ts' some' =>
      obtain rfl : ts = segment := by simpa [Segments.window] using hterms
      exact ⟨rfl, rfl⟩

/-! ## Captured terms -/

/-- What a slot holds : the term of the last segment that fills it, or nothing if there is none. -/
inductive Segments.SlotHolds (es : Segments) (slot : Nat) : Term → Prop
  | last (before : Segments) (t : Term) (behind : Segments)
    (split : es = before ++ (.capture slot, [t]) :: behind)
    (later : Part.capture slot ∉ behind.map Prod.fst) : SlotHolds es slot t
  | unnamed (never : Part.capture slot ∉ es.map Prod.fst) : SlotHolds es slot .nothing

theorem Segments.slot?_eq_some {e : Part × List Term} {slot : Nat} {t : Term} :
    slot? e = some (slot, t) ↔ e = (.capture slot, [t]) := by
  unfold slot?
  split
  all_goals simp_all

/-- A slot is filled with one term. -/
theorem Segments.Fit.exists_slot? {es : Segments} {after : List Term} (h : es.Fit after) {slot : Nat} :
    ∀ e ∈ es, e.1 = .capture slot → ∃ t, slot? e = some (slot, t) := by
  induction h with
  | nil => simp
  | capture slot' t rest ih =>
    refine List.forall_mem_cons.2 ⟨fun heq => ⟨t, ?_⟩, ih⟩
    exact slot?_eq_some.2 (by rw [← heq])
  | keyword k t l literal word rest ih => exact List.forall_mem_cons.2 ⟨by simp, ih⟩
  | run ts others rest ih => exact List.forall_mem_cons.2 ⟨by simp, ih⟩
  | last ts some => simp

/-- The term that is found for a slot is the one that it holds. -/
theorem Segments.Fit.slotHolds {es : Segments} {after : List Term} (h : es.Fit after) (slot : Nat) :
    es.SlotHolds slot ((((es.filterMap slot?).reverse.find? (·.1 == slot)).map Prod.snd).getD
      .nothing) := by
  cases hfind : (es.filterMap slot?).reverse.find? (·.1 == slot) with
  | none =>
    refine .unnamed fun hslot => ?_
    obtain ⟨e, he, heq⟩ := List.mem_map.1 hslot
    obtain ⟨t, ht⟩ := h.exists_slot? e he heq
    have hmem := List.mem_reverse.2 (List.mem_filterMap.2 ⟨e, he, ht⟩)
    exact absurd (List.find?_eq_none.1 hfind _ hmem) (by simp)
  | some e =>
    obtain ⟨hslot, later, earlier, hsplit, hlater⟩ := List.find?_eq_some_iff_append.1 hfind
    obtain ⟨slot', t⟩ := e
    obtain rfl : slot' = slot := by simpa using hslot
    rw [List.reverse_eq_iff, List.reverse_append, List.reverse_cons, List.append_assoc,
      List.singleton_append] at hsplit
    obtain ⟨before, rest, rfl, -, hrest⟩ := List.filterMap_eq_append_iff.1 hsplit
    obtain ⟨others, e, behind, rfl, -, he, hbehind⟩ := List.filterMap_eq_cons_iff.1 hrest
    obtain rfl := slot?_eq_some.1 he
    refine .last (before ++ others) t behind (List.append_assoc ..).symm fun hslot => ?_
    obtain ⟨e, he, heq⟩ := List.mem_map.1 hslot
    obtain ⟨t', ht'⟩ := h.exists_slot? e (by simp [he]) heq
    have hmem := List.mem_reverse.1 (hbehind ▸ List.mem_filterMap.2 ⟨e, he, ht'⟩)
    exact absurd (hlater _ hmem) (by simp)

/-- A number that grows along the parts just as their slots ask for. -/
theorem Part.foldl_le_iff {f : Nat → Part → Nat} {n : Nat}
    (hf : ∀ m part, f m part ≤ n ↔ m ≤ n ∧ ∀ slot, part = .capture slot → slot < n) (parts : List Part)
    (m : Nat) : parts.foldl f m ≤ n ↔ m ≤ n ∧ ∀ slot, .capture slot ∈ parts → slot < n := by
  induction parts generalizing m with
  | nil => simp
  | cons part parts ih =>
    rw [List.foldl_cons, ih, hf, and_assoc]
    simp only [List.mem_cons, or_imp, forall_and, eq_comm]

/-- There are as many slots as the parts need. -/
theorem Pattern.slotCount_le_iff {p : Pattern} {n : Nat} :
    p.slotCount ≤ n ↔ ∀ slot, .capture slot ∈ p.parts → slot < n := by
  rw [slotCount, Part.foldl_le_iff]
  · simp
  · intro m part
    cases part with
    | capture slot =>
      refine Nat.max_le.trans (and_congr_right fun _ => ?_)
      exact ⟨fun h _ heq => Part.capture.inj heq ▸ h, fun h => h slot rfl⟩
    | run => simp
    | keyword k => simp

/-! ## Where a pattern matches -/

namespace Pattern

variable {p : Pattern} {ts after : List Term} {es : Segments} {taken : Taken}

theorem Splits.unique {es' : Segments} {after' : List Term} (hruns : p.parts.countP Part.isRun ≤ 1)
    (h : Splits p.parts ts es after) (h' : Splits p.parts ts es' after') : es = es' ∧ after = after' :=
  h.fit.unique h'.fit (h.parts_eq.trans h'.parts_eq.symm) (h.terms_eq.symm.trans h'.terms_eq)
    (by rwa [h.parts_eq])

/-- A list that is split into segments matches, and the match takes what the segments are. -/
theorem matchAt_of_splits (hruns : p.parts.countP Part.isRun ≤ 1) (h : Splits p.parts ts es after) :
    ∃ taken, p.matchAt ts = .matched taken ∧ Taken.Adds {} taken es := by
  obtain ⟨taken, htaken⟩ := h.fit.matchAll (by rwa [h.parts_eq]) {}
  rw [h.parts_eq, ← h.terms_eq] at htaken
  obtain ⟨es', after', h', hadds⟩ := Part.splits_of_matchAll hruns (fun _ => rfl) htaken
  obtain ⟨rfl, -⟩ := Splits.unique hruns h h'
  exact ⟨taken, htaken, hadds⟩

/-- The lengths of matches are the lengths of windows that split. -/
theorem matchAt_length_iff (hruns : p.parts.countP Part.isRun ≤ 1) (length : Nat) :
    (∃ taken, p.matchAt ts = .matched taken ∧ taken.length = length) ↔
      ∃ es after, Splits p.parts ts es after ∧ es.window.length = length := by
  constructor
  · rintro ⟨taken, htaken, rfl⟩
    obtain ⟨es, after, h, hadds⟩ := Part.splits_of_matchAll hruns (fun _ => rfl) htaken
    exact ⟨es, after, h, by rw [hadds.length, Nat.zero_add]⟩
  · rintro ⟨es, after, h, rfl⟩
    obtain ⟨taken, htaken, hadds⟩ := matchAt_of_splits hruns h
    exact ⟨taken, htaken, by rw [hadds.length, Nat.zero_add]⟩

/-- The captured terms are those of the slots and those of the run. -/
theorem captures_of_adds (hfit : es.Fit after) (hadds : Taken.Adds {} taken es) :
    ∃ slots, taken.captures p.slotCount = slots ++ es.flatMap Segments.runTerms ∧
      slots.length = p.slotCount ∧ ∀ slot t, slots[slot]? = some t → es.SlotHolds slot t := by
  rw [Taken.captures, hadds.run]
  refine ⟨_, rfl, by simp, fun slot t ht => ?_⟩
  rw [List.getElem?_map, Option.map_eq_some_iff] at ht
  obtain ⟨i, hi, rfl⟩ := ht
  obtain ⟨_, rfl⟩ : ∃ _ : slot < p.slotCount, slot = i := by
    simpa [List.getElem?_eq_some_iff] using hi
  rw [hadds.slots, List.nil_append]
  exact hfit.slotHolds slot

/-- What is written instead of a window has its span. -/
theorem rewriteHere?_of_splits {reader : Reader} {u : Term} (h : Splits p.parts ts es after)
    (hmatch : p.matchAt ts = .matched taken) (hadds : Taken.Adds {} taken es)
    (hreader : reader (taken.captures p.slotCount) = [u]) :
    rewriteHere? p reader ts = some (u.withSpan (Term.spanOf es.window) :: after) := by
  have hlen : taken.length = es.window.length := by rw [hadds.length, Nat.zero_add]
  rw [rewriteHere?, hmatch]
  dsimp only
  rw [hreader, hlen, h.terms_eq, List.take_left, List.drop_left]
  rfl

/-- A pattern with one run at most matches at a place of a list exactly if the terms there are split into
segments for its parts, which can be done in one way only. It captures what its slots hold and the terms of
the run, and what is written instead of a window has the span of the window. A keyword is what the engine
makes of the expression for whole texts, whatever their case, and accepts the texts that the expression
matches from end to end; one that stands for words accepts these words. -/
theorem matchAt_segments (p : Pattern) (hruns : p.parts.countP Part.isRun ≤ 1) (ts : List Term)
    (start : Nat) :
    (∀ length, (∃ taken, p.matchAt (ts.drop start) = .matched taken ∧ taken.length = length) ↔
      ∃ es after, Splits p.parts (ts.drop start) es after ∧ es.window.length = length) ∧
    (∀ es after es' after', Splits p.parts (ts.drop start) es after →
      Splits p.parts (ts.drop start) es' after' → es = es' ∧ after = after') ∧
    (∀ taken es after, p.matchAt (ts.drop start) = .matched taken →
      Splits p.parts (ts.drop start) es after →
      (∃ slots, taken.captures p.slotCount = slots ++ es.flatMap Segments.runTerms ∧
        slots.length = p.slotCount ∧ ∀ slot t, slots[slot]? = some t → es.SlotHolds slot t) ∧
      ∀ reader u, reader (taken.captures p.slotCount) = [u] →
        rewriteHere? p reader (ts.drop start) =
          some (u.withSpan (Term.spanOf es.window) :: after)) ∧
    (∀ n, p.slotCount ≤ n ↔ ∀ slot, .capture slot ∈ p.parts → slot < n) ∧
    (∀ (engine : Keyword.Engine) (word : String), word ≠ "..." → Part.slot? word.toList = none →
      Part.read? engine word = (engine (Keyword.anchored word.toList)).map .keyword ∧
      ∀ tree? e, engine.Follows tree? → tree? word.toList = some e →
        ∃ k, Part.read? engine word = some (.keyword k) ∧
          ∀ text : String, k.accepts text = true ↔ e.Matches Text.fold [] text.toList []) ∧
    ∀ e : Keyword.Expression, Part.slot? e.text = none →
      ∃ k, Part.read? Keyword.read? (String.ofList e.text) = some (.keyword k) ∧
        ∀ text, k.accepts text = true ↔
          ∃ word ∈ e.words, word.map Text.fold = text.toList.map Text.fold := by
  refine ⟨matchAt_length_iff hruns, fun es after es' after' => Splits.unique hruns, ?_,
    fun n => slotCount_le_iff, fun engine word hrun hslot =>
      ⟨Part.read?_of_slot?_eq_none engine hrun hslot,
        fun _ _ hengine he => Part.read?_of_follows hengine hrun hslot he⟩,
    fun e he => ⟨e.keyword, Part.read?_text e he, e.accepts_iff⟩⟩
  intro taken es after hmatch hsplits
  obtain ⟨taken', hmatch', hadds⟩ := matchAt_of_splits hruns hsplits
  obtain rfl := Outcome.matched.inj (hmatch.symm.trans hmatch')
  exact ⟨captures_of_adds hsplits.fit hadds,
    fun reader u hreader => rewriteHere?_of_splits hsplits hmatch hadds hreader⟩

/-- An engine that knows that a point stands for one character, and nothing else. -/
def pointEngine : Keyword.Engine := fun cs =>
  if cs = Keyword.anchored ['.'] then some ⟨fun text => text.toList.length == 1⟩ else none

theorem follows_pointEngine : pointEngine.Follows fun cs => if cs = ['.'] then some .any else none := by
  intro cs e h
  obtain ⟨rfl, he⟩ := Option.ite_none_right_eq_some.1 h
  obtain rfl := Option.some.inj he
  refine ⟨_, if_pos rfl, fun text => ?_⟩
  rw [Regexp.foundIn_anchored_iff, beq_iff_eq, List.length_eq_one_iff]
  generalize text.toList = cs
  constructor
  · rintro ⟨d, rfl⟩
    exact .any d
  · rintro ⟨d⟩
    exact ⟨_, rfl⟩

/-- The pattern `%2 ... , %1` matches five of six words, of which `b` and `c` are its run. An engine that
reads points makes a keyword of one. -/
theorem matchAt_segments_comma :
    let word (text : String) : Term := .ofLiteral (.string text)
    let parts : List Part := [.capture 1, .run, .keyword (.ofWords [(.whole, [','])]), .capture 0]
    let ts := [word "a", word "b", word "c", word ",", word "d", word "e"]
    parts.countP Part.isRun ≤ 1 ∧ (∃ es after, Splits parts ts es after ∧ es.window.length = 5) ∧
      ∃ k, Part.read? pointEngine "." = some (.keyword k) ∧
        ∀ text : String, k.accepts text = true ↔ Regexp.any.Matches Text.fold [] text.toList [] := by
  intro word parts ts
  have hruns : parts.countP Part.isRun ≤ 1 := by decide
  obtain ⟨hlength, -, -, -, hkeyword, -⟩ := matchAt_segments ⟨["%2", "...", ",", "%1"], parts⟩ hruns ts 0
  exact ⟨hruns, (hlength 5).1 ⟨_, rfl, rfl⟩,
    (hkeyword pointEngine "." (by decide) (by decide)).2 _ _ follows_pointEngine (if_pos (by decide))⟩

end Pattern

end DesktopSearch
