import DesktopSearch.Dates.Folding
import DesktopSearch.Pattern.Matching

/-!
# Runs of fields

A run of fields starts and ends with a field and has short words besides fields at most. The folded list is
the list itself with each of its longest runs replaced by one moment : a cut of the list has its longest
runs and no others (`IsCut.isLongestFieldRun`, `IsCut.exists_of_isLongestFieldRun`), and folding follows a
cut (`exists_isCut_foldDatesAfter?`), so every folded term comes from the list (`mem_of_foldDates?`). The
moment is that of the last field about each period, and it covers the fields of the run ; if a run describes
none, the list is not folded. `foldDates_runs` puts this together, and adds that no field is left, so that
folding once more changes nothing.
-/

namespace DesktopSearch

variable {settings : Settings} {now : Instant}

/-! ## Fields -/

theorem Period.ofName?_eq_some_iff {s : String} {p : Period} : ofName? s = some p ↔ s = p.name := by
  constructor
  · intro h
    have hname := List.find?_some (p := fun p : Period => p.name == s) h
    exact (eq_of_beq hname).symm
  · rintro rfl
    cases p <;> decide

theorem Term.fieldParts?_eq_some_iff {t : Term} {u : Uri} {n : Int} : t.fieldParts? = some (u, n) ↔
    ∃ s c v, t = .comparison s c v ∧ c.property = some u ∧ u.scheme? = some "date" ∧
      v.integer? = some n := by
  constructor
  · intro h
    cases t with
    | comparison s c v =>
      obtain ⟨u', hproperty, h⟩ := Option.bind_eq_some_iff.1 h
      split at h
      · rename_i hscheme
        obtain ⟨n', hnumber, h⟩ := Option.bind_eq_some_iff.1 h
        obtain ⟨rfl, rfl⟩ := Prod.mk.inj (Option.some.inj h)
        exact ⟨s, c, v, rfl, hproperty, hscheme, hnumber⟩
      · simp at h
    | _ => simp [fieldParts?] at h
  · rintro ⟨s, c, v, rfl, hproperty, hscheme, hnumber⟩
    simp [fieldParts?, hproperty, hscheme, hnumber, Uri.dateScheme]

/-- A field is a comparison of a number with a property `date://period/...`. -/
theorem Term.field?_eq_some_iff {t : Term} {p : Period} {f : Field} : t.field? = some (p, f) ↔
    ∃ s c v u n, t = .comparison s c v ∧ c.property = some u ∧ u.scheme? = some "date" ∧
      u.host? = some p.name ∧ v.integer? = some n ∧
      f = if u.path = "/offset" then .relative n else .absolute n := by
  constructor
  · intro h
    obtain ⟨⟨u, n⟩, hparts, h⟩ := Option.bind_eq_some_iff.1 h
    obtain ⟨host, hhost, h⟩ := Option.bind_eq_some_iff.1 h
    obtain ⟨p', hp, h⟩ := Option.bind_eq_some_iff.1 h
    obtain ⟨rfl, rfl⟩ := Prod.mk.inj (Option.some.inj h)
    obtain rfl := Period.ofName?_eq_some_iff.1 hp
    obtain ⟨s, c, v, rfl, hproperty, hscheme, hnumber⟩ := fieldParts?_eq_some_iff.1 hparts
    exact ⟨s, c, v, u, n, rfl, hproperty, hscheme, hhost, hnumber, rfl⟩
  · rintro ⟨s, c, v, u, n, rfl, hproperty, hscheme, hhost, hnumber, rfl⟩
    have hparts : (comparison s c v).fieldParts? = some (u, n) :=
      fieldParts?_eq_some_iff.2 ⟨s, c, v, rfl, hproperty, hscheme, hnumber⟩
    simp [field?, hparts, hhost, Period.ofName?_eq_some_iff.2 rfl]

theorem field?_eq_none_of_isFiller {t : Term} (h : isFiller settings t = true) : t.field? = none := by
  cases t with
  | comparison s c v => simp [isFiller, Term.string?, Term.literal?] at h
  | _ => rfl

/-! ## Runs -/

/-- A field, or a short word that may stand between two fields. -/
def IsRunPart (settings : Settings) (t : Term) : Prop :=
  t.field?.isSome = true ∨ isFiller settings t = true

/-- Fields at both ends, and nothing but fields and short words in between. -/
structure IsFieldRun (settings : Settings) (ts : List Term) : Prop where
  first : ∃ t rest, ts = t :: rest ∧ t.field?.isSome = true
  last : ∃ rest t, ts = rest ++ [t] ∧ t.field?.isSome = true
  parts : ∀ t ∈ ts, IsRunPart settings t

/-- Between `before` and `after` there is a run, and it is part of no longer one. -/
structure IsLongestFieldRun (settings : Settings) (before run after : List Term) : Prop where
  isRun : IsFieldRun settings run
  longest : ∀ front left right back, before = front ++ left → after = right ++ back →
    IsFieldRun settings (left ++ (run ++ right)) → left = [] ∧ right = []

/-- The fields of a list. -/
def fieldsOf (ts : List Term) : List Term := ts.filter (·.field?.isSome)

/-- What the last field about each period says. -/
def lastFields (ts : List Term) : DateSpec :=
  ⟨fun p => (((ts.filterMap Term.field?).filter (·.1 = p)).getLast?.map Prod.snd).getD .unset⟩

theorem isFieldRun_singleton {t : Term} (h : t.field?.isSome = true) : IsFieldRun settings [t] where
  first := ⟨t, [], rfl, h⟩
  last := ⟨[], t, rfl, h⟩
  parts := List.forall_mem_singleton.2 (Or.inl h)

/-- Short words and one more field make a run longer. -/
theorem IsFieldRun.append {run filler : List Term} {t : Term} (h : IsFieldRun settings run)
    (hfiller : ∀ u ∈ filler, isFiller settings u = true) (ht : t.field?.isSome = true) :
    IsFieldRun settings (run ++ (filler ++ [t])) where
  first := by
    obtain ⟨u, rest, rfl, hu⟩ := h.first
    exact ⟨u, _, rfl, hu⟩
  last := ⟨run ++ filler, t, (List.append_assoc _ _ _).symm, ht⟩
  parts := by
    simp only [List.forall_mem_append, List.forall_mem_singleton]
    exact ⟨h.parts, fun u hu => Or.inr (hfiller u hu), Or.inl ht⟩

/-- A list does not start with a field that comes after nothing but short words and fields. -/
def NoFieldAhead (settings : Settings) (ts : List Term) : Prop :=
  ∀ front back, ts = front ++ back → (∀ t ∈ front, IsRunPart settings t) → ∀ t ∈ front, t.field? = none

theorem noFieldAhead_nil : NoFieldAhead settings [] := by
  intro front back h
  simp [(List.append_eq_nil_iff.1 h.symm).1]

theorem noFieldAhead_cons_of_not_isRunPart {t : Term} (ht : ¬IsRunPart settings t) (ts : List Term) :
    NoFieldAhead settings (t :: ts) := by
  intro front back h hparts
  cases front with
  | nil => simp
  | cons u front =>
    obtain ⟨rfl, -⟩ := List.cons.inj h
    exact absurd (hparts t List.mem_cons_self) ht

theorem NoFieldAhead.append_left {filler ts : List Term} (h : NoFieldAhead settings ts)
    (hfiller : ∀ t ∈ filler, t.field? = none) : NoFieldAhead settings (filler ++ ts) := by
  induction filler with
  | nil => exact h
  | cons t filler ih =>
    obtain ⟨ht, hfiller⟩ := List.forall_mem_cons.1 hfiller
    intro front back heq hparts
    cases front with
    | nil => simp
    | cons u front =>
      obtain ⟨rfl, hrest⟩ := List.cons.inj heq
      exact List.forall_mem_cons.2
        ⟨ht, ih hfiller front back hrest (List.forall_mem_cons.1 hparts).2⟩

/-- A run cannot go on where no field is ahead. -/
theorem NoFieldAhead.eq_nil_of_isFieldRun {left right back : List Term}
    (h : NoFieldAhead settings (right ++ back)) (hrun : IsFieldRun settings (left ++ right)) : right = [] := by
  rcases List.eq_nil_or_concat right with rfl | ⟨right, t, rfl⟩
  · rfl
  · rw [List.concat_eq_append] at h hrun
    obtain ⟨rest, u, hlast, hu⟩ := hrun.last
    rw [← List.append_assoc] at hlast
    obtain rfl : t = u := List.singleton_inj.1 (List.append_inj' hlast rfl).2
    have hnone := h _ back rfl (fun u hu => hrun.parts u (List.mem_append_right _ hu)) t (by simp)
    simp [hnone] at hu

/-- A longest run is a longest run of what is left of a list, too. -/
theorem IsLongestFieldRun.of_append {before run after : List Term} (front : List Term)
    (h : IsLongestFieldRun settings (front ++ before) run after) :
    IsLongestFieldRun settings before run after where
  isRun := h.isRun
  longest f left right b hleft := h.longest (front ++ f) left right b (by rw [hleft, List.append_assoc])

/-! ## Cuts -/

/-- A stretch of a list : a single term, or a run. -/
inductive Stretch where
  | term (t : Term)
  | run (ts : List Term)

namespace Stretch

/-- The terms of a stretch. -/
def terms : Stretch → List Term
  | term t => [t]
  | run ts => ts

/-- What takes the place of a stretch : a term itself, and the moment of a run. -/
def folded? (now : Instant) : Stretch → Option Term
  | term t => some t
  | run ts =>
    ((lastFields ts).moment? now).map fun m => .literal (Term.spanOf (fieldsOf ts)) (.dateTime m)

/-- The terms of stretches, one behind the other. -/
def allTerms (ss : List Stretch) : List Term := ss.flatMap terms

theorem allTerms_term (t : Term) (ss : List Stretch) : allTerms (term t :: ss) = t :: allTerms ss := rfl

theorem allTerms_run (ts : List Term) (ss : List Stretch) : allTerms (run ts :: ss) = ts ++ allTerms ss :=
  rfl

end Stretch

open Stretch

/-- Single terms are no fields, and a run goes on as far as it can. -/
inductive IsCut (settings : Settings) : List Stretch → Prop
  | nil : IsCut settings []
  | term {t : Term} {ss : List Stretch} (plain : t.field? = none) (rest : IsCut settings ss) :
    IsCut settings (.term t :: ss)
  | run {ts : List Term} {ss : List Stretch} (isRun : IsFieldRun settings ts)
    (ends : NoFieldAhead settings (allTerms ss)) (rest : IsCut settings ss) : IsCut settings (.run ts :: ss)

namespace IsCut

variable {ss : List Stretch}

theorem append_left {filler : List Term} (h : IsCut settings ss)
    (hfiller : ∀ t ∈ filler, t.field? = none) : IsCut settings (filler.map .term ++ ss) := by
  induction filler with
  | nil => exact h
  | cons t filler ih =>
    obtain ⟨ht, hfiller⟩ := List.forall_mem_cons.1 hfiller
    exact .term ht (ih hfiller)

theorem field?_eq_none_of_mem {t : Term} (h : IsCut settings ss) (ht : .term t ∈ ss) : t.field? = none := by
  induction h with
  | nil => simp at ht
  | term plain rest ih =>
    rcases List.mem_cons.1 ht with heq | ht
    · obtain rfl := Stretch.term.inj heq
      exact plain
    · exact ih ht
  | run isRun ends rest ih => exact ih ((List.mem_cons.1 ht).resolve_left (by simp))

theorem isFieldRun_of_mem {ts : List Term} (h : IsCut settings ss) (hts : .run ts ∈ ss) :
    IsFieldRun settings ts := by
  induction h with
  | nil => simp at hts
  | term plain rest ih => exact ih ((List.mem_cons.1 hts).resolve_left (by simp))
  | run isRun ends rest ih =>
    rcases List.mem_cons.1 hts with heq | hts
    · obtain rfl := Stretch.run.inj heq
      exact isRun
    · exact ih hts

/-- The runs of a cut are no parts of longer runs. -/
theorem isLongestFieldRun {front back : List Stretch} {run : List Term}
    (h : IsCut settings (front ++ .run run :: back)) :
    IsLongestFieldRun settings (allTerms front) run (allTerms back) := by
  induction front with
  | nil =>
    cases h with
    | run isRun ends rest =>
      refine ⟨isRun, fun f left right b hleft hright hlonger => ?_⟩
      obtain ⟨rfl, rfl⟩ := List.append_eq_nil_iff.1 hleft.symm
      rw [hright] at ends
      exact ⟨rfl, ends.eq_nil_of_isFieldRun hlonger⟩
  | cons s front ih =>
    cases h with
    | @term t _ plain rest =>
      refine ⟨(ih rest).isRun, fun f left right b hleft hright hlonger => ?_⟩
      cases f with
      | nil =>
        obtain ⟨u, us, hu, hfield⟩ := hlonger.first
        rw [List.nil_append] at hleft
        rw [← hleft] at hu
        obtain rfl := (List.cons.inj hu).1
        simp [plain] at hfield
      | cons u f => exact (ih rest).longest f left right b (List.cons.inj hleft).2 hright hlonger
    | @run ts _ isRun ends rest =>
      refine ⟨(ih rest).isRun, fun f left right b hleft hright hlonger => ?_⟩
      rw [allTerms_run] at hleft
      rcases List.append_eq_append_iff.1 hleft with ⟨x, -, hx⟩ | ⟨y, -, rfl⟩
      · exact (ih rest).longest x left right b hx hright hlonger
      · -- the first field of the run would be ahead of the stretch before
        obtain ⟨u, us, rfl, hu⟩ := (ih rest).isRun.first
        have hnone := ends (allTerms front ++ [u]) (us ++ allTerms back) (by simp [allTerms, terms])
          (fun t ht => hlonger.parts t (by grind)) u (by simp)
        simp [hnone] at hu

/-- A longest run is a run of the cut. -/
theorem exists_of_isLongestFieldRun {before run after : List Term} (h : IsCut settings ss)
    (hrun : IsLongestFieldRun settings before run after) (hss : allTerms ss = before ++ (run ++ after)) :
    ∃ front back, ss = front ++ .run run :: back ∧ allTerms front = before ∧ allTerms back = after := by
  obtain ⟨u, us, hfirst, hu⟩ := hrun.isRun.first
  induction h generalizing before with
  | nil => simp [hfirst, allTerms] at hss
  | @term t ss plain rest ih =>
    cases before with
    | nil =>
      rw [hfirst] at hss
      obtain rfl := (List.cons.inj hss).1
      simp [plain] at hu
    | cons v before =>
      obtain ⟨rfl, hrest⟩ := List.cons.inj hss
      obtain ⟨front, back, rfl, rfl, rfl⟩ := ih (hrun.of_append [t]) hrest
      exact ⟨.term t :: front, back, rfl, rfl, rfl⟩
  | @run ts ss isRun ends rest ih =>
    rw [allTerms_run] at hss
    rcases List.append_eq_append_iff.1 hss with ⟨x, rfl, hx⟩ | ⟨y, rfl, hy⟩
    · obtain ⟨front, back, rfl, rfl, rfl⟩ := ih (hrun.of_append ts) hx
      exact ⟨.run ts :: front, back, rfl, rfl, rfl⟩
    · -- both runs start in the same stretch, so each one reaches to where the other does
      rcases List.append_eq_append_iff.1 hy with ⟨z, rfl, rfl⟩ | ⟨z, rfl, hz⟩
      · obtain ⟨rfl, rfl⟩ := hrun.longest [] before z (allTerms ss) rfl rfl isRun
        exact ⟨[], ss, by simp, rfl, rfl⟩
      · rw [hz] at ends
        obtain rfl := ends.eq_nil_of_isFieldRun hrun.isRun
        rw [List.append_nil] at hrun ⊢
        obtain ⟨rfl, -⟩ := hrun.longest [] before [] after rfl rfl (by simpa using isRun)
        exact ⟨[], ss, rfl, rfl, hz⟩

end IsCut

/-! ## Folding -/

/-- The run that folding has open after the terms of a run and short words behind it. -/
def DateRun.ofTerms (run filler : List Term) : DateRun :=
  ⟨lastFields run, Term.spanOf (fieldsOf run), filler⟩

theorem lastFields_concat (ts : List Term) {t : Term} {p : Period} {f : Field} (ht : t.field? = some (p, f)) :
    lastFields (ts ++ [t]) = (lastFields ts).set p f := by
  refine congrArg DateSpec.mk (funext fun q => ?_)
  rw [List.filterMap_append, List.filter_append, List.filterMap_cons_some ht]
  by_cases hq : q = p
  · simp [hq]
  · simp [lastFields, hq, Ne.symm hq]

theorem spanOf_fieldsOf_concat (ts : List Term) {t : Term} (ht : t.field?.isSome = true) :
    Term.spanOf (fieldsOf (ts ++ [t])) = (Term.spanOf (fieldsOf ts)).union t.span := by
  simp [fieldsOf, Term.spanOf, List.filter_append, ht]

theorem DateRun.start_eq_ofTerms {t : Term} {p : Period} {f : Field} (ht : t.field? = some (p, f)) :
    start p f t.span = ofTerms [t] [] := by
  rw [← List.nil_append [t], ofTerms, lastFields_concat [] ht, spanOf_fieldsOf_concat [] (by simp [ht])]
  rfl

/-- Short words count neither for what a run says nor for where it stands. -/
theorem DateRun.add_ofTerms {run filler : List Term} {t : Term} {p : Period} {f : Field}
    (hfiller : ∀ u ∈ filler, u.field? = none) (ht : t.field? = some (p, f)) :
    (ofTerms run filler).add p f t.span = ofTerms (run ++ (filler ++ [t])) [] := by
  have hfields : lastFields (run ++ filler) = lastFields run := by
    rw [lastFields, List.filterMap_append, List.filterMap_eq_nil_iff.2 hfiller, List.append_nil]
    rfl
  have hspan : fieldsOf (run ++ filler) = fieldsOf run := by
    have hnone : fieldsOf filler = [] := List.filter_eq_nil_iff.2 (by simpa using hfiller)
    rw [fieldsOf, List.filter_append, ← fieldsOf, ← fieldsOf, hnone, List.append_nil]
  rw [← List.append_assoc, ofTerms, ofTerms, add, lastFields_concat _ ht,
    spanOf_fieldsOf_concat _ (by simp [ht]), hfields, hspan]

theorem Stretch.allTerms_terms_append (ts : List Term) (ss : List Stretch) :
    allTerms (ts.map .term ++ ss) = ts ++ allTerms ss := by
  rw [allTerms, List.flatMap_append, List.flatMap_map]
  simp [allTerms, terms]

/-- What is folded takes the place of a stretch. -/
theorem Stretch.exists_of_mem_mapM_folded? {ss : List Stretch} {us : List Term}
    (h : ss.mapM (folded? now) = some us) {u : Term} (hu : u ∈ us) : ∃ s ∈ ss, s.folded? now = some u := by
  induction ss generalizing us with
  | nil =>
    obtain rfl := Option.some.inj h
    simp at hu
  | cons s ss ih =>
    rw [List.mapM_cons] at h
    obtain ⟨v, hv, h⟩ := Option.bind_eq_some_iff.1 h
    obtain ⟨vs, hvs, h⟩ := Option.bind_eq_some_iff.1 h
    obtain rfl := Option.some.inj h
    rcases List.mem_cons.1 hu with rfl | hu
    · exact ⟨s, List.mem_cons_self, hv⟩
    · obtain ⟨s', hs', hfolded⟩ := ih hvs hu
      exact ⟨s', List.mem_cons_of_mem _ hs', hfolded⟩

theorem Stretch.mapM_folded?_term (t : Term) (ss : List Stretch) :
    (term t :: ss).mapM (folded? now) = (ss.mapM (folded? now)).map (t :: ·) := by
  rw [List.mapM_cons, Option.map_eq_bind]
  rfl

/-- Single terms stay as they are. -/
theorem Stretch.mapM_folded?_terms_append (ts : List Term) (ss : List Stretch) :
    (ts.map term ++ ss).mapM (folded? now) = (ss.mapM (folded? now)).map (ts ++ ·) := by
  induction ts with
  | nil => simp
  | cons t ts ih =>
    rw [List.map_cons, List.cons_append, mapM_folded?_term, ih, Option.map_map]
    rfl

/-- A run is over where no field is ahead, and the short words behind it are kept. -/
theorem IsCut.exists_close {run filler : List Term} {ss : List Stretch} (h : IsCut settings ss)
    (now : Instant) (hrun : IsFieldRun settings run) (hfiller : ∀ t ∈ filler, isFiller settings t = true)
    (hends : NoFieldAhead settings (allTerms ss)) :
    ∃ ss', IsCut settings ss' ∧ allTerms ss' = run ++ (filler ++ allTerms ss) ∧
      ((DateRun.ofTerms run filler).terms? now).bind (fun us => (ss.mapM (folded? now)).map (us ++ ·)) =
        ss'.mapM (folded? now) := by
  have hplain : ∀ t ∈ filler, t.field? = none := fun t ht => field?_eq_none_of_isFiller (hfiller t ht)
  have hterms := allTerms_terms_append filler ss
  refine ⟨.run run :: (filler.map .term ++ ss), .run hrun ?_ (h.append_left hplain), ?_, ?_⟩
  · rw [hterms]
    exact hends.append_left hplain
  · rw [allTerms_run, hterms]
  · rw [List.mapM_cons, mapM_folded?_terms_append, DateRun.terms?, DateRun.ofTerms, folded?]
    cases (lastFields run).moment? now with
    | none => rfl
    | some m =>
      cases ss.mapM (folded? now) with
      | none => rfl
      | some us => rfl

/-- Folding follows a cut of the list, or of the list behind what is open. -/
theorem exists_isCut_foldDatesAfter? (settings : Settings) (now : Instant) (ts : List Term) :
    (∃ ss, IsCut settings ss ∧ allTerms ss = ts ∧
      foldDatesAfter? settings now none ts = ss.mapM (folded? now)) ∧
    ∀ run filler, IsFieldRun settings run → (∀ t ∈ filler, isFiller settings t = true) →
      ∃ ss, IsCut settings ss ∧ allTerms ss = run ++ (filler ++ ts) ∧
        foldDatesAfter? settings now (some (.ofTerms run filler)) ts = ss.mapM (folded? now) := by
  induction ts with
  | nil =>
    refine ⟨⟨[], .nil, rfl, rfl⟩, fun run filler hrun hfiller => ?_⟩
    obtain ⟨ss, hss, hterms, hfolded⟩ := IsCut.nil.exists_close now hrun hfiller noFieldAhead_nil
    refine ⟨ss, hss, hterms, ?_⟩
    rw [foldDatesAfter?, ← hfolded]
    simp
  | cons t ts ih =>
    obtain ⟨⟨closed, hclosed, hterms, hfolded⟩, hopen⟩ := ih
    cases hfield : t.field? with
    | some e =>
      obtain ⟨p, f⟩ := e
      have ht : t.field?.isSome = true := by simp [hfield]
      refine ⟨?_, fun run filler hrun hfiller => ?_⟩
      · obtain ⟨ss, hss, hterms, hfolded⟩ := hopen [t] [] (isFieldRun_singleton ht) (by simp)
        refine ⟨ss, hss, hterms, ?_⟩
        rw [foldDatesAfter?, hfield, ← hfolded, ← DateRun.start_eq_ofTerms hfield]
      · obtain ⟨ss, hss, hterms, hfolded⟩ := hopen _ [] (hrun.append hfiller ht) (by simp)
        refine ⟨ss, hss, by simpa using hterms, ?_⟩
        have hplain : ∀ u ∈ filler, u.field? = none :=
          fun u hu => field?_eq_none_of_isFiller (hfiller u hu)
        rw [foldDatesAfter?, hfield, ← hfolded, ← DateRun.add_ofTerms hplain hfield]
    | none =>
      have hplain : IsCut settings (.term t :: closed) := .term hfield hclosed
      refine ⟨⟨_, hplain, by rw [allTerms_term, hterms], ?_⟩, fun run filler hrun hfiller => ?_⟩
      · rw [foldDatesAfter?, hfield, hfolded, mapM_folded?_term]
      · by_cases hword : isFiller settings t = true
        · obtain ⟨ss, hss, hterms, hfolded⟩ := hopen run (filler ++ [t]) hrun
            (List.forall_mem_append.2 ⟨hfiller, List.forall_mem_singleton.2 hword⟩)
          refine ⟨ss, hss, by simpa using hterms, ?_⟩
          rw [foldDatesAfter?, hfield, if_pos hword, ← hfolded]
          rfl
        · obtain ⟨ss, hss, hterms', hfolded'⟩ := hplain.exists_close now hrun hfiller
            (noFieldAhead_cons_of_not_isRunPart (by simp [IsRunPart, hfield, hword]) _)
          refine ⟨ss, hss, by rw [hterms', allTerms_term, hterms], ?_⟩
          rw [foldDatesAfter?, hfield, if_neg hword, hfolded, ← hfolded', mapM_folded?_term]
          simp only [Option.map_map]
          rfl

/-- A term of a folded list is a term of the list that is no field, or the moment of a run of its terms. -/
theorem mem_of_foldDates? {ts us : List Term} {u : Term} (h : foldDates? settings now ts = some us)
    (hu : u ∈ us) : u ∈ ts ∧ u.field? = none ∨
      ∃ run m, IsFieldRun settings run ∧ run ⊆ ts ∧ (lastFields run).moment? now = some m ∧
        u = .literal (Term.spanOf (fieldsOf run)) (.dateTime m) := by
  obtain ⟨ss, hss, rfl, hfolded⟩ := (exists_isCut_foldDatesAfter? settings now ts).1
  obtain ⟨s, hs, hu⟩ := exists_of_mem_mapM_folded? (hfolded.symm.trans h) hu
  have hterms : s.terms ⊆ allTerms ss := fun t ht => List.mem_flatMap.2 ⟨s, hs, ht⟩
  cases s with
  | term t =>
    obtain rfl := Option.some.inj hu
    exact Or.inl ⟨hterms List.mem_cons_self, hss.field?_eq_none_of_mem hs⟩
  | run run =>
    obtain ⟨m, hm, rfl⟩ := Option.map_eq_some_iff.1 hu
    exact Or.inr ⟨run, m, hss.isFieldRun_of_mem hs, hterms, hm, rfl⟩

/-- After folding dates all terms have what moments have and what the terms had that are no fields. -/
theorem foldDates?_keeps {P : Term → Prop}
    (hmoment : ∀ s (spec : DateSpec) m, spec.moment? now = some m → P (.literal s (.dateTime m)))
    {ts us : List Term} (hts : ∀ t ∈ ts, t.field? = none → P t) (h : foldDates? settings now ts = some us) :
    ∀ u ∈ us, P u := by
  intro u hu
  obtain ⟨hmem, hnone⟩ | ⟨run, m, -, -, hm, rfl⟩ := mem_of_foldDates? h hu
  · exact hts u hmem hnone
  · exact hmoment _ _ m hm

/-- Where there are no fields, nothing is folded. -/
theorem foldDates?_eq_self {ts : List Term} (h : ∀ t ∈ ts, t.field? = none) :
    foldDates? settings now ts = some ts := by
  rw [foldDates?]
  induction ts with
  | nil => rfl
  | cons t ts ih =>
    obtain ⟨ht, hts⟩ := List.forall_mem_cons.1 h
    rw [foldDatesAfter?, ht, ih hts, Option.map_some]

/-- A list is folded by putting one moment in the place of each of its longest runs, and its other terms
stay as they are. The moment is that of what the last field about each period says, and it covers the fields
of the run ; the list is not folded if there is no such moment. So a list without fields stays as it is, and
folding once more changes nothing. A field is a comparison of a number with a property `date://period/...`. -/
theorem foldDates_runs (settings : Settings) (now : Instant) (ts : List Term) :
    (∃ ss, allTerms ss = ts ∧ foldDates? settings now ts = ss.mapM (folded? now) ∧
      ∀ before run after, ts = before ++ (run ++ after) →
        (IsLongestFieldRun settings before run after ↔
          ∃ front back, ss = front ++ .run run :: back ∧ allTerms front = before ∧
            allTerms back = after)) ∧
    ((∀ t ∈ ts, t.field? = none) → foldDates? settings now ts = some ts) ∧
    (∀ us, foldDates? settings now ts = some us → ∀ later, foldDates? settings later us = some us) ∧
    ∀ t p f, Term.field? t = some (p, f) ↔
      ∃ s c v u n, t = .comparison s c v ∧ c.property = some u ∧ u.scheme? = some "date" ∧
        u.host? = some p.name ∧ v.integer? = some n ∧
        f = if u.path = "/offset" then .relative n else .absolute n := by
  refine ⟨?_, foldDates?_eq_self, fun us hus later => foldDates?_eq_self ?_,
    fun _ _ _ => Term.field?_eq_some_iff⟩
  · obtain ⟨ss, hss, rfl, hfolded⟩ := (exists_isCut_foldDatesAfter? settings now ts).1
    refine ⟨ss, rfl, hfolded, fun before run after hsplit => ⟨fun h => ?_, ?_⟩⟩
    · exact hss.exists_of_isLongestFieldRun h hsplit
    · rintro ⟨front, back, rfl, rfl, rfl⟩
      exact hss.isLongestFieldRun
  · exact foldDates?_keeps (fun _ _ _ _ => rfl) (fun _ _ h => h) hus

end DesktopSearch
