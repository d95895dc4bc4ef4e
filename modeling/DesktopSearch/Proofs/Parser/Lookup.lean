import DesktopSearch.Proofs.Parser.Answer
import DesktopSearch.Proofs.Parser.Draft

/-!
# Labels are used where they are looked up

A text is read with a whole directory at hand, but of its lists only those count that an inquiry was made
about : with two directories that agree on these, everything comes out alike (`parse?_congr`). So the
inquiries of a text are all that it takes from a store. The lists are looked at by single readings, whose
inquiries are those of the matches that rewriting looks at (`rewrite_congr`).
-/

namespace DesktopSearch

/-- Two directories have the same lists for an inquiry. -/
def Directory.AgreeOn (d e : Directory) : Inquiry → Prop
  | .tags => d.tags = e.tags
  | .people => d.names = e.names ∧ d.addresses = e.addresses

/-! ## Readings -/

section Readings

variable {dom : Domain} {d e : Directory} {ts : List Term}

theorem Domain.find?_congr (h : ∀ i ∈ dom.inquiry?, d.AgreeOn e i) (label : String) :
    dom.find? d label = dom.find? e label := by
  unfold find?
  cases dom with
  | tag =>
    have htags : d.tags = e.tags := h .tags rfl
    simp only [htags]
  | contact =>
    obtain ⟨hnames, haddresses⟩ := h .people rfl
    simp only [hnames, haddresses]
  | address =>
    obtain ⟨hnames, haddresses⟩ := h .people rfl
    simp only [hnames, haddresses]
  | _ => rfl

/-- Only a word is looked up. -/
theorem Domain.convert?_congr {t : Term}
    (h : t.string?.isSome → ∀ i ∈ dom.inquiry?, d.AgreeOn e i) :
    dom.convert? d t = dom.convert? e t := by
  unfold convert?
  split
  · split
    any_goals rfl
    rw [find?_congr (h rfl)]
  · rfl

namespace Reading

theorem readProperty_congr (p : Uri) (h : ∀ i ∈ inquiry? dom ts, d.AgreeOn e i) :
    readProperty d p dom ts = readProperty e p dom ts := by
  unfold readProperty
  split
  · split
    · rename_i t ts v c hvalue
      rw [Domain.convert?_congr fun hword => ?_]
      simpa [inquiry?, hvalue, hword] using h
    · rfl
  · rfl

/-- A reading looks at no labels but those it asks for. -/
theorem apply_congr {x : Surroundings} {r : Reading}
    (h : ∀ i ∈ r.asks? ts, x.directory.AgreeOn e i) :
    r.apply x ts = r.apply { x with directory := e } ts := by
  cases r with
  | properties p dom => exact readProperty_congr p h
  | _ => rfl

end Reading

end Readings

/-! ## Rewriting -/

section Rewriting

variable {p : Pattern} {reader other : Reader}

theorem rewriteHere?_congr {ts : List Term}
    (h : ∀ cs, .matched cs ∈ trialHere? p ts → reader cs = other cs) :
    rewriteHere? p reader ts = rewriteHere? p other ts := by
  unfold rewriteHere?
  split
  · rename_i x hmatch
    have hhere : trialHere? p ts = some (.matched (x.captures p.slotCount)) := by
      unfold trialHere?
      rw [hmatch]
    rw [h _ hhere]
  · rfl

/-- Two readers that answer alike wherever a step looks take the same step. -/
theorem step?_congr : ∀ {ts : List Term},
    (∀ cs, .matched cs ∈ trials p reader ts → reader cs = other cs) →
      step? p reader ts = step? p other ts ∧ trials p reader ts = trials p other ts
  | [], _ => ⟨rfl, rfl⟩
  | t :: ts, h => by
    have hhere : rewriteHere? p reader (t :: ts) = rewriteHere? p other (t :: ts) := by
      refine rewriteHere?_congr fun cs hcs => h cs ?_
      unfold trials
      split
      · simpa using hcs
      · exact List.mem_append_left _ (by simpa using hcs)
    unfold step? trials
    rw [← hhere]
    cases hnew : rewriteHere? p reader (t :: ts) with
    | some new => exact ⟨rfl, rfl⟩
    | none =>
      have hlater : ∀ cs, .matched cs ∈ trials p reader ts → reader cs = other cs := by
        refine fun cs hcs => h cs ?_
        rw [trials, hnew]
        exact List.mem_append_right _ hcs
      obtain ⟨hstep, htrials⟩ := step?_congr hlater
      exact ⟨by simp only [hstep], by simp only [htrials, Option.isSome_none]⟩

theorem rewriteWithin_congr : ∀ (limit : Nat) {ts : List Term},
    (∀ cs, .matched cs ∈ (rewriteWithin p reader limit ts).trials → reader cs = other cs) →
      rewriteWithin p reader limit ts = rewriteWithin p other limit ts
  | 0, _, _ => rfl
  | limit + 1, ts, h => by
    have hfirst : ∀ cs, .matched cs ∈ trials p reader ts → reader cs = other cs := by
      refine fun cs hcs => h cs ?_
      unfold rewriteWithin
      split
      · exact hcs
      · exact List.mem_append_left _ hcs
    obtain ⟨hstep, htrials⟩ := step?_congr hfirst
    unfold rewriteWithin
    rw [← hstep, ← htrials]
    cases hnew : step? p reader ts with
    | none => rfl
    | some new =>
      have hlater : ∀ cs, .matched cs ∈ (rewriteWithin p reader limit new).trials →
          reader cs = other cs := by
        refine fun cs hcs => h cs ?_
        rw [rewriteWithin, hnew]
        exact List.mem_append_right _ hcs
      simp only [rewriteWithin_congr limit hlater]

/-- Two readers that answer alike to every match that rewriting looks at rewrite alike. -/
theorem rewrite_congr {ts : List Term}
    (h : ∀ cs, .matched cs ∈ (rewrite p reader ts).trials → reader cs = other cs) :
    rewrite p reader ts = rewrite p other ts :=
  rewriteWithin_congr maxRewrites h

end Rewriting

/-! ## Drafts -/

namespace Draft

variable {x : Surroundings} {e : Directory} {cursor : Option Nat} {ph : Phrasing} {d : Draft}

theorem tryPattern_congr {pattern : String}
    (h : ∀ i ∈ (tryPattern x cursor ph d pattern).inquiries, x.directory.AgreeOn e i) :
    tryPattern x cursor ph d pattern = tryPattern { x with directory := e } cursor ph d pattern := by
  unfold tryPattern at h ⊢
  split at h
  · rfl
  · rename_i p hp
    have hrewrite : rewrite p (ph.reading.apply x) d.terms =
        rewrite p (ph.reading.apply { x with directory := e }) d.terms := by
      refine rewrite_congr fun cs hcs => Reading.apply_congr fun i hi => h i ?_
      exact List.mem_append_right _ (List.mem_filterMap.2 ⟨_, hcs, hi⟩)
    rw [← hrewrite]

/-- No reading asks for anything before dates are folded. -/
theorem inquiryOf?_of_mem_ofDates {flags : ParserFlags} (h : ph ∈ Phrasing.ofDates flags) :
    inquiryOf? ph.reading = fun _ => none := by
  have hasks (ts : List Term) : ph.reading.asks? ts = none := by
    have hdates := Phrasing.isBeforeDates_of_mem_ofDates h
    cases hreading : ph.reading <;> simp_all [Reading.IsBeforeDates, Reading.asks?]
  funext trial
  cases trial with
  | matched captures => exact hasks captures
  | stopped _ => rfl

theorem subset_tryPattern (pattern : String) :
    d.inquiries ⊆ (tryPattern x cursor ph d pattern).inquiries := by
  unfold tryPattern
  split
  · exact List.Subset.refl _
  · exact List.subset_append_left _ _

/-- What one step of a fold does depends on the directory only by its inquiries, and these are never
forgotten; so it is for the whole fold. -/
theorem foldl_congr {α : Type} {f g : Draft → α → Draft}
    (hsubset : ∀ d a, d.inquiries ⊆ (f d a).inquiries)
    (hcongr : ∀ d a, (∀ i ∈ (f d a).inquiries, x.directory.AgreeOn e i) → f d a = g d a) :
    ∀ (as : List α) (d : Draft), d.inquiries ⊆ (as.foldl f d).inquiries ∧
      ((∀ i ∈ (as.foldl f d).inquiries, x.directory.AgreeOn e i) → as.foldl f d = as.foldl g d)
  | [], d => ⟨List.Subset.refl _, fun _ => rfl⟩
  | a :: as, d => by
    obtain ⟨hrest, heq⟩ := foldl_congr hsubset hcongr as (f d a)
    refine ⟨List.Subset.trans (hsubset d a) hrest, fun h => ?_⟩
    rw [List.foldl_cons, List.foldl_cons, ← hcongr d a fun i hi => h i (hrest hi)]
    exact heq h

theorem tryPhrasing_congr (d : Draft) (ph : Phrasing) :
    d.inquiries ⊆ (tryPhrasing x cursor d ph).inquiries ∧
      ((∀ i ∈ (tryPhrasing x cursor d ph).inquiries, x.directory.AgreeOn e i) →
        tryPhrasing x cursor d ph = tryPhrasing { x with directory := e } cursor d ph) :=
  foldl_congr (fun _ _ => subset_tryPattern _) (fun _ _ => tryPattern_congr) ph.patterns d

theorem tryPhrasings_congr (cursor : Option Nat) (phs : List Phrasing) (d : Draft) :
    d.inquiries ⊆ (phs.foldl (tryPhrasing x cursor) d).inquiries ∧
      ((∀ i ∈ (phs.foldl (tryPhrasing x cursor) d).inquiries, x.directory.AgreeOn e i) →
        phs.foldl (tryPhrasing x cursor) d =
          phs.foldl (tryPhrasing { x with directory := e } cursor) d) :=
  foldl_congr (fun d ph => (tryPhrasing_congr (e := e) d ph).1)
    (fun d ph => (tryPhrasing_congr d ph).2) phs d

/-- Nothing is asked before dates are folded. -/
theorem inquiries_ofDates (flags : ParserFlags) (cursor : Option Nat) (d : Draft) :
    ((Phrasing.ofDates flags).foldl (tryPhrasing x cursor) d).inquiries = d.inquiries := by
  refine List.foldlRecOn (motive := fun e : Draft => e.inquiries = d.inquiries) _ _ rfl
    fun e he ph hph => ?_
  refine List.foldlRecOn (motive := fun e : Draft => e.inquiries = d.inquiries) _ _ he
    fun e he pattern _ => ?_
  rw [tryPattern]
  split
  · exact he
  · simp [inquiryOf?_of_mem_ofDates hph, he]

theorem tryAll?_congr (now : Instant) (hd : d.inquiries = [])
    (h : ∀ f, tryAll? x now cursor d = some f → ∀ i ∈ f.inquiries, x.directory.AgreeOn e i) :
    tryAll? x now cursor d = tryAll? { x with directory := e } now cursor d := by
  have hdates := (tryPhrasings_congr (x := x) (e := e) cursor (Phrasing.ofDates x.flags) d).2 fun i hi => by
    rw [inquiries_ofDates, hd] at hi
    simp at hi
  rw [tryAll?, tryAll?, ← hdates]
  refine Option.map_congr fun dated hdated => ?_
  exact (tryPhrasings_congr cursor Phrasing.afterDates dated).2
    (h _ (tryAll?_eq_some_iff.2 ⟨dated, hdated, rfl⟩))

end Draft

/-- Reading a text looks at no labels but those it makes inquiries about. -/
theorem parse?_congr {x : Surroundings} {e : Directory} {now : Instant} {cursor : Option Nat}
    {text : String}
    (h : ∀ r, parse? x now cursor text = some r → ∀ i ∈ r.inquiries, x.directory.AgreeOn e i) :
    parse? x now cursor text = parse? { x with directory := e } now cursor text := by
  rw [parse?, parse?, Draft.tryAll?_congr (e := e) now rfl fun f hf =>
    h _ (Option.map_eq_some_iff.2 ⟨f, hf, rfl⟩)]
  rfl

end DesktopSearch
