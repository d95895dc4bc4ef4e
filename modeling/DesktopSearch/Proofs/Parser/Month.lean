import DesktopSearch.Proofs.Dates.Run
import DesktopSearch.Proofs.Parser.Ending
import DesktopSearch.Proofs.Pattern.Captured
import DesktopSearch.Proofs.Reading.Small
import Mathlib.Data.List.Forall2

/-!
# Where months come from

The phrasings of written dates turn what they capture into absolute fields. A month among them is read from
the second slot only (`Reading.months_readWrittenDate`) : from an integer if months are numeric, else from a
field about a month, whose number is taken whichever way the field counts. So the months of a list that has
been rewritten come from different terms of the list, in the same order (`Phrasing.months_tryPhrasing`), and
one that was relative to now may have become a month of the calendar (`Phrasing.reads_relative_month`).
-/

namespace DesktopSearch

/-! ## Fields about months -/

namespace Term

variable {t : Term} {p : Period} {n : Int}

theorem field?_withSpan (t : Term) (s : Span) : (t.withSpan s).field? = t.field? := by
  cases t <;> rfl

theorem field?_absoluteField (p : Period) (n : Int) :
    (absoluteField p n).field? = some (p, .absolute n) := by
  have hscheme : (fieldProperty p false).scheme? = some "date" := by cases p <;> decide +kernel
  have hhost : (fieldProperty p false).host? = some p.name := by cases p <;> decide +kernel
  have hpath : (fieldProperty p false).path ≠ "/offset" := by cases p <;> decide +kernel
  exact field?_eq_some_iff.2 ⟨_, _, _, _, n, rfl, rfl, hscheme, hhost, rfl, (if_neg hpath).symm⟩

/-- A field has a number, whichever way it counts. -/
theorem fieldNumber?_eq_some_iff : t.fieldNumber? p = some n ↔
    t.field? = some (p, .absolute n) ∨ t.field? = some (p, .relative n) := by
  constructor
  · intro h
    obtain ⟨⟨u, m⟩, hparts, h⟩ := Option.bind_eq_some_iff.1 h
    obtain ⟨hhost, h⟩ := Option.ite_none_right_eq_some.1 h
    obtain rfl : m = n := Option.some.inj h
    obtain ⟨s, c, v, rfl, hproperty, hscheme, hnumber⟩ := fieldParts?_eq_some_iff.1 hparts
    have hfield := field?_eq_some_iff.2
      ⟨s, c, v, u, m, rfl, hproperty, hscheme, hhost, hnumber, rfl⟩
    split at hfield
    · exact Or.inr hfield
    · exact Or.inl hfield
  · intro h
    have hparts : ∃ u, t.fieldParts? = some (u, n) ∧ u.host? = some p.name := by
      rcases h with h | h
      all_goals
        obtain ⟨s, c, v, u, m, rfl, hproperty, hscheme, hhost, hnumber, hf⟩ :=
          field?_eq_some_iff.1 h
        obtain rfl : n = m := by split at hf <;> cases hf; all_goals rfl
        exact ⟨u, fieldParts?_eq_some_iff.2 ⟨s, c, v, rfl, hproperty, hscheme, hnumber⟩, hhost⟩
    obtain ⟨u, hparts, hhost⟩ := hparts
    simp [fieldNumber?, hparts, hhost]

theorem field?_of_integer? (h : t.integer? = some n) : t.field? = none := by
  obtain ⟨s, rfl⟩ := Reading.exists_literal_of_integer? h
  rfl

/-- Whether the term is a field about a month. -/
def isMonth (t : Term) : Bool := t.field?.any (·.1 == .month)

/-- Whether a month may be read from the term. -/
def tellsMonth (t : Term) : Bool := t.isMonth || t.integer?.isSome

theorem isMonth_withSpan (t : Term) (s : Span) : (t.withSpan s).isMonth = t.isMonth := by
  rw [isMonth, isMonth, field?_withSpan]

theorem isMonth_absoluteField (p : Period) (n : Int) :
    (absoluteField p n).isMonth = (p == .month) := by
  rw [isMonth, field?_absoluteField]
  rfl

end Term

/-! ## Readings -/

namespace Reading

/-- Whether a reading takes integers for months. -/
def numericMonths : Reading → Bool
  | writtenDate _ numericMonths => numericMonths
  | _ => false

/-- The term `t` is an absolute month that is read from the term `u`. -/
inductive ReadsMonth (numericMonths : Bool) (t u : Term) : Prop
  | number (n : Int) (month : t.field? = some (.month, .absolute n))
    (numeric : numericMonths = true) (source : u.integer? = some n) (low : 1 ≤ n) (high : n ≤ 12)
  | absolute (n : Int) (month : t.field? = some (.month, .absolute n))
    (named : numericMonths = false) (source : u.field? = some (.month, .absolute n)) (low : 1 ≤ n)
    (high : n ≤ 12)
  | relative (n : Int) (month : t.field? = some (.month, .absolute n))
    (named : numericMonths = false) (source : u.field? = some (.month, .relative n)) (low : 1 ≤ n)
    (high : n ≤ 12)

variable {numericMonths afternoon : Bool} {t u v : Term} {p : Pattern} {ts us cs : List Term}

namespace ReadsMonth

theorem exists_absolute (h : ReadsMonth numericMonths t u) :
    ∃ n, t.field? = some (.month, .absolute n) := by
  cases h with
  | number n month | absolute n month | relative n month => exact ⟨n, month⟩

theorem withSpan (h : ReadsMonth numericMonths t u) (s : Span) :
    ReadsMonth numericMonths (t.withSpan s) u := by
  have hfield := Term.field?_withSpan t s
  cases h with
  | number n month numeric source low high =>
    exact .number n (hfield.trans month) numeric source low high
  | absolute n month named source low high =>
    exact .absolute n (hfield.trans month) named source low high
  | relative n month named source low high =>
    exact .relative n (hfield.trans month) named source low high

/-- A month that is read from a month that was read is one that was read. -/
theorem trans (h : ReadsMonth numericMonths t u) (h' : ReadsMonth numericMonths u v) :
    ReadsMonth numericMonths t v := by
  obtain ⟨m, hm⟩ := h'.exists_absolute
  cases h with
  | number n month numeric source low high =>
    simp [Term.field?_of_integer? source] at hm
  | absolute n month named source low high =>
    cases h' with
    | number _ _ numeric => simp [numeric] at named
    | absolute k hk _ source' _ _ =>
      obtain rfl : n = k := by simpa [source] using hk
      exact .absolute n month named source' low high
    | relative k hk _ source' _ _ =>
      obtain rfl : n = k := by simpa [source] using hk
      exact .relative n month named source' low high
  | relative n month named source low high => simp [source] at hm

/-- Months are read from fields about months and from integers. -/
theorem tellsMonth (h : ReadsMonth numericMonths t u) : u.tellsMonth = true := by
  cases h with
  | number n month numeric source => simp [Term.tellsMonth, source]
  | absolute n month named source | relative n month named source =>
    simp [Term.tellsMonth, Term.isMonth, source]

end ReadsMonth

/-- The value of a month's slot makes a month that is read from it. -/
theorem readsMonth_of_slotValue? {n : Int} (h : slotValue? afternoon numericMonths .month t = some n)
    (s : Span) : ReadsMonth numericMonths ((Term.absoluteField .month n).withSpan s) t := by
  refine ReadsMonth.withSpan ?_ s
  have hmonth := Term.field?_absoluteField .month n
  rw [slotValue?] at h
  split at h
  · rename_i hnumeric
    obtain ⟨hn, -⟩ := Option.filter_eq_some_iff.1 h
    obtain ⟨hlow, hhigh⟩ := bounds_of_inRange? h
    exact .number n hmonth hnumeric hn hlow hhigh
  · rename_i hnamed
    obtain ⟨hn, hbounds⟩ := Option.filter_eq_some_iff.1 h
    have hnamed := Bool.eq_false_iff.2 hnamed
    obtain ⟨hlow, hhigh⟩ := Bool.and_eq_true_iff.1 hbounds
    rcases Term.fieldNumber?_eq_some_iff.1 hn with hn | hn
    · exact .absolute n hmonth hnamed hn (of_decide_eq_true hlow) (of_decide_eq_true hhigh)
    · exact .relative n hmonth hnamed hn (of_decide_eq_true hlow) (of_decide_eq_true hhigh)

/-- The months among the fields of some slots are read from the months' slots. -/
theorem months_of_slotFields? {slots : List (Period × Term)} {fields : List Term}
    (h : slotFields? afternoon numericMonths slots = some fields) :
    List.SublistForall₂ (ReadsMonth numericMonths) (fields.filter Term.isMonth)
      ((slots.filter (·.1 == .month)).map Prod.snd) := by
  induction slots generalizing fields with
  | nil =>
    obtain rfl := Option.some.inj h
    exact .nil
  | cons slot slots ih =>
    obtain ⟨p, t⟩ := slot
    rw [slotFields?] at h
    split at h
    · by_cases hp : p = .month
      · simpa [hp] using (ih h).cons_right
      · simpa [hp] using ih h
    · obtain ⟨n, hn, h⟩ := Option.bind_eq_some_iff.1 h
      obtain ⟨rest, hrest, h⟩ := Option.bind_eq_some_iff.1 h
      obtain rfl := Option.some.inj h
      by_cases hp : p = .month
      · subst hp
        simpa [Term.isMonth_withSpan, Term.isMonth_absoluteField] using
          (ih hrest).cons (readsMonth_of_slotValue? hn t.span)
      · simpa [Term.isMonth_withSpan, Term.isMonth_absoluteField, hp] using ih hrest

/-- The second capture is the one for the month. -/
theorem slotPeriods_months (cs : List Term) :
    ((slotPeriods.zip cs).filter (·.1 == .month)).map Prod.snd = cs[1]?.toList := by
  match cs with
  | [] => rfl
  | [_] => rfl
  | a :: b :: rest =>
    have hrest : (([.day, .dayOfWeek, .hour, .minute, .second] : List Period).zip rest).filter
        (·.1 == .month) = [] := by
      refine List.filter_eq_nil_iff.2 fun e he => ?_
      have hperiod := (List.of_mem_zip (a := e.1) (b := e.2) he).1
      intro hmonth
      rw [beq_iff_eq.1 hmonth] at hperiod
      simp at hperiod
    simp [slotPeriods, hrest]

/-- A written date has one month at most, which is read from the second capture. -/
theorem months_readWrittenDate (afternoon numericMonths : Bool) (cs : List Term) :
    List.SublistForall₂ (ReadsMonth numericMonths)
      ((readWrittenDate afternoon numericMonths cs).filter Term.isMonth) cs[1]?.toList := by
  rw [readWrittenDate]
  cases hfields : slotFields? afternoon numericMonths (slotPeriods.zip cs) with
  | none => exact .nil
  | some fields =>
    rw [← slotPeriods_months]
    exact months_of_slotFields? hfields

/-! ## Rewriting -/

/-- The term `t` is the term `u`, or an absolute month that is read from it. -/
def ComesFrom (numericMonths : Bool) (t u : Term) : Prop := t = u ∨ ReadsMonth numericMonths t u

instance : Std.Refl (ComesFrom numericMonths) := ⟨fun _ => Or.inl rfl⟩

instance : IsTrans Term (ComesFrom numericMonths) where
  trans t u v h h' := by
    rcases h with rfl | h
    · exact h'
    · rcases h' with rfl | h'
      · exact Or.inr h
      · exact Or.inr (h.trans h')

theorem sublistForall₂_append {α β : Type*} {R : α → β → Prop} {as as' : List α} {bs bs' : List β}
    (h : List.SublistForall₂ R as bs) (h' : List.SublistForall₂ R as' bs') :
    List.SublistForall₂ R (as ++ as') (bs ++ bs') := by
  rw [List.sublistForall₂_iff] at h h' ⊢
  obtain ⟨cs, hcs, hbs⟩ := h
  obtain ⟨cs', hcs', hbs'⟩ := h'
  exact ⟨cs ++ cs', List.rel_append hcs hcs', hbs.append hbs'⟩

/-- What may tell a month in `us` comes from different terms of `ts`, in the same order. -/
def MonthsFrom (numericMonths : Bool) (us ts : List Term) : Prop :=
  List.SublistForall₂ (ComesFrom numericMonths) (us.filter Term.tellsMonth) (ts.filter Term.tellsMonth)

namespace MonthsFrom

theorem refl (numericMonths : Bool) (ts : List Term) : MonthsFrom numericMonths ts ts :=
  List.SublistForall₂.is_refl.refl _

theorem trans (h : MonthsFrom numericMonths cs us) (h' : MonthsFrom numericMonths us ts) :
    MonthsFrom numericMonths cs ts :=
  List.SublistForall₂.is_trans.trans _ _ _ h h'

theorem append {us' ts' : List Term} (h : MonthsFrom numericMonths us ts)
    (h' : MonthsFrom numericMonths us' ts') : MonthsFrom numericMonths (us ++ us') (ts ++ ts') := by
  rw [MonthsFrom, List.filter_append, List.filter_append]
  exact sublistForall₂_append h h'

/-- The months among them come from different terms as well. -/
theorem months (h : MonthsFrom numericMonths us ts) :
    List.SublistForall₂ (ComesFrom numericMonths) (us.filter Term.isMonth) ts := by
  have hmonths : (us.filter Term.isMonth).Sublist (us.filter Term.tellsMonth) :=
    List.monotone_filter_right us fun t ht => by simp [Term.tellsMonth, ht]
  have hterms : (ts.filter Term.tellsMonth).Sublist ts := List.filter_sublist
  exact IsTrans.trans _ _ _ hmonths.sublistForall₂ (IsTrans.trans _ _ _ h hterms.sublistForall₂)

end MonthsFrom

/-- The months that take the place of a window are read from the same terms. -/
theorem months_placed (window : List Term) {new : List Term}
    (h : List.SublistForall₂ (ReadsMonth numericMonths) (new.filter Term.isMonth) us) :
    List.SublistForall₂ (ReadsMonth numericMonths) ((placed window new).filter Term.isMonth) us := by
  unfold placed
  split
  · rename_i t
    have hmap : [t.withSpan (Term.spanOf window)].filter Term.isMonth =
        ([t].filter Term.isMonth).map (·.withSpan (Term.spanOf window)) := by
      by_cases ht : t.isMonth = true <;> simp [Term.isMonth_withSpan, ht]
    rw [List.sublistForall₂_iff] at h
    obtain ⟨vs, hvs, hsub⟩ := h
    rw [hmap, List.sublistForall₂_map_left_iff, List.sublistForall₂_iff]
    exact ⟨vs, hvs.imp fun _ _ hread => hread.withSpan _, hsub⟩
  · exact h

theorem filter_tellsMonth_placed {window new : List Term} (h : ∀ t ∈ new, t.isComparison = true) :
    (placed window new).filter Term.tellsMonth = (placed window new).filter Term.isMonth := by
  have hplaced : ∀ t ∈ placed window new, t.isComparison = true := by
    refine placed_keeps (fun t s ht => ?_) h
    cases t <;> first | rfl | contradiction
  refine List.filter_congr fun t ht => ?_
  have hcomparison := hplaced t ht
  cases t with
  | comparison s c value => simp [Term.tellsMonth, Term.integer?, Term.literal?]
  | _ => contradiction

/-- A month that is read from the second capture is read from a term of the window. -/
theorem sublist_window {window after months sources : List Term} {taken : Taken}
    (hruns : p.parts.countP Part.isRun ≤ 1) (hmatch : p.matchAt (window ++ after) = .matched taken)
    (hlen : taken.length = window.length) (hreads : List.Forall₂ (ReadsMonth numericMonths) months sources)
    (hsources : sources.Sublist (taken.captures p.slotCount)[1]?.toList) :
    sources.Sublist (window.filter Term.tellsMonth) := by
  cases hsecond : (taken.captures p.slotCount)[1]? with
  | none =>
    rw [hsecond] at hsources
    obtain rfl := List.sublist_nil.1 hsources
    exact List.nil_sublist _
  | some u =>
    rw [hsecond] at hsources
    obtain rfl | rfl := List.sublist_singleton.1 hsources
    · exact List.nil_sublist _
    · obtain ⟨t, _, hread, -, -⟩ := List.forall₂_cons_right_iff.1 hreads
      have hu : u ∈ window ∨ u = .nothing :=
        p.mem_window_of_mem_captures hruns hmatch hlen (List.mem_of_getElem? hsecond)
      refine List.singleton_sublist.2 (List.mem_filter.2 ⟨hu.resolve_right ?_, hread.tellsMonth⟩)
      rintro rfl
      exact absurd hread.tellsMonth (by decide)

/-- A step of rewriting makes one month at most, and from a term of the window. -/
theorem monthsFrom_of_rewritesWindow (hruns : p.parts.countP Part.isRun ≤ 1)
    (h : RewritesWindow p (readWrittenDate afternoon numericMonths) ts cs us) :
    MonthsFrom numericMonths us ts := by
  obtain ⟨-, before, window, after, taken, rfl, hmatch, hlen, rfl, rfl⟩ := h
  have hwindow : MonthsFrom numericMonths
      (placed window (readWrittenDate afternoon numericMonths (taken.captures p.slotCount))) window := by
    obtain ⟨sources, hreads, hsources⟩ :=
      List.sublistForall₂_iff.1 (months_placed window (months_readWrittenDate afternoon numericMonths _))
    rw [MonthsFrom, filter_tellsMonth_placed fun t ht => isComparison_of_mem_readWrittenDate ht]
    exact List.sublistForall₂_iff.2 ⟨sources, hreads.imp fun _ _ => Or.inr,
      sublist_window hruns hmatch hlen hreads hsources⟩
  exact (MonthsFrom.refl _ before).append (hwindow.append (MonthsFrom.refl _ after))

theorem monthsFrom_of_capturing {css : List (List Term)}
    (h : Capturing (fun ts _ us => MonthsFrom numericMonths us ts) ts css us) :
    MonthsFrom numericMonths us ts := by
  induction h with
  | refl ts => exact .refl _ ts
  | head first _ ih => exact ih.trans first

theorem monthsFrom_rewrite (hruns : p.parts.countP Part.isRun ≤ 1) (ts : List Term) :
    MonthsFrom numericMonths (rewrite p (readWrittenDate afternoon numericMonths) ts).terms ts :=
  monthsFrom_of_capturing
    (rewriteWithin_capturing (fun h => monthsFrom_of_rewritesWindow hruns h) maxRewrites ts)

end Reading

/-! ## Phrasings -/

namespace Phrasing

open Reading

variable {x : Surroundings} {cursor : Option Nat} {d : Draft} {ph : Phrasing}

theorem exists_reading_of_mem_ofWrittenDates (h : ph ∈ ofWrittenDates) :
    ∃ afternoon numericMonths, ph.reading = .writtenDate afternoon numericMonths := by
  have hall : ∀ ph ∈ ofWrittenDates, ∃ afternoon numericMonths,
      ph.reading = .writtenDate afternoon numericMonths := by
    simp [ofWrittenDates, proposed]
  exact hall ph h

theorem monthsFrom_tryPattern (h : ph ∈ ofWrittenDates) {pattern : String}
    (hpattern : pattern ∈ ph.patterns) :
    MonthsFrom ph.reading.numericMonths (d.tryPattern x cursor ph pattern).terms d.terms := by
  have hdates : ph ∈ ofDates x.flags ++ afterDates :=
    List.mem_append_left _ (List.mem_append_right _ h)
  obtain ⟨p, hp, hruns, -⟩ := exists_of_isFed (isFed_of_mem x.flags hdates) hpattern
  obtain ⟨afternoon, numericMonths, hreading⟩ := exists_reading_of_mem_ofWrittenDates h
  rw [Draft.tryPattern, hp, hreading]
  exact monthsFrom_rewrite hruns d.terms

/-- After a phrasing of written dates has been tried, the months of a draft come from different terms of it,
in the same order : a month is one of the draft, or is read from an integer if months are numeric, else from
a field about a month. -/
theorem months_tryPhrasing (h : ph ∈ ofWrittenDates) (x : Surroundings) (cursor : Option Nat)
    (d : Draft) :
    List.SublistForall₂ (ComesFrom ph.reading.numericMonths)
      ((d.tryPhrasing x cursor ph).terms.filter Term.isMonth) d.terms := by
  have hterms : MonthsFrom ph.reading.numericMonths (d.tryPhrasing x cursor ph).terms d.terms :=
    List.foldlRecOn (motive := fun e : Draft => MonthsFrom ph.reading.numericMonths e.terms d.terms)
      ph.patterns _ (.refl _ d.terms) fun e he pattern hpattern => (monthsFrom_tryPattern h hpattern).trans he
  exact hterms.months

/-- The phrasing of dates with the name of a month. -/
def namedDates : Phrasing :=
  { reading := .writtenDate false false
    patterns := ["%3 of %2 %1", "%3 st|nd|rd|th %2 %1", "%3 st|nd|rd|th of %2 %1", "%3 of %2",
      "%3 st|nd|rd|th %2", "%3 st|nd|rd|th of %2", "%2 %3 st|nd|rd|th", "%2 %3", "%2 %1"] }

theorem namedDates_mem : namedDates ∈ ofWrittenDates := by
  simp [namedDates, ofWrittenDates]

/-- The month of "June 5" comes from its name. -/
theorem months_tryPhrasing_june :
    let d : Draft := ⟨[.absoluteField .month 6, .ofLiteral (.integer 5)], [], []⟩
    namedDates ∈ ofWrittenDates ∧
      (d.tryPhrasing ⟨.english, {}, {}⟩ none namedDates).terms.map Term.field? =
        [some (.month, .absolute 6), some (.day, .absolute 5)] ∧
      List.SublistForall₂ (ComesFrom false)
        ((d.tryPhrasing ⟨.english, {}, {}⟩ none namedDates).terms.filter Term.isMonth) d.terms := by
  intro d
  exact ⟨namedDates_mem, by decide +kernel, months_tryPhrasing namedDates_mem _ none d⟩

/-- Where months are named, the number of a relative one may become a month of the calendar : "5th of next
month" is read as the fifth of January. -/
theorem reads_relative_month :
    let d : Draft := ⟨[.ofLiteral (.integer 5), .ofLiteral (.string "th"), .ofLiteral (.string "of"),
      .relativeField .month 1], [], []⟩
    namedDates ∈ ofWrittenDates ∧ namedDates.reading.numericMonths = false ∧
      d.terms.map Term.field? = [none, none, none, some (.month, .relative 1)] ∧
      (d.tryPhrasing ⟨.english, {}, {}⟩ none namedDates).terms.map Term.field? =
        [some (.month, .absolute 1), some (.day, .absolute 5)] := by
  intro d
  exact ⟨namedDates_mem, rfl, by decide +kernel, by decide +kernel⟩

end Phrasing

end DesktopSearch
