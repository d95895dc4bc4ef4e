import DesktopSearch.Proofs.Dates.Checked
import DesktopSearch.Proofs.Parser.Draft
import DesktopSearch.Proofs.Parser.Settled
import DesktopSearch.Proofs.Reading.Checked

/-!
# Checked parsing

`Checked.parse` reads a text like `parse?` does, with every sum, difference and opposite of integers
checked : in the readings, while dates are folded, and in fusion. It comes to the same as `parse?` for every
text, however large the numbers are that were typed, and wherever they are counted from. So there is one
reason only for which a text is not read (`Checked.parse_isSome_iff`) : the sum of the hours, the minutes
and the seconds by which a date is moved needs more than 64 bits. And there is such a text
(`Checked.parse_eq_none_farTime`).
-/

namespace DesktopSearch

namespace Checked

/-! ## Computations that are checked -/

/-- Tries one pattern of a phrasing. -/
def tryPattern (x : Surroundings) (cursor : Option Nat) (ph : Phrasing) (d : Draft) (pattern : String) :
    Option Draft :=
  match Pattern.ofText pattern with
  | .error _ => some d
  | .ok p => do
    let result ← rewrite p (apply x ph.reading) d.terms
    return {
      terms := result.terms
      proposals := Proposal.addNew d.proposals (Draft.newProposals ph p cursor result.trials)
      inquiries := d.inquiries ++ result.trials.filterMap (Draft.inquiryOf? ph.reading) }

/-- Tries all patterns of a phrasing. -/
def tryPhrasing (x : Surroundings) (cursor : Option Nat) (d : Draft) (ph : Phrasing) : Option Draft :=
  ph.patterns.foldlM (tryPattern x cursor ph) d

/-- Tries all phrasings, with dates folded in between. -/
def tryAll (x : Surroundings) (now : Instant) (cursor : Option Nat) (d : Draft) : Option Draft := do
  let d ← (Phrasing.ofDates x.flags).foldlM (tryPhrasing x cursor) d
  let terms ← foldDates x.settings now d.terms
  Phrasing.afterDates.foldlM (tryPhrasing x cursor) { d with terms }

/-- Reads a text as a query, as seen from now and with the cursor at a place of the text. -/
def parse (x : Surroundings) (now : Instant) (cursor : Option Nat) (text : String) : Option Parsed := do
  let d ← tryAll x now cursor ⟨tokenize x.settings text, [], []⟩
  let term ← fuse x.settings x.flags d.terms
  return ⟨.ofTerm term, d.proposals, d.inquiries⟩

/-! ## Phrasings are not given up -/

/-- A fold is not given up if none of its steps is, as long as they keep a property. -/
theorem foldlM_eq_some {α β : Type} {P : β → Prop} {f? : β → α → Option β} {f : β → α → β}
    {as : List α} (h : ∀ b, P b → ∀ a ∈ as, f? b a = some (f b a) ∧ P (f b a)) {b : β} (hb : P b) :
    as.foldlM f? b = some (as.foldl f b) ∧ P (as.foldl f b) := by
  induction as generalizing b with
  | nil => exact ⟨rfl, hb⟩
  | cons a as ih =>
    obtain ⟨ha, hnext⟩ := h b hb a List.mem_cons_self
    rw [List.foldlM_cons, ha, List.foldl_cons]
    exact ih (fun b hb a ha => h b hb a (List.mem_cons_of_mem _ ha)) hnext

variable {P : Term → Prop} {x : Surroundings} {cursor : Option Nat} {d : Draft} {ph : Phrasing}

theorem tryPattern_eq (hspan : IgnoresSpans P) (hkeeps : Keeps P (ph.reading.apply x))
    (hfollows : Follows P (apply x ph.reading) (ph.reading.apply x)) (hd : ∀ t ∈ d.terms, P t)
    (pattern : String) : tryPattern x cursor ph d pattern = some (d.tryPattern x cursor ph pattern) := by
  rw [tryPattern, Draft.tryPattern]
  cases Pattern.ofText pattern with
  | error _ => rfl
  | ok p =>
    dsimp only
    rw [rewrite_eq hfollows hspan hkeeps hd]
    rfl

/-- Phrasings are tried as ever, and keep a property, if their readings keep it and are not given up where it
holds. -/
theorem tryPhrasings_eq (cursor : Option Nat) (hspan : IgnoresSpans P) {phs : List Phrasing}
    (hphs : ∀ ph ∈ phs, Keeps P (ph.reading.apply x) ∧ Follows P (apply x ph.reading) (ph.reading.apply x))
    (hd : ∀ t ∈ d.terms, P t) :
    phs.foldlM (tryPhrasing x cursor) d = some (phs.foldl (Draft.tryPhrasing x cursor) d) ∧
      ∀ t ∈ (phs.foldl (Draft.tryPhrasing x cursor) d).terms, P t := by
  refine foldlM_eq_some (P := fun d : Draft => ∀ t ∈ d.terms, P t) (fun d hd ph hph => ?_) hd
  obtain ⟨hkeeps, hfollows⟩ := hphs ph hph
  refine foldlM_eq_some (P := fun d : Draft => ∀ t ∈ d.terms, P t) (fun d hd pattern _ => ?_) hd
  exact ⟨tryPattern_eq hspan hkeeps hfollows hd pattern, Draft.tryPattern_keeps hspan hkeeps hd pattern⟩

/-! ## Texts -/

theorem small_ignoresSpans : IgnoresSpans Term.Small := fun _ s h => h.withSpan s

theorem plainFits_ignoresSpans : IgnoresSpans PlainFits := by
  intro t s h
  cases t <;> exact h

/-- Nothing but the folding of dates may be given up while phrasings are tried, and the terms of the
finished draft are no larger than they may be. -/
theorem tryAll_eq (h : x.settings.NamesFit) (now : Instant) (cursor : Option Nat)
    (hd : ∀ t ∈ d.terms, t.Small) :
    tryAll x now cursor d = d.tryAll? x now cursor ∧
      ∀ e, d.tryAll? x now cursor = some e → ∀ t ∈ e.terms, PlainFits t := by
  have hbefore : ∀ ph ∈ Phrasing.ofDates x.flags, Keeps Term.Small (ph.reading.apply x) ∧
      Follows Term.Small (apply x ph.reading) (ph.reading.apply x) := by
    intro ph hph
    have hdates := Phrasing.isBeforeDates_of_mem_ofDates hph
    have hfixed := Phrasing.fixesSmall_of_mem_ofDates hph
    exact ⟨Reading.keeps_small h hdates hfixed, follows_apply h hdates hfixed⟩
  have hafter : ∀ ph ∈ Phrasing.afterDates, Keeps PlainFits (ph.reading.apply x) ∧
      Follows PlainFits (apply x ph.reading) (ph.reading.apply x) := by
    intro ph hph
    have hnot := Phrasing.not_isBeforeDates_of_mem_afterDates hph
    exact ⟨keeps_plainFits x hnot, follows_apply_afterDates x hnot⟩
  have hmoment (s : Span) (m : Moment) : PlainFits (.literal s (.dateTime m)) := by
    intro n hn
    simp [Term.integer?, Term.literal?, Literal.integer?] at hn
  obtain ⟨hread, hsmall⟩ := tryPhrasings_eq cursor small_ignoresSpans hbefore hd
  rw [tryAll, hread, Draft.tryAll?, Draft.foldDates?]
  generalize (Phrasing.ofDates x.flags).foldl (Draft.tryPhrasing x cursor) d = read at hsmall ⊢
  have hfold := foldDates_eq x.settings now fun t ht p f hf => (hsmall t ht).fits_field hf
  cases hts : DesktopSearch.foldDates? x.settings now read.terms with
  | none => simp [hfold, hts]
  | some ts =>
    have hplain := foldDates?_keeps (fun s _ m _ => hmoment s m)
      (fun t ht _ => plainFits_of_small (hsmall t ht)) hts
    obtain ⟨hfinish, hfinished⟩ := tryPhrasings_eq cursor plainFits_ignoresSpans hafter
      (d := { read with terms := ts }) hplain
    simp only [Option.bind_eq_bind, Option.bind_some, hfold, hts, hfinish, Option.map_some, Option.some_inj,
      forall_eq', true_and]
    exact hfinished

theorem parse_eq (h : x.settings.NamesFit) (now : Instant) (cursor : Option Nat) (text : String) :
    parse x now cursor text = parse? x now cursor text := by
  have htokens : ∀ t ∈ tokenize x.settings text, t.Small := by
    intro t ht
    obtain ⟨s, word, rfl⟩ := exists_of_mem_tokenize ht
    exact Term.small_string s word
  obtain ⟨hall, hplain⟩ := tryAll_eq h now cursor (d := ⟨tokenize x.settings text, [], []⟩) htokens
  rw [parse, hall, parse?]
  cases hd : Draft.tryAll? x now cursor ⟨tokenize x.settings text, [], []⟩ with
  | none => rfl
  | some d =>
    rw [Option.bind_eq_bind, Option.bind_some, fuse_eq (hplain d hd)]
    rfl

/-- Reading a text within 64 bits is reading it, and a text is read exactly if the sums of the hours,
minutes and seconds by which its dates are moved have 64 bits. -/
theorem parse_isSome_iff (x : Surroundings) (h : x.settings.NamesFit) (now : Instant) (cursor : Option Nat)
    (text : String) :
    parse x now cursor text = parse? x now cursor text ∧
      ((parse? x now cursor text).isSome = true ↔ ∀ s ∈ dateSpecs x cursor text, s.TimeShiftFits) :=
  ⟨parse_eq h now cursor text, parse?_isSome_iff x now cursor text⟩

/-- Two hours and a half are no trouble. -/
theorem parse_isSome_hours :
    let x : Surroundings := ⟨.english, {}, {}⟩
    let now := Instant.atSecond
      ⟨2013, 6, 5, by decide, by decide, by decide, by decide, by decide, by decide⟩ 37230
    let text := "in 2 hours in 30 minutes"
    x.settings.NamesFit ∧ (dateSpecs x none text).length = 1 ∧
      parse x now none text = parse? x now none text ∧ (parse? x now none text).isSome = true := by
  intro x now text
  have hnames : x.settings.NamesFit := ⟨⟨by decide, by decide⟩, by decide, by decide⟩
  have hspecs : (dateSpecs x none text).length = 1 ∧ ∀ s ∈ dateSpecs x none text, s.TimeShiftFits := by
    decide +kernel
  obtain ⟨hchecked, hread⟩ := parse_isSome_iff x hnames now none text
  exact ⟨hnames, hspecs.1, hchecked, hread.2 hspecs.2⟩

/-- If hours and minutes are the largest integer each, their sum is too large, and the text is not read. -/
theorem parse_eq_none_farTime :
    let x : Surroundings := ⟨.english, {}, {}⟩
    let now := Instant.atSecond
      ⟨2013, 6, 5, by decide, by decide, by decide, by decide, by decide, by decide⟩ 37230
    let text := "in 9223372036854775807 hours in 9223372036854775807 minutes"
    parse x now none text = none ∧ parse? x now none text = none := by
  intro x now text
  have hread : (parse x now none text).isNone = true ∧ (parse? x now none text).isNone = true := by
    decide +kernel
  exact ⟨Option.isNone_iff_eq_none.1 hread.1, Option.isNone_iff_eq_none.1 hread.2⟩

end Checked

end DesktopSearch
