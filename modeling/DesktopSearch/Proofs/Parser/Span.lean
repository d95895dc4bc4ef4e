import DesktopSearch.Parser.Basic
import DesktopSearch.Proofs.Fusion.Span
import DesktopSearch.Proofs.Pattern.View

/-!
# Spans and readings

A reading that `ForgetsSpans` reads terms alike wherever they stand. All readings do, apart from the two that
look at the places of the input : words are cut into pieces one behind the other, and the decimals of a number
are counted (`Reading.forgetsSpans_apply`). Dates are folded alike, too (`foldDates?_bare`), and so drafts of
the same bare terms stay drafts of the same bare terms (`Draft.tryPhrasings_map_bare`).
-/

namespace DesktopSearch

open Term

/-- A term without its spans has the value of its literal, so patterns match it alike. -/
theorem isView_bare : IsView bare := ⟨literal?_bare, rfl⟩

namespace Reading

variable {settings : Settings}

/-- Reading bare terms is reading terms, less the spans of the answer. -/
def ForgetsSpans (reader : Reader) : Prop := ∀ ts : List Term, reader (ts.map bare) = (reader ts).map bare

theorem forgetsSpans_readNumbers : ForgetsSpans (readNumbers settings) := by
  intro ts
  cases ts with
  | nil => rfl
  | cons t ts =>
    rw [List.map_cons, readNumbers, readNumbers, string?_bare]
    split <;> rfl

/-- An amount and its unit are told from the values of two terms. -/
theorem forgetsSpans_readFileSize : ForgetsSpans readFileSize := by
  intro ts
  match ts with
  | [] | [_] => rfl
  | amount :: unit :: ts =>
    rw [List.map_cons, List.map_cons, readFileSize, readFileSize, literal?_bare, string?_bare]
    split
    · dsimp only
      split
      · split <;> rfl
      · rfl
    · rfl

theorem forgetsSpans_readKinds : ForgetsSpans readKinds := by
  intro ts
  cases ts with
  | nil => rfl
  | cons t ts =>
    rw [List.map_cons, readKinds, readKinds, string?_bare]
    split <;> rfl

/-- The span of a term is taken over into the answer, where it does not count. -/
theorem forgetsSpans_readFileNames : ForgetsSpans readFileNames := by
  intro ts
  cases ts with
  | nil => rfl
  | cons t ts =>
    simp only [readFileNames, List.map_cons, string?_bare, span_bare]
    split
    · split
      · rw [List.map_singleton, bare_withSpan]
        split <;> rfl
      · rfl
    · rfl

/-- Names of days and months are words. -/
theorem forgetsSpans_readCalendarNames : ForgetsSpans (readCalendarNames settings) := by
  intro ts
  cases ts with
  | nil => rfl
  | cons t ts =>
    rw [List.map_cons, readCalendarNames, readCalendarNames, string?_bare]
    split
    · split
      · rfl
      · split <;> rfl
    · rfl

/-- The period and the number that it counts are the values of the first two terms. -/
theorem forgetsSpans_readPeriods (fixed : Option Period) (counting : Counting) (number : Int) :
    ForgetsSpans (readPeriods settings fixed counting number) := by
  intro ts
  have hperiod : ((ts.map bare).head?.bind fun t => t.string?.bind settings.period?) =
      ts.head?.bind fun t => t.string?.bind settings.period? := by
    cases ts with
    | nil => rfl
    | cons t ts => exact congrArg (·.bind settings.period?) (string?_bare t)
  rw [readPeriods, readPeriods, hperiod, List.getElem?_map]
  generalize fixed.or _ = period?
  cases ts[1]? with
  | none => cases period? <;> cases counting <;> rfl
  | some t =>
    dsimp only [Option.map_some]
    rw [integer?_bare]
    cases period? <;> cases t.integer? <;> cases counting <;> rfl

theorem fieldParts?_bare (t : Term) : t.bare.fieldParts? = t.fieldParts? := by
  cases t <;> simp [bare, fieldParts?]

theorem fieldNumber?_bare (t : Term) (p : Period) : t.bare.fieldNumber? p = t.fieldNumber? p := by
  rw [fieldNumber?, fieldNumber?, fieldParts?_bare]

theorem field?_bare (t : Term) : t.bare.field? = t.field? := by
  rw [field?, field?, fieldParts?_bare]

theorem inRange?_bare (low high : Int) (t : Term) : inRange? low high t.bare = inRange? low high t := by
  rw [inRange?, inRange?, integer?_bare]

/-- A slot of a written date is filled by the number of its term, or by the number of its field. -/
theorem slotValue?_bare (afternoon numericMonths : Bool) (p : Period) (t : Term) :
    slotValue? afternoon numericMonths p t.bare = slotValue? afternoon numericMonths p t := by
  cases p <;> simp only [slotValue?, inRange?_bare, fieldNumber?_bare]

/-- The slots of a written date become the same fields. -/
theorem slotFields?_map_bare (afternoon numericMonths : Bool) (slots : List (Period × Term)) :
    slotFields? afternoon numericMonths (slots.map fun e => (e.1, e.2.bare)) =
      (slotFields? afternoon numericMonths slots).map (List.map bare) := by
  induction slots with
  | nil => rfl
  | cons slot slots ih =>
    obtain ⟨p, t⟩ := slot
    rw [List.map_cons, slotFields?, slotFields?, isValid_bare, slotValue?_bare, ih, span_bare]
    split
    · rfl
    · cases slotValue? afternoon numericMonths p t <;>
        cases slotFields? afternoon numericMonths slots <;> rfl

theorem forgetsSpans_readWrittenDate (afternoon numericMonths : Bool) :
    ForgetsSpans (readWrittenDate afternoon numericMonths) := by
  intro ts
  have hslots := slotFields?_map_bare afternoon numericMonths (slotPeriods.zip ts)
  rw [readWrittenDate, readWrittenDate, List.zip_map_right]
  change (slotFields? afternoon numericMonths ((slotPeriods.zip ts).map fun e => (e.1, e.2.bare))).getD [] = _
  rw [hslots]
  cases slotFields? afternoon numericMonths (slotPeriods.zip ts) <;> rfl

/-! ## Comparisons -/

/-- A comparator is put in front of the value that a term has. -/
theorem forgetsSpans_readComparator (c : Comparator) : ForgetsSpans (readComparator settings c) := by
  intro ts
  cases ts with
  | nil => rfl
  | cons t ts =>
    simp only [readComparator, List.map_cons, literal?_bare]
    split
    · split <;> rfl
    · rfl
    · rfl

/-- What a comparison compares with is found inside it, wherever it stands. -/
theorem value?_bare (t : Term) : value? t.bare = (value? t).map fun v => (v.1.bare, v.2) := by
  cases t with
  | comparison s head v =>
    simp only [bare, value?]
    split <;> rfl
  | _ => rfl

/-- Resources are looked up by the text of a label. -/
theorem convert?_bare (d : Domain) (directory : Directory) (t : Term) :
    d.convert? directory t.bare = (d.convert? directory t).map bare := by
  cases t with
  | literal s l =>
    cases l with
    | string label =>
      have hfind (s : Span) : ((d.find? directory label).map (Term.resource s)).map bare =
          (d.find? directory label).map (Term.resource .empty) := by
        cases d.find? directory label <;> rfl
      cases d <;> first | rfl | exact (hfind s).symm
    | _ => cases d <;> rfl
  | _ => rfl

/-- The value of a property is the one that the term has, once it fits the domain. -/
theorem forgetsSpans_readProperty (directory : Directory) (p : Uri) (d : Domain) :
    ForgetsSpans (readProperty directory p d) := by
  intro ts
  cases ts with
  | nil => rfl
  | cons t ts =>
    rw [List.map_cons, readProperty, readProperty, value?_bare]
    cases value? t with
    | none => rfl
    | some v =>
      rw [Option.map_some]
      dsimp only
      rw [convert?_bare]
      cases d.convert? directory v.1 with
      | none => rfl
      | some w =>
        rw [Option.map_some]
        dsimp only
        rw [string?_bare]
        rfl

/-- A nested query is fused alike from the same bare terms. -/
theorem forgetsSpans_readSubquery (flags : ParserFlags) (p : Uri) :
    ForgetsSpans (readSubquery settings flags p) := by
  intro ts
  rw [readSubquery, readSubquery]
  dsimp only
  rw [fuse_bare, isValid_bare]
  split <;> rfl

/-! ## All readings -/

/-- The window that new terms are placed in is forgotten again. -/
theorem placed_bare (window new : List Term) : (placed window new).map bare = new.map bare := by
  unfold placed
  split
  · rw [List.map_singleton, List.map_singleton, bare_withSpan]
  · rfl

/-- A reading that forgets spans answers alike what is alike up to spans. -/
theorem ForgetsSpans.readsAlike {reader : Reader} (h : ForgetsSpans reader) : ReadsAlike bare reader := by
  intro window window' ts us _ hts
  rw [placed_bare, placed_bare, ← h, ← h, hts]

/-- Apart from numbers with decimals and from words that are cut into pieces, what terms are read as does
not depend on spans. -/
theorem forgetsSpans_apply (x : Surroundings) {r : Reading} (hunits : r ≠ .units)
    (hdecimals : r ≠ .decimals) : ForgetsSpans (r.apply x) := by
  cases r with
  | units => contradiction
  | decimals => contradiction
  | numbers => exact forgetsSpans_readNumbers
  | fileSize => exact forgetsSpans_readFileSize
  | kinds => exact forgetsSpans_readKinds
  | fileNames => exact forgetsSpans_readFileNames
  | calendarNames => exact forgetsSpans_readCalendarNames
  | periods fixed counting number => exact forgetsSpans_readPeriods fixed counting number
  | writtenDate afternoon numericMonths => exact forgetsSpans_readWrittenDate afternoon numericMonths
  | comparators c => exact forgetsSpans_readComparator c
  | properties p d => exact forgetsSpans_readProperty x.directory p d
  | subqueries p => exact forgetsSpans_readSubquery x.flags p

end Reading

/-! ## Dates -/

/-- The run without its spans. -/
def DateRun.bare (r : DateRun) : DateRun := ⟨r.spec, .empty, r.filler.map Term.bare⟩

theorem isFiller_bare (settings : Settings) (t : Term) : isFiller settings t.bare = isFiller settings t := by
  rw [isFiller, isFiller, string?_bare]

/-- The date of a run does not depend on where its fields stand. -/
theorem DateRun.terms?_bare (r : DateRun) (now : Instant) :
    r.bare.terms? now = (r.terms? now).map (List.map Term.bare) := by
  rw [terms?, terms?, Option.map_map]
  rfl

/-- Runs of fields start, go on and end at the same terms. -/
theorem foldDatesAfter?_bare (settings : Settings) (now : Instant) (run : Option DateRun) (ts : List Term) :
    foldDatesAfter? settings now (run.map DateRun.bare) (ts.map bare) =
      (foldDatesAfter? settings now run ts).map (List.map bare) := by
  induction ts generalizing run with
  | nil =>
    cases run with
    | none => rfl
    | some r => exact r.terms?_bare now
  | cons t ts ih =>
    have hopen (r : DateRun) := ih (some r)
    have hclosed : foldDatesAfter? settings now none (ts.map bare) =
        (foldDatesAfter? settings now none ts).map (List.map bare) := ih none
    cases run with
    | none =>
      simp only [foldDatesAfter?, List.map_cons, Option.map_none, Reading.field?_bare, span_bare]
      split
      · rename_i p f _
        exact hopen (.start p f t.span)
      · rw [hclosed, Option.map_map, Option.map_map]
        rfl
    | some r =>
      simp only [foldDatesAfter?, List.map_cons, Option.map_some, Reading.field?_bare, span_bare,
        isFiller_bare]
      split
      · rename_i p f _
        exact hopen (r.add p f t.span)
      split
      · rw [← hopen (r.fill t)]
        simp [DateRun.fill, DateRun.bare]
      · rw [r.terms?_bare, hclosed]
        cases r.terms? now with
        | none => rfl
        | some us => simp [Option.map_map, Function.comp_def]

/-- Dates are folded alike wherever the terms stand. -/
theorem foldDates?_bare (settings : Settings) (now : Instant) (ts : List Term) :
    foldDates? settings now (ts.map bare) = (foldDates? settings now ts).map (List.map bare) :=
  foldDatesAfter?_bare settings now none ts

/-! ## Drafts -/

namespace Draft

variable {f : Term → Term} {x : Surroundings} {cursor cursor' : Option Nat} {ph : Phrasing} {d e : Draft}

/-- The terms of a draft are rewritten alike, whatever the cursor : it only adds proposals. -/
theorem tryPattern_map_congr {pattern : String}
    (hph : ∀ p, Pattern.ofText pattern = .ok p → RewritesAlike f p (ph.reading.apply x))
    (h : d.terms.map f = e.terms.map f) :
    (d.tryPattern x cursor ph pattern).terms.map f = (e.tryPattern x cursor' ph pattern).terms.map f := by
  unfold tryPattern
  cases hp : Pattern.ofText pattern with
  | error _ => exact h
  | ok p => exact rewrite_map_congr (hph p hp) h

/-- All patterns of a phrasing keep drafts alike if each of them rewrites alike. -/
theorem tryPhrasing_map_congr
    (hph : ∀ pattern ∈ ph.patterns, ∀ p, Pattern.ofText pattern = .ok p →
      RewritesAlike f p (ph.reading.apply x))
    (h : d.terms.map f = e.terms.map f) :
    (d.tryPhrasing x cursor ph).terms.map f = (e.tryPhrasing x cursor' ph).terms.map f :=
  List.foldl_rel (r := fun d e : Draft => d.terms.map f = e.terms.map f) h
    fun pattern hpattern _ _ => tryPattern_map_congr (hph pattern hpattern)

/-- Phrasings whose readings forget spans keep drafts alike up to spans. -/
theorem tryPhrasings_map_bare {phs : List Phrasing}
    (hphs : ∀ ph ∈ phs, ph.reading ≠ .units ∧ ph.reading ≠ .decimals)
    (h : d.terms.map bare = e.terms.map bare) :
    (phs.foldl (tryPhrasing x cursor) d).terms.map bare =
      (phs.foldl (tryPhrasing x cursor') e).terms.map bare :=
  List.foldl_rel (r := fun d e : Draft => d.terms.map bare = e.terms.map bare) h fun ph hph _ _ =>
    have hreading := Reading.forgetsSpans_apply x (hphs ph hph).1 (hphs ph hph).2
    tryPhrasing_map_congr fun _ _ p _ => hreading.readsAlike.rewritesAlike isView_bare p

end Draft

end DesktopSearch
