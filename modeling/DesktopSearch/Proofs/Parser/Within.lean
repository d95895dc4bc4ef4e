import DesktopSearch.Proofs.Fusion.Within
import DesktopSearch.Proofs.Parser.Answer
import DesktopSearch.Proofs.Parser.Cursor
import DesktopSearch.Proofs.Parser.Draft
import DesktopSearch.Proofs.Parser.Spelled

/-!
# Reading inside the input

A reading answers with terms that have no span yet or the one of a captured term, and with what it fuses; a
single answer takes over the span of its window. So all readings keep terms inside the input
(`Reading.keepsWindows_within`), and folding dates does. Proposals cover terms of the draft. Together this is
`Parser.read_within` : no span of a query or of a proposal reaches beyond the end of the text.
-/

namespace DesktopSearch

variable {n : Nat}

/-! ## Readings before dates are folded -/

namespace Reading

variable {settings : Settings}

/-- An answer has no place yet, so it lies anywhere. -/
theorem within_answer (l : Literal) : ∀ u ∈ answer l, u.Within n :=
  List.forall_mem_singleton.2 (.of_childless (Nat.zero_le n) rfl)

theorem within_absoluteField (p : Period) (k : Int) : (Term.absoluteField p k).Within n :=
  .comparison (Nat.zero_le n) _ (.of_childless (Nat.zero_le n) rfl)

theorem within_countedField (p : Period) (k : Int) (c : Counting) : (countedField p k c).Within n := by
  cases c <;> exact .comparison (Nat.zero_le n) _ (.of_childless (Nat.zero_le n) rfl)

/-- Readings answer with terms that have no place yet, or with those that they are given. -/
theorem keeps_within_readNumbers : Keeps (Term.Within n) (readNumbers settings) := by
  intro ts _
  obtain hnil | ⟨_, _, _, k, -, -, hread⟩ := readNumbers_cases settings ts
  · simp [hnil]
  · exact hread ▸ within_answer (.integer k)

theorem keeps_within_readDecimals : Keeps (Term.Within n) readDecimals := by
  intro ts _
  obtain hnil | ⟨_, _, _, _, _, d, -, hread⟩ := readDecimals_cases ts
  · simp [hnil]
  · exact hread ▸ within_answer (.double d)

theorem keeps_within_readFileSize : Keeps (Term.Within n) readFileSize := by
  intro ts _
  obtain hnil | ⟨_, _, _, _, k, -, -, hread⟩ := readFileSize_cases ts
  · simp [hnil]
  · exact hread ▸ within_answer (.integer k)

theorem keeps_within_readKinds : Keeps (Term.Within n) readKinds := by
  intro ts _
  obtain hnil | ⟨_, _, _, v, -, -, hread⟩ := readKinds_cases ts
  · simp [hnil]
  · rw [hread]
    exact List.forall_mem_singleton.2 (.of_childless (Nat.zero_le n) rfl)

theorem keeps_within_readFileNames : Keeps (Term.Within n) readFileNames := by
  intro ts hts
  obtain hnil | ⟨s, word, rest, c, name, rfl, hread⟩ := readFileNames_cases ts
  · simp [hnil]
  · have hs : s.stop ≤ n := ((hts _ List.mem_cons_self).resolve_right nofun).stop_le
    rw [hread]
    exact List.forall_mem_singleton.2
      ((Term.Within.comparison (Nat.zero_le n) _ (.of_childless hs rfl)).withSpan hs)

theorem keeps_within_readCalendarNames : Keeps (Term.Within n) (readCalendarNames settings) := by
  intro ts _
  obtain hnil | ⟨_, _, _, p, k, -, -, hread⟩ := readCalendarNames_cases settings ts
  · simp [hnil]
  · rw [hread]
    exact List.forall_mem_singleton.2 (within_absoluteField p k)

theorem keeps_within_readPeriods (fixed : Option Period) (counting : Counting) (number : Int) :
    Keeps (Term.Within n) (readPeriods settings fixed counting number) := by
  intro ts _
  obtain hnil | ⟨p, k, -, -, hread⟩ := readPeriods_cases settings fixed counting number ts
  · simp [hnil]
  · rw [hread]
    exact List.forall_mem_singleton.2 (within_countedField p k counting)

theorem keeps_within_readWrittenDate (afternoon numericMonths : Bool) :
    Keeps (Term.Within n) (readWrittenDate afternoon numericMonths) := by
  intro ts hts u hu
  obtain ⟨p, t, k, ht, -, -, rfl⟩ := exists_of_mem_readWrittenDate hu
  refine (within_absoluteField p k).withSpan ?_
  rcases hts t ht with h | h
  · exact h.stop_le
  · exact h ▸ Nat.zero_le n

/-! ## Comparisons -/

theorem keeps_within_readComparator (c : Comparator) :
    Keeps (Term.Within n) (readComparator settings c) := by
  intro ts hts u hu
  obtain ⟨s, l, hl, rfl⟩ := eq_of_mem_readComparator hu
  exact .comparison (Nat.zero_le n) _ ((hts _ hl).resolve_right nofun)

/-- A value is the term itself or what the term compares with. -/
theorem within_of_value? {t v : Term} {c : Option Comparator} (ht : t.Within n)
    (h : value? t = some (v, c)) : v.Within n := by
  cases t with
  | literal s l => exact (Prod.mk.inj (Option.some.inj h)).1 ▸ ht
  | comparison s head value =>
    rw [value?] at h
    split at h
    · exact (Prod.mk.inj (Option.some.inj h)).1 ▸ ht.child (by simp)
    · simp at h
  | _ => simp [value?] at h

/-- A literal is converted where it stands. -/
theorem within_of_convert? {d : Domain} {directory : Directory} {v w : Term} (hv : v.Within n)
    (h : d.convert? directory v = some w) : w.Within n := by
  unfold Domain.convert? at h
  split at h
  · split at h
    all_goals first
      | exact Option.some.inj h ▸ hv
      | obtain ⟨u, -, rfl⟩ := Option.map_eq_some_iff.1 h
        exact .of_childless hv.stop_le rfl
      | simp at h
  · simp at h

theorem keeps_within_readProperty (directory : Directory) (p : Uri) (d : Domain) :
    Keeps (Term.Within n) (readProperty directory p d) := by
  intro ts hts u hu
  obtain ⟨t, ht, v, c, w, hvalue, hconvert, rfl⟩ := eq_of_mem_readProperty hu
  have ht : t.Within n := (hts t ht).resolve_right (by rintro rfl; contradiction)
  exact .comparison (Nat.zero_le n) _ (within_of_convert? (within_of_value? ht hvalue) hconvert)

/-- The terms of a nested query are joined inside the input. -/
theorem keeps_within_readSubquery (flags : ParserFlags) (p : Uri) :
    Keeps (Term.Within n) (readSubquery settings flags p) := by
  intro ts hts u hu
  obtain ⟨-, rfl⟩ := eq_of_mem_readSubquery hu
  refine .comparison (Nat.zero_le n) _ (within_fuse fun t ht => ?_)
  exact (hts t ht).elim id fun h => h ▸ .nothing

/-! ## All readings -/

/-- What is placed in a window lies where the window does. -/
theorem keepsWindows_within {reader : Reader} (hr : Keeps (Term.Within n) reader) :
    KeepsWindows (Term.Within n) reader := by
  intro window ts hwindow hts
  have hnew := hr ts hts
  unfold placed
  split
  · rename_i t heq
    rw [heq, List.forall_mem_singleton] at hnew
    exact List.forall_mem_singleton.2
      (hnew.withSpan (Term.stop_spanOf_le fun t ht => (hwindow t ht).stop_le))
  · exact hnew

/-- Apart from the pieces of words, all that is read from terms inside the input lies inside it. -/
theorem keepsWindows_apply (x : Surroundings) {r : Reading} (h : r ≠ .units) :
    KeepsWindows (Term.Within n) (r.apply x) := by
  refine keepsWindows_within ?_
  cases r with
  | units => contradiction
  | numbers => exact keeps_within_readNumbers
  | decimals => exact keeps_within_readDecimals
  | fileSize => exact keeps_within_readFileSize
  | kinds => exact keeps_within_readKinds
  | fileNames => exact keeps_within_readFileNames
  | calendarNames => exact keeps_within_readCalendarNames
  | periods fixed counting number => exact keeps_within_readPeriods fixed counting number
  | writtenDate afternoon numericMonths => exact keeps_within_readWrittenDate afternoon numericMonths
  | comparators c => exact keeps_within_readComparator c
  | properties p d => exact keeps_within_readProperty x.directory p d
  | subqueries p => exact keeps_within_readSubquery x.flags p

end Reading

/-! ## Dates -/

/-- Folding dates keeps terms inside the input: the span of a run covers spans of fields. -/
theorem within_foldDates? {settings : Settings} {now : Instant} {ts us : List Term}
    (hts : ∀ t ∈ ts, t.Within n) (h : foldDates? settings now ts = some us) : ∀ u ∈ us, u.Within n := by
  intro u hu
  obtain ⟨hmem, -⟩ | ⟨run, m, -, hsubset, -, rfl⟩ := mem_of_foldDates? h hu
  · exact hts u hmem
  · refine .of_childless (Term.stop_spanOf_le fun t ht => ?_) rfl
    exact (hts t (hsubset (List.mem_of_mem_filter ht))).stop_le

/-! ## Proposals -/

namespace Proposal

/-- The stretch of the input that the proposal covers ends within the first `n` places. -/
def Within (n : Nat) (q : Proposal) : Prop := q.position + q.length ≤ n

theorem mem_addNew_iff {ps qs : List Proposal} {q : Proposal} : q ∈ addNew ps qs ↔ q ∈ ps ∨ q ∈ qs := by
  induction qs generalizing ps with
  | nil => simp [addNew]
  | cons r qs ih =>
    rw [addNew, ih, List.mem_cons, ← or_assoc]
    refine or_congr_left ?_
    split
    · rename_i hr
      rw [List.contains_iff_mem] at hr
      exact ⟨Or.inl, fun h => h.elim id fun h => h ▸ hr⟩
    · simp

/-- A proposal covers what a trial covers, which ends inside the input. -/
theorem within_of_mem_ofTrials {p : Pattern} {c : Completion} {cursor : Nat} {trials : List Trial}
    {q : Proposal} (htrials : ∀ parts span, .stopped parts span ∈ trials → span.stop ≤ n)
    (h : q ∈ ofTrials p c cursor trials) : q.Within n := by
  rcases mem_addNew_iff.1 h with h | h
  · simp at h
  obtain ⟨trial, htrial, hq⟩ := List.mem_filterMap.1 h
  cases trial with
  | matched captures => simp [ofTrial?] at hq
  | stopped parts span =>
    rw [ofTrial?] at hq
    split at hq
    · exact Option.some.inj hq ▸ htrials parts span htrial
    · simp at hq

end Proposal

/-! ## Drafts -/

/-- The terms of a draft have a property, and its proposals lie inside the input. -/
structure Draft.Inside (n : Nat) (P : Term → Prop) (d : Draft) : Prop where
  terms : ∀ t ∈ d.terms, P t
  proposals : ∀ q ∈ d.proposals, q.Within n

namespace Draft.Inside

variable {P : Term → Prop} {x : Surroundings} {cursor : Option Nat} {d : Draft} {ph : Phrasing}

theorem mono {Q : Term → Prop} (hd : d.Inside n P) (h : ∀ t, P t → Q t) : d.Inside n Q :=
  ⟨fun t ht => h t (hd.terms t ht), hd.proposals⟩

theorem of_foldDates? {settings : Settings} {now : Instant} {e : Draft} (hd : d.Inside n (Term.Within n))
    (he : d.foldDates? settings now = some e) : e.Inside n (Term.Within n) := by
  obtain ⟨ts, hts, rfl⟩ := foldDates?_eq_some_iff.1 he
  exact ⟨within_foldDates? hd.terms hts, hd.proposals⟩

/-- A draft stays inside the input, with the proposals that a pattern makes. -/
theorem tryPattern (hspan : ∀ t, P t → t.span.stop ≤ n) (hph : KeepsWindows P (ph.reading.apply x))
    (hd : d.Inside n P) (pattern : String) : (d.tryPattern x cursor ph pattern).Inside n P := by
  rw [Draft.tryPattern]
  split
  · exact hd
  rename_i p _
  refine ⟨rewriteWithin_keeps hph maxRewrites hd.terms, fun q hq => ?_⟩
  rcases Proposal.mem_addNew_iff.1 hq with hq | hq
  · exact hd.proposals q hq
  · unfold newProposals at hq
    split at hq
    · refine Proposal.within_of_mem_ofTrials (fun parts span htrial => ?_) hq
      obtain ⟨window, hwindow, rfl⟩ := stopped_of_mem_rewriteWithin hph hd.terms htrial
      exact Term.stop_spanOf_le fun t ht => hspan t (hwindow t ht)
    · simp at hq

theorem tryPhrasing (hspan : ∀ t, P t → t.span.stop ≤ n) (hph : KeepsWindows P (ph.reading.apply x))
    (hd : d.Inside n P) : (d.tryPhrasing x cursor ph).Inside n P :=
  List.foldlRecOn (motive := Draft.Inside n P) ph.patterns _ hd
    fun _ hd pattern _ => hd.tryPattern hspan hph pattern

theorem tryPhrasings {phs : List Phrasing} (hphs : ∀ ph ∈ phs, ph.reading ≠ .units)
    (hd : d.Inside n (Term.Within n)) :
    (phs.foldl (Draft.tryPhrasing x cursor) d).Inside n (Term.Within n) :=
  List.foldlRecOn (motive := Draft.Inside n (Term.Within n)) phs _ hd
    fun _ hd ph hph => hd.tryPhrasing (fun _ ht => ht.stop_le) (Reading.keepsWindows_apply x (hphs ph hph))

end Draft.Inside

/-- Reading keeps a draft inside the input. -/
theorem Draft.Inside.of_tryAll? {x : Surroundings} {now : Instant} {cursor : Option Nat} {d e : Draft}
    (hd : d.Inside n (Term.Spelled n)) (he : d.tryAll? x now cursor = some e) :
    e.Inside n (Term.Within n) := by
  obtain ⟨phs, hphs, hlater⟩ := Phrasing.exists_ofDates x.flags
  rw [List.forall_mem_append] at hlater
  have hcut : (d.tryPhrasing x cursor ⟨.units, ["%1"], none⟩).Inside n (Term.Within n) :=
    (hd.tryPhrasing (fun t ht => ht.within.stop_le) Reading.keepsWindows_readUnits).mono fun t ht => ht.within
  obtain ⟨dated, hdated, rfl⟩ := tryAll?_eq_some_iff.1 he
  rw [hphs, List.foldl_cons] at hdated
  refine ((hcut.tryPhrasings ?_).of_foldDates? hdated).tryPhrasings fun ph hph => (hlater.2 ph hph).1
  simpa using fun ph hph => (hlater.1 ph hph).1

/-! ## Texts -/

namespace Parser

/-- A text whose digits are in ASCII is read inside the text: no part of its query, be it inside a query that
is a value of another, and no proposal covers a place beyond its end. -/
theorem read_within (p : Parser) (flags : ParserFlags) (cursor : Option Nat) (text : String)
    (hdigits : ∀ c ∈ text.toList, Text.isDecimalDigit c = true → c.isDigit = true) :
    (∀ q, (p.read flags cursor text).1 = some q →
      ∀ t, q.term.Part t → t.span.start + t.span.length ≤ text.length) ∧
      ∀ q ∈ (p.read flags cursor text).2.2.proposals, q.position + q.length ≤ text.length := by
  have htokens : Draft.Inside text.length (Term.Spelled text.length) ⟨tokenize p.settings text, [], []⟩ :=
    ⟨Token.spelled_of_mem_read (by rw [Nat.zero_add, String.length_toList]) hdigits, by simp⟩
  refine ⟨fun q hq => ?_, fun q hq => ?_⟩
  · obtain ⟨d, hd, rfl⟩ := read_eq_some_iff.1 hq
    exact within_fuse (htokens.of_tryAll? hd).terms
  · obtain ⟨d, hd, hq⟩ := mem_proposals_read_iff.1 hq
    exact (htokens.of_tryAll? hd).proposals q hq

/-- The digits of "size > 2KB" are in ASCII, so the two pieces of "2KB" stay among its ten places. -/
theorem read_within_glued :
    let now : Instant :=
      .midnight ⟨2024, 2, 29, by decide, by decide, by decide, by decide, by decide, by decide⟩
    let p := fresh .english none now
    (∀ c ∈ "size > 2KB".toList, Text.isDecimalDigit c = true → c.isDigit = true) ∧
      (∃ q, (p.read {} (some 10) "size > 2KB").1 = some q ∧
        ∀ t, q.term.Part t → t.span.start + t.span.length ≤ 10) ∧
      ∀ q ∈ (p.read {} (some 10) "size > 2KB").2.2.proposals, q.position + q.length ≤ 10 := by
  intro now p
  have hascii : "size > 2KB".toList.all (fun c => !Text.isDecimalDigit c || c.isDigit) = true := by
    decide
  have hdigits : ∀ c ∈ "size > 2KB".toList, Text.isDecimalDigit c = true → c.isDigit = true :=
    fun c hc hdigit => by simpa [hdigit] using List.all_eq_true.1 hascii c hc
  have hlength : "size > 2KB".length = 10 := by decide
  obtain ⟨q, hq, -⟩ := exists_read_size (some 10)
  obtain ⟨hterms, hproposals⟩ := read_within p {} (some 10) "size > 2KB" hdigits
  rw [hlength] at hterms hproposals
  exact ⟨hdigits, ⟨q, hq, hterms q hq⟩, hproposals⟩

end Parser

end DesktopSearch
