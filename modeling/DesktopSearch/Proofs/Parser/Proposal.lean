import DesktopSearch.Proofs.Parser.Placed
import DesktopSearch.Proofs.Parser.Within

/-!
# Proposals

A proposal is made while a text is read, when one of the patterns takes its turn. To say what the terms were
at that moment, `Draft.Turn` follows the folds over phrasings and patterns up to the pattern, and a chain of
leftmost steps leads on from there. The proposals of the finished draft are those that were made at the
turns (`Draft.mem_of_tryAll?_iff`), each for a match that stopped at the end of the terms
(`Draft.mem_madeAt_iff`). `Parser.read_proposals` puts together what this means for the proposals of a parser.
-/

namespace DesktopSearch

/-! ## Turns -/

/-- What each entry of a list may add is added by the list if one of its entries adds it. -/
theorem foldl_iff {α β : Type} {P : β → Prop} {N : β → α → Prop} {f : β → α → β}
    (hf : ∀ b a, P (f b a) ↔ P b ∨ N b a) (b : β) (l : List α) : P (l.foldl f b) ↔
      P b ∨ ∃ front a behind, l = front ++ a :: behind ∧ N (front.foldl f b) a := by
  induction l generalizing b with
  | nil => simp
  | cons a l ih =>
    rw [List.foldl_cons, ih, hf, or_assoc]
    refine or_congr_right ⟨?_, ?_⟩
    · rintro (ha | ⟨front, c, behind, rfl, hc⟩)
      · exact ⟨[], a, l, rfl, ha⟩
      · exact ⟨a :: front, c, behind, rfl, hc⟩
    · rintro ⟨front, c, behind, hl, hc⟩
      cases front with
      | nil =>
        obtain ⟨rfl, -⟩ := List.cons.inj hl
        exact Or.inl hc
      | cons d front =>
        obtain ⟨rfl, rfl⟩ := List.cons.inj hl
        exact Or.inr ⟨front, c, behind, rfl, hc⟩

namespace Draft

variable {x : Surroundings} {now : Instant} {cursor : Option Nat} {phs : List Phrasing} {ph : Phrasing}
  {pattern : String} {d e : Draft} {q : Proposal}

/-- What a draft has come to, while phrasings are tried, when it is the turn of a pattern of one of them. -/
inductive TurnAmong (x : Surroundings) (cursor : Option Nat) (phs : List Phrasing) (d : Draft) :
    Phrasing → String → Draft → Prop
  | intro {before behind : List Phrasing} {ph : Phrasing} {first rest : List String} {pattern : String}
    (phrasings : phs = before ++ ph :: behind) (patterns : ph.patterns = first ++ pattern :: rest) :
    TurnAmong x cursor phs d ph pattern
      (first.foldl (tryPattern x cursor ph) (before.foldl (tryPhrasing x cursor) d))

/-- What a draft has come to when it is the turn of a pattern, before dates are folded or after that. -/
inductive Turn (x : Surroundings) (now : Instant) (cursor : Option Nat) (d : Draft) :
    Phrasing → String → Draft → Prop
  | beforeDates {ph : Phrasing} {pattern : String} {e : Draft}
    (turn : TurnAmong x cursor (Phrasing.ofDates x.flags) d ph pattern e) : Turn x now cursor d ph pattern e
  | afterDates {dated : Draft} {ph : Phrasing} {pattern : String} {e : Draft}
    (folded : ((Phrasing.ofDates x.flags).foldl (tryPhrasing x cursor) d).foldDates? x.settings now = some dated)
    (turn : TurnAmong x cursor Phrasing.afterDates dated ph pattern e) : Turn x now cursor d ph pattern e

theorem TurnAmong.mem (h : TurnAmong x cursor phs d ph pattern e) : ph ∈ phs ∧ pattern ∈ ph.patterns := by
  obtain ⟨rfl, hpatterns⟩ := h
  exact ⟨by simp, by simp [hpatterns]⟩

theorem TurnAmong.hasPlace (hphs : ∀ ph ∈ phs, ph ∈ Phrasing.ofDates x.flags ++ Phrasing.afterDates)
    (h : TurnAmong x cursor phs d ph pattern e) (hd : ∀ t ∈ d.terms, t.HasPlace) :
    ∀ t ∈ e.terms, t.HasPlace := by
  obtain ⟨rfl, hpatterns⟩ := h
  rename_i before behind first rest
  rw [List.forall_mem_append, List.forall_mem_cons] at hphs
  refine List.foldlRecOn (motive := fun d : Draft => ∀ t ∈ d.terms, t.HasPlace) first _
    (tryPhrasings_hasPlace hphs.1 hd) fun d hd pattern hpattern => ?_
  exact tryPattern_hasPlace hphs.2.1 (by simp [hpatterns, hpattern]) hd

theorem Turn.mem (h : Turn x now cursor d ph pattern e) :
    ph ∈ Phrasing.ofDates x.flags ++ Phrasing.afterDates ∧ pattern ∈ ph.patterns := by
  cases h with
  | beforeDates turn => exact ⟨List.mem_append_left _ turn.mem.1, turn.mem.2⟩
  | afterDates folded turn => exact ⟨List.mem_append_right _ turn.mem.1, turn.mem.2⟩

/-- Whenever a pattern takes its turn, all terms have places. -/
theorem Turn.hasPlace (h : Turn x now cursor d ph pattern e) (hd : ∀ t ∈ d.terms, t.HasPlace) :
    ∀ t ∈ e.terms, t.HasPlace := by
  have hbefore : ∀ ph ∈ Phrasing.ofDates x.flags, ph ∈ Phrasing.ofDates x.flags ++ Phrasing.afterDates :=
    fun ph hph => List.mem_append_left _ hph
  cases h with
  | beforeDates turn => exact turn.hasPlace hbefore hd
  | afterDates folded turn =>
    obtain ⟨ts, hts, rfl⟩ := foldDates?_eq_some_iff.1 folded
    exact turn.hasPlace (fun ph hph => List.mem_append_right _ hph)
      (hasPlace_foldDates? (tryPhrasings_hasPlace hbefore hd) hts)

end Draft

/-! ## Where proposals come from -/

namespace Proposal

variable {p : Pattern} {c : Completion} {place : Nat} {trials : List Trial} {q : Proposal}

/-- A proposal is made for every match that stops near the cursor, and for no others. -/
theorem mem_ofTrials_iff : q ∈ ofTrials p c place trials ↔
    ∃ parts span, .stopped parts span ∈ trials ∧ isNear place span = true ∧
      ⟨p.source, parts - 1, span.start, span.length, c⟩ = q := by
  rw [ofTrials, mem_addNew_iff, List.mem_filterMap]
  refine ⟨fun h => ?_, ?_⟩
  · obtain ⟨trial, htrial, hq⟩ := h.resolve_left List.not_mem_nil
    cases trial with
    | matched captures => simp [ofTrial?] at hq
    | stopped parts span =>
      obtain ⟨hnear, hq⟩ := Option.ite_none_right_eq_some.1 hq
      exact ⟨parts, span, htrial, hnear, Option.some.inj hq⟩
  · rintro ⟨parts, span, htrial, hnear, rfl⟩
    exact Or.inr ⟨_, htrial, if_pos hnear⟩

/-- Adding proposals adds none twice. -/
theorem nodup_addNew {ps : List Proposal} (h : ps.Nodup) (qs : List Proposal) : (addNew ps qs).Nodup := by
  induction qs generalizing ps with
  | nil => exact h
  | cons q qs ih =>
    refine ih ?_
    split
    · exact h
    · rename_i hq
      rw [List.contains_iff_mem] at hq
      exact List.nodup_append.2 ⟨h, List.nodup_singleton q, by grind⟩

end Proposal

theorem Pattern.length_of_readParts {engine : Keyword.Engine} {words : List String} {parts : List Part}
    (h : readParts engine words = .ok parts) : parts.length = words.length := by
  induction words generalizing parts with
  | nil =>
    obtain rfl := Except.ok.inj h
    rfl
  | cons word words ih =>
    rw [readParts] at h
    split at h
    · cases hrest : readParts engine words with
      | error e => simp [hrest, Except.map] at h
      | ok rest =>
        rw [hrest] at h
        obtain rfl := Except.ok.inj h
        rw [List.length_cons, List.length_cons, ih hrest]
    · simp at h

/-- A pattern has as many parts as words are written for it. -/
theorem Pattern.length_parts_of_ofText {text : String} {p : Pattern} (h : ofText text = .ok p) :
    p.source = (Text.words text.toList).map String.ofList ∧ p.parts.length = p.source.length := by
  rw [ofText, read] at h
  split at h
  · simp at h
  · cases hparts : readParts Keyword.read? ((Text.words text.toList).map String.ofList) with
    | error e => simp [hparts, Except.map] at h
    | ok parts =>
      rw [hparts] at h
      obtain rfl := Except.ok.inj h
      exact ⟨rfl, length_of_readParts hparts⟩

namespace Draft

variable {x : Surroundings} {now : Instant} {cursor : Option Nat} {ph : Phrasing} {pattern : String}
  {d e : Draft} {q : Proposal}

theorem proposals_of_foldDates? {settings : Settings} (h : d.foldDates? settings now = some e) :
    e.proposals = d.proposals := by
  obtain ⟨ts, -, rfl⟩ := foldDates?_eq_some_iff.1 h
  rfl

/-- The proposals that are made at the turn of a pattern. -/
def madeAt (x : Surroundings) (cursor : Option Nat) (ph : Phrasing) (e : Draft) (pattern : String) :
    List Proposal :=
  match Pattern.ofText pattern with
  | .error _ => []
  | .ok p => newProposals ph p cursor (rewrite p (ph.reading.apply x) e.terms).trials

theorem mem_madeAt_iff : q ∈ madeAt x cursor ph e pattern ↔
    ∃ p c place parts span, Pattern.ofText pattern = .ok p ∧ ph.completion = some c ∧ cursor = some place ∧
      .stopped parts span ∈ (rewrite p (ph.reading.apply x) e.terms).trials ∧
      Proposal.isNear place span = true ∧ ⟨p.source, parts - 1, span.start, span.length, c⟩ = q := by
  unfold madeAt
  constructor
  · intro h
    split at h
    · simp at h
    rename_i p hp
    unfold newProposals at h
    split at h
    · rename_i place c hc
      obtain ⟨parts, span, hq⟩ := Proposal.mem_ofTrials_iff.1 h
      exact ⟨p, c, place, parts, span, hp, hc, rfl, hq⟩
    · simp at h
  · rintro ⟨p, c, place, parts, span, hp, hc, rfl, hq⟩
    have hnew := Proposal.mem_ofTrials_iff.2 ⟨parts, span, hq⟩
    simpa only [hp, newProposals, hc] using hnew

theorem proposals_tryPattern (x : Surroundings) (cursor : Option Nat) (ph : Phrasing) (d : Draft)
    (pattern : String) : (d.tryPattern x cursor ph pattern).proposals =
      Proposal.addNew d.proposals (madeAt x cursor ph d pattern) := by
  rw [tryPattern, madeAt]
  cases Pattern.ofText pattern <;> rfl

theorem nodup_of_tryAll? (hd : d.proposals.Nodup) (he : d.tryAll? x now cursor = some e) :
    e.proposals.Nodup := by
  have hphrasings (phs : List Phrasing) (d : Draft) (hd : d.proposals.Nodup) :
      (phs.foldl (tryPhrasing x cursor) d).proposals.Nodup :=
    List.foldlRecOn (motive := fun d : Draft => d.proposals.Nodup) phs _ hd fun d hd ph _ =>
      List.foldlRecOn (motive := fun d : Draft => d.proposals.Nodup) ph.patterns _ hd
        fun d hd pattern _ => proposals_tryPattern x cursor ph d pattern ▸ Proposal.nodup_addNew hd _
  obtain ⟨dated, hdated, rfl⟩ := tryAll?_eq_some_iff.1 he
  refine hphrasings _ _ ?_
  rw [proposals_of_foldDates? hdated]
  exact hphrasings _ _ hd

theorem mem_tryPhrasings_iff (d : Draft) (phs : List Phrasing) :
    q ∈ (phs.foldl (tryPhrasing x cursor) d).proposals ↔ q ∈ d.proposals ∨
      ∃ ph pattern e, TurnAmong x cursor phs d ph pattern e ∧ q ∈ madeAt x cursor ph e pattern := by
  have hpattern (ph : Phrasing) (d : Draft) (pattern : String) :
      q ∈ (d.tryPattern x cursor ph pattern).proposals ↔
        q ∈ d.proposals ∨ q ∈ madeAt x cursor ph d pattern := by
    rw [proposals_tryPattern, Proposal.mem_addNew_iff]
  have hphrasing (d : Draft) (ph : Phrasing) :=
    foldl_iff (P := fun d : Draft => q ∈ d.proposals) (hpattern ph) d ph.patterns
  refine (foldl_iff (P := fun d : Draft => q ∈ d.proposals) hphrasing d phs).trans (or_congr_right ⟨?_, ?_⟩)
  · rintro ⟨before, ph, behind, hphs, first, pattern, rest, hpatterns, hq⟩
    exact ⟨ph, pattern, _, .intro hphs hpatterns, hq⟩
  · rintro ⟨ph, pattern, _, ⟨hphs, hpatterns⟩, hq⟩
    exact ⟨_, ph, _, hphs, _, pattern, _, hpatterns, hq⟩

/-- The proposals of a finished draft are those that were made at the turns of the patterns. -/
theorem mem_of_tryAll?_iff (he : d.tryAll? x now cursor = some e) : q ∈ e.proposals ↔ q ∈ d.proposals ∨
    ∃ ph pattern e, Turn x now cursor d ph pattern e ∧ q ∈ madeAt x cursor ph e pattern := by
  obtain ⟨dated, hdated, rfl⟩ := tryAll?_eq_some_iff.1 he
  rw [mem_tryPhrasings_iff, proposals_of_foldDates? hdated, mem_tryPhrasings_iff, or_assoc]
  refine or_congr_right ⟨?_, ?_⟩
  · rintro (⟨ph, pattern, e, turn, hq⟩ | ⟨ph, pattern, e, turn, hq⟩)
    · exact ⟨ph, pattern, e, .beforeDates turn, hq⟩
    · exact ⟨ph, pattern, e, .afterDates hdated turn, hq⟩
  · rintro ⟨ph, pattern, e, turn, hq⟩
    cases turn with
    | beforeDates turn => exact Or.inl ⟨ph, pattern, e, turn, hq⟩
    | afterDates folded turn =>
      obtain rfl := Option.some.inj (folded.symm.trans hdated)
      exact Or.inr ⟨ph, pattern, e, turn, hq⟩

end Draft

/-! ## Proposals of a parser -/

/-- The proposal is made near the cursor when it is the turn of a pattern with the parts of `p` : the parts
that have been typed have a keyword among them, and some are left ; and the proposal covers the last terms
of a list that the pattern has been rewritten to. -/
structure Proposal.MadeBy (x : Surroundings) (now : Instant) (cursor : Nat) (text : String) (ph : Phrasing)
    (pattern : String) (p : Pattern) (q : Proposal) : Prop where
  phrasing : ph ∈ Phrasing.ofDates x.flags ++ Phrasing.afterDates
  described : ph.completion = some q.completion
  alternative : pattern ∈ ph.patterns
  written : q.pattern = (Text.words pattern.toList).map String.ofList
  near : q.position ≤ cursor ∧ cursor ≤ q.position + q.length + 1
  unfinished : q.remaining ≠ []
  keyword : ∃ i ≤ q.last, ∃ k, p.parts[i]? = some (.keyword k)
  covers : ∃ e, Draft.Turn x now (some cursor) ⟨tokenize x.settings text, [], []⟩ ph pattern e ∧
    ∃ n < 4096, ∃ front behind, LeftmostSteps p (ph.reading.apply x) n e.terms (front ++ behind) ∧
      behind ≠ [] ∧ ⟨q.position, q.length⟩ = Term.spanOf behind ∧
      ∀ t ∈ behind, q.position ≤ t.span.start ∧ t.span.stop ≤ q.position + q.length

/-- A proposal for a match that stops leaves parts to be typed, and has a keyword among the others. -/
theorem Proposal.parts_of_stopped {p : Pattern} {ts : List Term} {taken : Taken} {c : Completion} {s : Span}
    (h : p.matchAt ts = .stopped taken) (hlength : p.parts.length = p.source.length) :
    remaining ⟨p.source, taken.parts - 1, s.start, s.length, c⟩ ≠ [] ∧
      ∃ i ≤ taken.parts - 1, ∃ k, p.parts[i]? = some (.keyword k) := by
  obtain ⟨-, front, rest, hparts, hrest, hdone, hsaw⟩ := Part.stopsInside_of_matchAll h
  obtain ⟨k, hk⟩ := hsaw.resolve_left Bool.false_ne_true
  obtain ⟨i, hi, hfront⟩ := List.getElem_of_mem hk
  have hpositive : 0 < rest.length := List.length_pos_iff.2 hrest
  rw [hparts, List.length_append] at hlength
  rw [Nat.zero_add] at hdone
  refine ⟨fun hnil => ?_, i, by omega, k, ?_⟩
  · have hle : p.source.length ≤ min (taken.parts - 1 + 1) p.source.length := List.drop_eq_nil_iff.1 hnil
    omega
  · rw [hparts, List.getElem?_append_left hi, List.getElem?_eq_getElem hi, hfront]

/-- What is proposed at the turn of a pattern is made by it. -/
theorem Draft.Turn.madeBy {x : Surroundings} {now : Instant} {cursor : Option Nat} {text : String}
    {ph : Phrasing} {pattern : String} {e : Draft} {q : Proposal}
    (h : Turn x now cursor ⟨tokenize x.settings text, [], []⟩ ph pattern e)
    (hq : q ∈ madeAt x cursor ph e pattern) :
    ∃ place p, cursor = some place ∧ Pattern.ofText pattern = .ok p ∧
      q.MadeBy x now place text ph pattern p := by
  obtain ⟨p, c, place, parts, span, hp, hc, rfl, htrial, hnear, rfl⟩ := mem_madeAt_iff.1 hq
  obtain ⟨hwritten, hlength⟩ := Pattern.length_parts_of_ofText hp
  obtain ⟨n, hn, front, behind, taken, hsteps, hbehind, hmatch, rfl, rfl⟩ :=
    exists_of_mem_rewriteWithin htrial
  obtain ⟨hremaining, hkeyword⟩ := Proposal.parts_of_stopped hmatch hlength
  obtain ⟨hph, hpattern⟩ := h.mem
  obtain ⟨hlow, hhigh⟩ := Bool.and_eq_true_iff.1 hnear
  have hplaces : ∀ t ∈ front ++ behind, t.HasPlace := by
    obtain ⟨p', hp', hruns, hfed⟩ := Phrasing.exists_of_isFed (Phrasing.isFed_of_mem x.flags hph) hpattern
    obtain rfl := Except.ok.inj (hp.symm.trans hp')
    exact hsteps.hasPlace (Reading.usesUp_apply x hruns hfed) (Reading.answersInPlace_apply x _)
      (h.hasPlace fun t ht => hasPlace_of_mem_tokenize ht)
  refine ⟨place, p, rfl, hp, hph, hc, hpattern, hwritten,
    ⟨of_decide_eq_true hlow, of_decide_eq_true hhigh⟩, hremaining, hkeyword,
    e, h, n, hn, front, behind, hsteps, hbehind, rfl, fun t ht => ?_⟩
  exact (Term.covers_spanOf ht (hplaces t (List.mem_append_right _ ht))).1

theorem Parser.nodup_proposals_read {parser : Parser} {flags : ParserFlags} {cursor : Option Nat}
    {text : String} : (parser.read flags cursor text).2.2.proposals.Nodup := by
  rw [read, accept_proposals, parse?, Option.map_map]
  cases hd : Draft.tryAll? ⟨parser.settings, flags, parser.directory⟩ parser.now cursor
      ⟨tokenize parser.settings text, [], []⟩ with
  | none => exact List.nodup_nil
  | some d => exact Draft.nodup_of_tryAll? List.nodup_nil hd

/-- The proposals of a parser are different from one another, and each one is made by a pattern that has been
started near the cursor. There are none without a cursor or if the text is not read ; otherwise no match of a
described pattern that stops near the cursor is passed over. -/
theorem Parser.read_proposals (parser : Parser) (flags : ParserFlags) (cursor : Option Nat)
    (text : String) :
    (parser.read flags cursor text).2.2.proposals.Nodup ∧
    (cursor = none ∨ (parser.read flags cursor text).1 = none →
      (parser.read flags cursor text).2.2.proposals = []) ∧
    (∀ q ∈ (parser.read flags cursor text).2.2.proposals, ∃ place ph pattern p,
      cursor = some place ∧ Pattern.ofText pattern = .ok p ∧
      q.MadeBy ⟨parser.settings, flags, parser.directory⟩ parser.now place text ph pattern p) ∧
    ((parser.read flags cursor text).1.isSome = true →
      ∀ place ph pattern p e c parts span, cursor = some place → Pattern.ofText pattern = .ok p →
      Draft.Turn ⟨parser.settings, flags, parser.directory⟩ parser.now cursor
        ⟨tokenize parser.settings text, [], []⟩ ph pattern e → ph.completion = some c →
      .stopped parts span ∈
        (rewrite p (ph.reading.apply ⟨parser.settings, flags, parser.directory⟩) e.terms).trials →
      span.start ≤ place → place ≤ span.stop + 1 →
      ⟨p.source, parts - 1, span.start, span.length, c⟩ ∈
        (parser.read flags cursor text).2.2.proposals) := by
  have hmade : ∀ q ∈ (parser.read flags cursor text).2.2.proposals, ∃ place ph pattern p,
      cursor = some place ∧ Pattern.ofText pattern = .ok p ∧
      q.MadeBy ⟨parser.settings, flags, parser.directory⟩ parser.now place text ph pattern p := by
    intro q hq
    obtain ⟨d, hd, hq⟩ := mem_proposals_read_iff.1 hq
    obtain ⟨ph, pattern, e, hturn, hq⟩ := ((Draft.mem_of_tryAll?_iff hd).1 hq).resolve_left List.not_mem_nil
    obtain ⟨place, p, hcursor, hp, hq⟩ := hturn.madeBy hq
    exact ⟨place, ph, pattern, p, hcursor, hp, hq⟩
  refine ⟨nodup_proposals_read, fun hnone => ?_, hmade, fun hread => ?_⟩
  · refine List.eq_nil_iff_forall_not_mem.2 fun q hq => ?_
    rcases hnone with hnone | hnone
    · obtain ⟨place, -, -, -, hcursor, -⟩ := hmade q hq
      simp [hnone] at hcursor
    · obtain ⟨d, hd, -⟩ := mem_proposals_read_iff.1 hq
      simp [read_eq_some_iff.2 ⟨d, hd, rfl⟩] at hnone
  · intro place ph pattern p e c parts span hcursor hp hturn hc htrial hlow hhigh
    obtain ⟨q, hq⟩ := Option.isSome_iff_exists.1 hread
    obtain ⟨d, hd, -⟩ := read_eq_some_iff.1 hq
    refine mem_proposals_read_iff.2 ⟨d, hd, (Draft.mem_of_tryAll?_iff hd).2 (Or.inr ⟨ph, pattern, e, hturn,
      Draft.mem_madeAt_iff.2 ?_⟩)⟩
    exact ⟨p, c, place, parts, span, hp, hc, hcursor, htrial, by simp [Proposal.isNear, hlow, hhigh], rfl⟩

/-- After "tagged as" the tag is what is left. -/
example : ∃ p, Pattern.ofText "tagged as %1" = .ok p ∧
    (Proposal.ofTrials p ⟨.tag, "Tag name"⟩ 9 (rewrite p (fun _ => [])
      [.literal ⟨0, 6⟩ (.string "tagged"), .literal ⟨7, 2⟩ (.string "as")]).trials).map
        (fun q => (q.remaining, q.position, q.length)) = [(["%1"], 0, 9)] :=
  ⟨_, rfl, by decide +kernel⟩

end DesktopSearch
