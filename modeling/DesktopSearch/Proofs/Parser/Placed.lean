import DesktopSearch.Proofs.Dates.Run
import DesktopSearch.Proofs.Parser.Draft
import DesktopSearch.Proofs.Parser.Ending
import DesktopSearch.Proofs.Parser.Token
import DesktopSearch.Proofs.Pattern.Stopped

/-!
# Terms have their places

A span that covers nothing is left out of every union, so a term without a place of its own in the input
would not be covered by anything. There is none in a draft (`Term.HasPlace`). Tokens have places. A single
answer takes over the place of its window; the only readings with several answers cut a word into pieces
that are not empty, or put fields in the places of captured terms (`Reading.answersInPlace_apply`). A moment
has the place of the fields that it was folded from.
-/

namespace DesktopSearch

/-- The term covers something of the input. -/
def Term.HasPlace (t : Term) : Prop := 0 < t.span.length

open Term

variable {p : Pattern} {reader : Reader} {ts us : List Term}

/-! ## Steps -/

/-- Several answers have places if the captured terms have. -/
def AnswersInPlace (reader : Reader) : Prop :=
  ∀ ts, (∀ t ∈ ts, t.HasPlace ∨ t = .nothing) → (reader ts).length ≤ 1 ∨ ∀ u ∈ reader ts, u.HasPlace

/-- What is placed in a window with a place has one. -/
theorem hasPlace_placed {window new : List Term} (hwindow : ∃ t ∈ window, t.HasPlace)
    (hnew : new.length ≤ 1 ∨ ∀ u ∈ new, u.HasPlace) : ∀ u ∈ placed window new, u.HasPlace := by
  unfold placed
  split
  · obtain ⟨t, ht, hplace⟩ := hwindow
    refine List.forall_mem_singleton.2 ?_
    rw [HasPlace, span_withSpan]
    exact (covers_spanOf ht hplace).2
  · rename_i hseveral
    rcases hnew with hshort | hnew
    · match new with
      | [] => simp
      | [u] => exact absurd rfl (hseveral u)
      | _ :: _ :: _ => simp at hshort
    · exact hnew

/-- A step that uses something up leaves no term without a place. -/
theorem LeftmostStep.hasPlace {P : Term → Bool} (hused : UsesUp P p reader)
    (hreader : AnswersInPlace reader) (h : LeftmostStep p reader ts us) (hts : ∀ t ∈ ts, t.HasPlace) :
    ∀ u ∈ us, u.HasPlace := by
  obtain ⟨i, ⟨-, before, window, after, taken, rfl, -, hmatch, hlen, hnew, rfl⟩, -⟩ := h
  rw [List.forall_mem_append, List.forall_mem_append] at hts ⊢
  obtain ⟨hbefore, hwindow, hafter⟩ := hts
  obtain ⟨⟨t, ht, -⟩, -⟩ := hused window after taken hmatch hlen hnew
  have hcaptured : taken.Holds HasPlace :=
    Part.holds_of_matchAll Taken.Holds.empty (List.forall_mem_append.2 ⟨hwindow, hafter⟩) hmatch
  exact ⟨hbefore, hasPlace_placed ⟨t, ht, hwindow t ht⟩ (hreader _ (hcaptured.captures _)), hafter⟩

/-- After any number of steps all terms have a place. -/
theorem LeftmostSteps.hasPlace {P : Term → Bool} (hused : UsesUp P p reader)
    (hreader : AnswersInPlace reader) {n : Nat} (h : LeftmostSteps p reader n ts us)
    (hts : ∀ t ∈ ts, t.HasPlace) : ∀ u ∈ us, u.HasPlace := by
  induction h with
  | refl ts => exact hts
  | head first rest ih => exact ih (first.hasPlace hused hreader hts)

/-! ## Readings -/

namespace Reading

theorem answersInPlace_readUnits : AnswersInPlace readUnits := by
  intro ts _
  obtain hnil | ⟨_, _, _, g, -, hsorted, -, -, hpieces⟩ := readUnits_cases ts
  · exact Or.inl (hnil ▸ Nat.zero_le 1)
  refine Or.inr fun u hu => ?_
  obtain ⟨cs, hcs, place, rfl⟩ := exists_of_mem_pieceTerms (hpieces ▸ hu)
  have hpos := List.length_pos_iff.2 (hsorted.of_mem_pieces cs hcs).1
  exact Nat.lt_of_lt_of_le hpos (length_le_utf8ByteSize_ofList cs)

theorem answersInPlace_readWrittenDate (afternoon numericMonths : Bool) :
    AnswersInPlace (readWrittenDate afternoon numericMonths) := by
  intro ts hts
  refine Or.inr fun u hu => ?_
  obtain ⟨p, t, n, ht, hvalid, -, rfl⟩ := exists_of_mem_readWrittenDate hu
  rw [HasPlace, span_withSpan]
  refine (hts t ht).resolve_right ?_
  rintro rfl
  contradiction

/-- Apart from cut words and written dates there is one answer at most. -/
theorem length_apply_le (x : Surroundings) {r : Reading} (hunits : r ≠ .units)
    (hdate : ∀ afternoon numericMonths, r ≠ .writtenDate afternoon numericMonths) (ts : List Term) :
    (r.apply x ts).length ≤ 1 := by
  cases r with
  | units => contradiction
  | writtenDate afternoon numericMonths => exact absurd rfl (hdate afternoon numericMonths)
  | _ =>
    simp only [apply, readNumbers, readDecimals, readFileSize, readKinds, readFileNames, readCalendarNames,
      readPeriods, readComparator, readProperty, readSubquery]
    repeat' split
    all_goals simp [answer]

/-- Every reading answers with one term at most, or with terms that have places. -/
theorem answersInPlace_apply (x : Surroundings) (r : Reading) : AnswersInPlace (r.apply x) := by
  by_cases hunits : r = .units
  · exact hunits ▸ answersInPlace_readUnits
  cases r with
  | writtenDate afternoon numericMonths => exact answersInPlace_readWrittenDate afternoon numericMonths
  | _ => exact fun ts _ => Or.inl (length_apply_le x hunits (by simp) ts)

end Reading

/-! ## Drafts -/

/-- A token has a place in the text. -/
theorem hasPlace_of_mem_tokenize {s : Settings} {text : String} {t : Term} (h : t ∈ tokenize s text) :
    t.HasPlace :=
  ((Token.tiles_read [] text.toList fun _ => rfl).inside t h).2.1

/-- A moment has the place of the fields of its run. -/
theorem hasPlace_foldDates? {settings : Settings} {now : Instant} {us : List Term}
    (hts : ∀ t ∈ ts, t.HasPlace) (h : foldDates? settings now ts = some us) : ∀ u ∈ us, u.HasPlace := by
  intro u hu
  obtain ⟨hmem, -⟩ | ⟨run, m, hrun, hsubset, -, rfl⟩ := mem_of_foldDates? h hu
  · exact hts u hmem
  · obtain ⟨t, run, rfl, ht⟩ := hrun.first
    have hfield : t ∈ fieldsOf (t :: run) := List.mem_filter.2 ⟨List.mem_cons_self, ht⟩
    exact (covers_spanOf hfield (hts t (hsubset List.mem_cons_self))).2

namespace Draft

variable {x : Surroundings} {cursor : Option Nat} {d : Draft} {ph : Phrasing}

theorem tryPattern_hasPlace (hph : ph ∈ Phrasing.ofDates x.flags ++ Phrasing.afterDates) {pattern : String}
    (hpattern : pattern ∈ ph.patterns) (hd : ∀ t ∈ d.terms, t.HasPlace) :
    ∀ t ∈ (d.tryPattern x cursor ph pattern).terms, t.HasPlace := by
  obtain ⟨p, hp, hruns, hfed⟩ := Phrasing.exists_of_isFed (Phrasing.isFed_of_mem x.flags hph) hpattern
  rw [tryPattern, hp]
  obtain ⟨-, hsteps, -⟩ := rewriteWithin_leftmost p (ph.reading.apply x) maxRewrites d.terms
  exact hsteps.hasPlace (Reading.usesUp_apply x hruns hfed) (Reading.answersInPlace_apply x _) hd

theorem tryPhrasing_hasPlace (hph : ph ∈ Phrasing.ofDates x.flags ++ Phrasing.afterDates)
    (hd : ∀ t ∈ d.terms, t.HasPlace) : ∀ t ∈ (d.tryPhrasing x cursor ph).terms, t.HasPlace :=
  List.foldlRecOn (motive := fun d : Draft => ∀ t ∈ d.terms, t.HasPlace) ph.patterns _ hd
    fun _ hd _ hpattern => tryPattern_hasPlace hph hpattern hd

theorem tryPhrasings_hasPlace {phs : List Phrasing}
    (hphs : ∀ ph ∈ phs, ph ∈ Phrasing.ofDates x.flags ++ Phrasing.afterDates)
    (hd : ∀ t ∈ d.terms, t.HasPlace) : ∀ t ∈ (phs.foldl (tryPhrasing x cursor) d).terms, t.HasPlace :=
  List.foldlRecOn (motive := fun d : Draft => ∀ t ∈ d.terms, t.HasPlace) phs _ hd
    fun _ hd ph hph => tryPhrasing_hasPlace (hphs ph hph) hd

end Draft

end DesktopSearch
