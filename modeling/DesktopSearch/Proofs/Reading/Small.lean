import DesktopSearch.Proofs.Dates.Checked
import DesktopSearch.Proofs.Parser.Answer
import DesktopSearch.Proofs.Pattern.Rewriting
import DesktopSearch.Proofs.Term.Markup

/-!
# Small integers

The integers that are read before dates are folded, and the numbers of calendar fields, are `Term.Small` :
they have 64 bits with either sign, so that they may count ahead or back (`Reading.keeps_small`). Digits
have no sign, words for numbers are places of lists, sizes of files are kept inside, and parts of written
dates have bounds of their own.
-/

namespace DesktopSearch

open Text

/-- The places of all names and words have 64 bits, as those of all lists that the program can hold. -/
structure Settings.NamesFit (s : Settings) : Prop extends s.Fits where
  months : s.monthNames.length < int64Limit
  weekdays : s.weekdayNames.length < int64Limit

/-- The integers of the term have 64 bits with either sign. -/
def Term.Small (t : Term) : Prop := ∀ n : Int, .integer n ∈ t.literals → n.natAbs < int64Limit

namespace Term

variable {t : Term} {n : Int}

theorem mem_literals_of_integer? (h : t.integer? = some n) : .integer n ∈ t.literals := by
  obtain ⟨s, rfl⟩ := Reading.exists_literal_of_integer? h
  exact List.mem_singleton_self _

theorem mem_literals_of_fieldParts? {p : Uri} (h : t.fieldParts? = some (p, n)) :
    .integer n ∈ t.literals := by
  cases t with
  | comparison s c value =>
    obtain ⟨q, -, hvalue⟩ := Option.bind_eq_some_iff.1 h
    obtain ⟨-, hvalue⟩ := Option.ite_none_right_eq_some.1 hvalue
    obtain ⟨m, hm, hpair⟩ := Option.bind_eq_some_iff.1 hvalue
    obtain ⟨-, rfl⟩ := Prod.mk.inj (Option.some.inj hpair)
    exact mem_literals_of_integer? (t := value) hm
  | _ => simp [fieldParts?] at h

theorem literals_withSpan (t : Term) (s : Span) : (t.withSpan s).literals = t.literals := by
  cases t <;> rfl

theorem small_of_literals_eq (ht : t.literals = [.integer n]) (hn : n.natAbs < int64Limit) : t.Small := by
  intro m hm
  rw [ht, List.mem_singleton] at hm
  exact Literal.integer.inj hm ▸ hn

/-- A term without integers is small. -/
theorem small_of_forall_ne (h : ∀ n, .integer n ∉ t.literals) : t.Small :=
  fun n hn => absurd hn (h n)

theorem small_string (s : Span) (word : String) : (literal s (.string word)).Small :=
  small_of_forall_ne fun n => by simp [literals]

theorem small_absoluteField (p : Period) (hn : n.natAbs < int64Limit) : (absoluteField p n).Small :=
  small_of_literals_eq rfl hn

theorem small_relativeField (p : Period) (hn : n.natAbs < int64Limit) : (relativeField p n).Small :=
  small_of_literals_eq rfl hn

theorem Small.withSpan (h : t.Small) (s : Span) : (t.withSpan s).Small := by
  rw [Small, literals_withSpan]
  exact h

theorem Small.nothing : Term.nothing.Small :=
  small_of_forall_ne fun n => by simp [Term.nothing, literals]

theorem Small.of_integer? (h : t.Small) (hn : t.integer? = some n) : n.natAbs < int64Limit :=
  h n (mem_literals_of_integer? hn)

/-- The number of a field of a small term is small. -/
theorem Small.of_fieldNumber? (h : t.Small) {p : Period} (hn : t.fieldNumber? p = some n) :
    n.natAbs < int64Limit := by
  obtain ⟨⟨property, m⟩, hparts, hn⟩ := Option.bind_eq_some_iff.1 hn
  obtain ⟨-, hm⟩ := Option.ite_none_right_eq_some.1 hn
  exact Option.some.inj hm ▸ h m (mem_literals_of_fieldParts? hparts)

/-- A field with a small integer has 64 bits. -/
theorem Small.fits_field (h : t.Small) {p : Period} {f : Field} (hf : t.field? = some (p, f)) : f.Fits := by
  obtain ⟨⟨property, m⟩, hparts, hf⟩ := Option.bind_eq_some_iff.1 hf
  obtain ⟨host, -, hf⟩ := Option.bind_eq_some_iff.1 hf
  obtain ⟨q, -, hf⟩ := Option.bind_eq_some_iff.1 hf
  obtain ⟨-, rfl⟩ := Prod.mk.inj (Option.some.inj hf)
  have hm := hasInt64_of_natAbs_lt (h m (mem_literals_of_fieldParts? hparts))
  intro v hv
  have hvm : m = v := by
    split at hv <;> simpa using hv
  exact hvm ▸ hm

end Term

namespace Reading

variable {settings : Settings} {ts : List Term} {u : Term}

/-! ## Numbers -/

/-- Pieces of a word are words. -/
theorem small_of_mem_readUnits (hu : u ∈ readUnits ts) : u.Small := by
  obtain hnil | ⟨_, _, _, g, -, -, -, -, hpieces⟩ := readUnits_cases ts
  · simp [hnil] at hu
  · obtain ⟨cs, -, place, rfl⟩ := exists_of_mem_pieceTerms (hpieces ▸ hu)
    exact Term.small_string _ _

/-- Digits have no sign. -/
theorem natAbs_lt_of_readInt? {cs : List Char} {n : Int} (hdigits : cs.all Char.isDigit = true)
    (h : readInt? int64Limit cs = some n) : n.natAbs < int64Limit := by
  have hbounds := of_readInt?_eq_some h
  have hnonneg : 0 ≤ n := by
    have hnat {digits : List Char} (hn : (readDigits? digits).map Int.ofNat = some n) : 0 ≤ n := by
      obtain ⟨k, -, rfl⟩ := Option.map_eq_some_iff.1 hn
      exact Int.natCast_nonneg k
    obtain ⟨hvalue, -⟩ := Option.filter_eq_some_iff.1 h
    split at hvalue
    · exact hnat hvalue
    · simp at hdigits
    · exact hnat hvalue
  omega

/-- A word for a number is a place in a list, and digits are read inside 64 bits. -/
theorem small_of_mem_readNumbers (h : settings.NamesFit) (hu : u ∈ readNumbers settings ts) :
    u.Small := by
  obtain hnil | ⟨_, word, _, n, -, hn, hread⟩ := readNumbers_cases settings ts
  · simp [hnil] at hu
  rw [hread, answer, List.mem_singleton] at hu
  refine Term.small_of_literals_eq (congrArg Term.literals hu) ?_
  rw [number?] at hn
  split at hn
  · rename_i hdigits
    exact natAbs_lt_of_readInt? (Bool.and_eq_true_iff.1 hdigits).2 hn
  · obtain ⟨k, hk, rfl⟩ := Option.map_eq_some_iff.1 hn
    exact h.number?_lt hk

theorem small_of_mem_readDecimals (hu : u ∈ readDecimals ts) : u.Small := by
  obtain hnil | ⟨_, _, _, _, _, d, -, hread⟩ := readDecimals_cases ts
  · simp [hnil] at hu
  · rw [hread, answer, List.mem_singleton] at hu
    exact hu ▸ Term.small_of_forall_ne fun n => by simp [Term.ofLiteral, Term.literals]

/-- A size of a file is kept inside 64 bits. -/
theorem small_of_mem_readFileSize (hu : u ∈ readFileSize ts) : u.Small := by
  obtain hnil | ⟨_, _, _, _, n, -, hlt, hread⟩ := readFileSize_cases ts
  · simp [hnil] at hu
  · rw [hread, answer, List.mem_singleton] at hu
    exact Term.small_of_literals_eq (congrArg Term.literals hu) hlt

theorem small_of_mem_readKinds (hu : u ∈ readKinds ts) : u.Small := by
  obtain hnil | ⟨_, _, _, v, -, -, hread⟩ := readKinds_cases ts
  · simp [hnil] at hu
  · rw [hread, List.mem_singleton] at hu
    exact hu ▸ Term.small_of_forall_ne fun n => by simp [Term.literals]

theorem small_of_mem_readFileNames (hu : u ∈ readFileNames ts) : u.Small := by
  obtain hnil | ⟨s, _, _, c, name, -, hread⟩ := readFileNames_cases ts
  · simp [hnil] at hu
  · rw [hread, List.mem_singleton] at hu
    refine hu ▸ Term.Small.withSpan (Term.small_of_forall_ne fun n => ?_) s
    simp [Term.compare, Term.literals]

/-! ## Dates -/

/-- The name of a month or of a day of the week is a place in a list. -/
theorem small_of_mem_readCalendarNames (h : settings.NamesFit)
    (hu : u ∈ readCalendarNames settings ts) : u.Small := by
  have hlt {entries : List String} (hentries : entries.length < int64Limit) {word : String} {n : Nat}
      (hn : (Settings.place? entries word).map (· + 1) = some n) : n < int64Limit := by
    obtain ⟨i, hi, rfl⟩ := Option.map_eq_some_iff.1 hn
    exact (Nat.succ_le_of_lt (Settings.place?_lt hi)).trans_lt hentries
  obtain hnil | ⟨_, _, _, p, n, -, hn, hread⟩ := readCalendarNames_cases settings ts
  · simp [hnil] at hu
  rw [hread, List.mem_singleton] at hu
  obtain ⟨-, hn⟩ | ⟨-, hn⟩ := hn
  · exact hu ▸ Term.small_absoluteField p (hlt h.months hn)
  · exact hu ▸ Term.small_absoluteField p (hlt h.weekdays hn)

/-- What a period counts is the number that is given, or the one that stands beside it. -/
theorem natAbs_lt_of_numberBeside? {number n : Int} (hnumber : number.natAbs < int64Limit)
    (hts : ∀ t ∈ ts, t.Small) (h : numberBeside? number ts = some n) : n.natAbs < int64Limit := by
  rw [numberBeside?] at h
  split at h
  · rename_i t ht
    exact (hts t (List.mem_of_getElem? ht)).of_integer? h
  · exact Option.some.inj h ▸ hnumber

/-- A small number counts back without being wrapped. -/
theorem countedField_back (p : Period) {n : Int} (h : n.natAbs < int64Limit) :
    countedField p n .back = .relativeField p (-n) := by
  have hbounds := hasInt64_iff.1 (hasInt64_of_natAbs_lt (v := -n) (by omega))
  rw [countedField, wrap_eq_self hbounds.1 hbounds.2]

theorem small_of_mem_readPeriods {fixed : Option Period} {counting : Counting} {number : Int}
    (hnumber : number.natAbs < int64Limit) (hts : ∀ t ∈ ts, t.Small)
    (hu : u ∈ readPeriods settings fixed counting number ts) : u.Small := by
  obtain hnil | ⟨p, n, -, hbeside, hread⟩ := readPeriods_cases settings fixed counting number ts
  · simp [hnil] at hu
  · obtain rfl := List.mem_singleton.1 (hread ▸ hu)
    have hlt := natAbs_lt_of_numberBeside? hnumber hts hbeside
    cases counting with
    | absolute => exact Term.small_absoluteField p hlt
    | ahead => exact Term.small_relativeField p hlt
    | back =>
      rw [countedField_back p hlt]
      exact Term.small_relativeField p (by omega)

/-- A number in range lies between the bounds. -/
theorem bounds_of_inRange? {low high n : Int} {t : Term} (h : inRange? low high t = some n) :
    low ≤ n ∧ n ≤ high := by
  obtain ⟨-, hbounds⟩ := Option.filter_eq_some_iff.1 h
  simpa using hbounds

/-- The parts of a written date have bounds of their own, apart from the day of the week, which is a small
field. -/
theorem natAbs_lt_of_slotValue? {afternoon numericMonths : Bool} {p : Period} {t : Term} (ht : t.Small)
    {n : Int} (h : slotValue? afternoon numericMonths p t = some n) : n.natAbs < int64Limit := by
  have hlimit : 9999 < int64Limit := by decide
  have hrange {low high m : Int} (hm : inRange? low high t = some m) : low ≤ m ∧ m ≤ high :=
    bounds_of_inRange? hm
  cases p with
  | month =>
    rw [slotValue?] at h
    split at h
    · have := hrange h
      omega
    · exact ht.of_fieldNumber? (Option.filter_eq_some_iff.1 h).1
  | week => simp [slotValue?] at h
  | dayOfWeek => exact ht.of_fieldNumber? h
  | hour =>
    rw [slotValue?] at h
    split at h
    · obtain ⟨m, hm, rfl⟩ := Option.map_eq_some_iff.1 h
      have := hrange hm
      split <;> omega
    · have := hrange h
      omega
  | _ =>
    have := hrange h
    omega

theorem small_of_mem_readWrittenDate {afternoon numericMonths : Bool} (hts : ∀ t ∈ ts, t.Small)
    (hu : u ∈ readWrittenDate afternoon numericMonths ts) : u.Small := by
  obtain ⟨p, t, n, ht, -, hn, rfl⟩ := exists_of_mem_readWrittenDate hu
  exact (Term.small_absoluteField p (natAbs_lt_of_slotValue? (hts t ht) hn)).withSpan t.span

/-! ## All readings -/

/-- A fixed number next to a period has 64 bits with either sign. -/
def FixesSmall : Reading → Prop
  | .periods _ _ number => number.natAbs < int64Limit
  | _ => True

variable {x : Surroundings} {r : Reading}

/-- Slots that nothing has filled hold no integer. -/
theorem small_of_captured (hts : ∀ t ∈ ts, t.Small ∨ t = .nothing) : ∀ t ∈ ts, t.Small := by
  intro t ht
  obtain hsmall | rfl := hts t ht
  · exact hsmall
  · exact .nothing

/-- The readings before dates are folded keep integers small. -/
theorem keeps_small (h : x.settings.NamesFit) (hr : r.IsBeforeDates) (hfixed : r.FixesSmall) :
    Keeps Term.Small (r.apply x) := by
  intro ts hts u hu
  have hts := small_of_captured hts
  cases r with
  | units => exact small_of_mem_readUnits hu
  | numbers => exact small_of_mem_readNumbers h hu
  | decimals => exact small_of_mem_readDecimals hu
  | fileSize => exact small_of_mem_readFileSize hu
  | kinds => exact small_of_mem_readKinds hu
  | fileNames => exact small_of_mem_readFileNames hu
  | calendarNames => exact small_of_mem_readCalendarNames h hu
  | periods fixed counting number => exact small_of_mem_readPeriods hfixed hts hu
  | writtenDate afternoon numericMonths => exact small_of_mem_readWrittenDate hts hu
  | _ => contradiction

end Reading

/-- The numbers that phrasings of dates fix are small. -/
theorem Phrasing.fixesSmall_of_mem_ofDates {flags : ParserFlags} {ph : Phrasing} (h : ph ∈ ofDates flags) :
    ph.reading.FixesSmall := by
  have hall : ∀ ph ∈ ofDates flags, ph.reading.FixesSmall := by
    have hvalues : ∀ ph ∈ ofValues flags, ph.reading.FixesSmall := by
      rw [ofValues, List.forall_mem_append]
      refine ⟨by simp [Reading.FixesSmall], ?_⟩
      split <;> simp [Reading.FixesSmall]
    have hperiods : ∀ ph ∈ ofPeriods, ph.reading.FixesSmall := by
      have hlimit : 0 < int64Limit ∧ 1 < int64Limit := by decide
      simp [ofPeriods, proposed, Reading.FixesSmall, hlimit]
    have hdates : ∀ ph ∈ ofWrittenDates, ph.reading.FixesSmall := by
      simp [ofWrittenDates, proposed, Reading.FixesSmall]
    exact List.forall_mem_append.2 ⟨List.forall_mem_append.2 ⟨hvalues, hperiods⟩, hdates⟩
  exact hall ph h

end DesktopSearch
