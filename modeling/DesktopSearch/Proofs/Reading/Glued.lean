import DesktopSearch.Proofs.Text.Scan
import DesktopSearch.Reading.Number

/-!
# Glued numbers

A token is cut if it is a number that is glued to something : to a unit, or to a point and decimals.
`Reading.glued?_eq_some_iff` says what such a number is, and `Reading.readUnits_cases` what may become of a
list of terms. The pieces make up the text of the token, stand one behind the other from its start on, and
none of them is cut again.

Tokens are measured in characters, and pieces in bytes. So the pieces of a token tile it if its characters
have one byte each, and only then (`Tiles.length_iff`) : the digits of a number may be those of any script,
and behind others than the ten of ASCII the pieces run past the end of the token (`tiles_readUnits`).
-/

namespace DesktopSearch

/-! ## Bytes and characters -/

/-- A text of one-byte characters has as many bytes as characters. -/
theorem utf8ByteSize_ofList {cs : List Char} (h : ∀ c ∈ cs, c.val ≤ 127) :
    (String.ofList cs).utf8ByteSize = cs.length := by
  induction cs with
  | nil => rfl
  | cons c cs ih =>
    obtain ⟨hc, hcs⟩ := List.forall_mem_cons.1 h
    rw [String.ofList_cons, String.utf8ByteSize_append, String.utf8ByteSize_singleton,
      Char.utf8Size_eq_one_iff.2 hc, ih hcs, List.length_cons, Nat.add_comm]

theorem length_le_utf8ByteSize_ofList (cs : List Char) : cs.length ≤ (String.ofList cs).utf8ByteSize := by
  induction cs with
  | nil => exact Nat.zero_le _
  | cons c cs ih =>
    rw [String.ofList_cons, String.utf8ByteSize_append, String.utf8ByteSize_singleton, List.length_cons]
    have := c.utf8Size_pos
    omega

/-- A text has as many bytes as characters only if each of them has one. -/
theorem val_le_of_utf8ByteSize_ofList {cs : List Char} (h : (String.ofList cs).utf8ByteSize = cs.length) :
    ∀ c ∈ cs, c.val ≤ 127 := by
  induction cs with
  | nil => simp
  | cons c cs ih =>
    rw [String.ofList_cons, String.utf8ByteSize_append, String.utf8ByteSize_singleton, List.length_cons] at h
    have hpos := c.utf8Size_pos
    have hle := length_le_utf8ByteSize_ofList cs
    have hc : c.utf8Size = 1 := by omega
    exact List.forall_mem_cons.2 ⟨Char.utf8Size_eq_one_iff.1 hc, ih (by omega)⟩

theorem utf8ByteSize_eq_length_iff {text : String} :
    text.utf8ByteSize = text.length ↔ ∀ c ∈ text.toList, c.val ≤ 127 := by
  have hsize : text.utf8ByteSize = (String.ofList text.toList).utf8ByteSize := by rw [String.ofList_toList]
  rw [← String.length_toList, hsize]
  exact ⟨val_le_of_utf8ByteSize_ofList, utf8ByteSize_ofList⟩

namespace Reading

variable {cs : List Char} {g : Glued}

/-! ## Glued numbers -/

/-- The letters of units are no digits. -/
theorem not_isDecimalDigit_of_isAlpha {c : Char} (h : c.isAlpha = true) :
    Text.isDecimalDigit c = false := by
  have hranges : ∀ r ∈ Text.digitRanges, r.2 < 65 ∨ 122 < r.1 := by decide
  have hc : 65 ≤ c.val.toNat ∧ c.val.toNat ≤ 122 := by
    rcases Bool.or_eq_true_iff.1 h with hupper | hlower
    · obtain ⟨hlow, hhigh⟩ := of_decide_eq_true hupper
      have hZ : 'Z'.val.toNat ≤ 122 := by decide
      exact ⟨UInt32.le_iff_toNat_le.1 hlow, Nat.le_trans (UInt32.le_iff_toNat_le.1 hhigh) hZ⟩
    · obtain ⟨hlow, hhigh⟩ := Bool.and_eq_true_iff.1 hlower
      have ha : 65 ≤ 'a'.val.toNat := by decide
      exact ⟨Nat.le_trans ha (UInt32.le_iff_toNat_le.1 (of_decide_eq_true hlow)),
        UInt32.le_iff_toNat_le.1 (of_decide_eq_true hhigh)⟩
  rw [Text.isDecimalDigit, Text.inRanges, List.any_eq_false]
  intro r hr
  have hr := hranges r hr
  simp only [Bool.and_eq_true, decide_eq_true_eq, ← Char.toNat_val]
  omega

/-- The letters of a unit are those of ASCII. -/
theorem val_le_of_isAlpha {c : Char} (h : c.isAlpha = true) : c.val ≤ 127 := by
  have hz : 'z'.val ≤ 127 := by decide
  have hZ : 'Z'.val ≤ 127 := by decide
  rcases Bool.or_eq_true_iff.1 h with hupper | hlower
  · exact UInt32.le_trans (of_decide_eq_true hupper).2 hZ
  · exact UInt32.le_trans (of_decide_eq_true (Bool.and_eq_true_iff.1 hlower).2) hz

/-- The point and the decimals of a glued number. -/
def Glued.fraction (g : Glued) : List Char := g.decimals.elim [] ('.' :: ·)

theorem Glued.flatten_pieces (g : Glued) : g.pieces.flatten = g.digits ++ (g.fraction ++ g.unit) := by
  have hunit : (if g.unit = [] then [] else [g.unit]).flatten = g.unit := by
    split <;> simp_all
  cases hdecimals : g.decimals <;> simp [pieces, fraction, hdecimals, hunit]

/-- A glued number has digits, some after the point too if there is one, and its unit is made of letters. -/
structure Glued.IsSorted (g : Glued) : Prop where
  digits : g.digits ≠ [] ∧ ∀ c ∈ g.digits, Text.isDecimalDigit c = true
  decimals : ∀ ds ∈ g.decimals, ds ≠ [] ∧ ∀ c ∈ ds, Text.isDecimalDigit c = true
  unit : ∀ c ∈ g.unit, c.isAlpha = true

/-- Digits, decimals and letters put together are read as such. -/
theorem Glued.IsSorted.glued?_eq (h : g.IsSorted) : glued? g.pieces.flatten = some g := by
  obtain ⟨digits, decimals, unit⟩ := g
  obtain ⟨⟨hsome, hdigits⟩, hdecimals, hunit⟩ := h
  have hhead : ∀ c ∈ unit.head?, Text.isDecimalDigit c = false := fun c hc =>
    not_isDecimalDigit_of_isAlpha (hunit c (List.mem_of_mem_head? hc))
  have hletters : unit.all Char.isAlpha = true := List.all_eq_true.2 hunit
  have hisEmpty : digits.isEmpty = false := List.isEmpty_eq_false_iff.2 hsome
  rw [Glued.flatten_pieces, Glued.fraction, glued?]
  cases decimals with
  | none =>
    -- a unit that starts with a point would be read as decimals
    have hpoint : ∀ rest, unit ≠ '.' :: rest := by
      rintro rest rfl
      exact absurd (hunit '.' List.mem_cons_self) (by decide)
    simp only [Option.elim_none, List.nil_append, Text.takeWhile_append_of_stop hdigits hhead,
      Text.dropWhile_append_of_stop hdigits hhead]
    simp [hisEmpty, hletters]
  | some decimals =>
    obtain ⟨hnonempty, hdecimals⟩ := hdecimals decimals rfl
    have hpoint : ∀ c ∈ ('.' :: (decimals ++ unit)).head?, Text.isDecimalDigit c = false := by
      simp [show Text.isDecimalDigit '.' = false by decide]
    simp only [Option.elim_some, List.cons_append, Text.takeWhile_append_of_stop hdigits hpoint,
      Text.dropWhile_append_of_stop hdigits hpoint, Text.takeWhile_append_of_stop hdecimals hhead,
      Text.dropWhile_append_of_stop hdecimals hhead]
    simp [hisEmpty, hletters, hnonempty]

/-- What is read as a glued number is put together from its digits, its decimals and its letters. -/
theorem of_glued?_eq_some (h : glued? cs = some g) : g.IsSorted ∧ cs = g.pieces.flatten := by
  have hdigits (cs : List Char) : ∀ c ∈ cs.takeWhile Text.isDecimalDigit,
      Text.isDecimalDigit c = true := fun c hc => List.mem_takeWhile_imp hc
  rw [glued?] at h
  split at h
  rename_i decimals unit hrest
  split at h
  · simp at h
  rename_i hparts
  simp only [Bool.or_eq_true, Bool.not_eq_true', not_or, Bool.not_eq_false, List.isEmpty_iff] at hparts
  obtain ⟨⟨hsome, hdecimals⟩, hletters⟩ := hparts
  obtain rfl := Option.some.inj h
  have htail : (∀ ds ∈ decimals, ∀ c ∈ ds, Text.isDecimalDigit c = true) ∧
      cs.dropWhile Text.isDecimalDigit = decimals.elim [] ('.' :: ·) ++ unit := by
    split at hrest
    · rename_i after hpoint
      obtain ⟨rfl, rfl⟩ := Prod.mk.inj hrest
      exact ⟨fun ds hds => Option.some.inj hds ▸ hdigits after, by simp [hpoint]⟩
    · obtain ⟨rfl, rfl⟩ := Prod.mk.inj hrest
      simp
  refine ⟨⟨⟨hsome, hdigits cs⟩, fun ds hds => ⟨?_, htail.1 ds hds⟩, List.all_eq_true.1 hletters⟩, ?_⟩
  · rintro rfl
    have hnil : decimals = some [] := hds
    simp [hnil] at hdecimals
  · rw [Glued.flatten_pieces, Glued.fraction, ← htail.2, List.takeWhile_append_dropWhile]

/-- A glued number is read from the text of its pieces, and from no other. -/
theorem glued?_eq_some_iff : glued? cs = some g ↔ g.IsSorted ∧ cs = g.pieces.flatten :=
  ⟨of_glued?_eq_some, fun ⟨h, hcs⟩ => hcs ▸ h.glued?_eq⟩

/-- A glued number is made of digits, letters and a point. -/
theorem Glued.IsSorted.of_mem_flatten (h : g.IsSorted) : ∀ c ∈ g.pieces.flatten,
    Text.isDecimalDigit c = true ∨ c = '.' ∨ c.isAlpha = true := by
  have hfraction : ∀ c ∈ g.fraction, Text.isDecimalDigit c = true ∨ c = '.' := by
    rw [Glued.fraction]
    cases hdecimals : g.decimals with
    | none => simp
    | some ds =>
      obtain ⟨-, hdigits⟩ := h.decimals ds hdecimals
      exact List.forall_mem_cons.2 ⟨Or.inr rfl, fun c hc => Or.inl (hdigits c hc)⟩
  rw [Glued.flatten_pieces]
  simp only [List.forall_mem_append]
  exact ⟨fun c hc => Or.inl (h.digits.2 c hc), fun c hc => (hfraction c hc).imp_right Or.inl,
    fun c hc => Or.inr (Or.inr (h.unit c hc))⟩

/-- The characters of a glued number have one byte each if its digits are in ASCII. -/
theorem Glued.IsSorted.val_le (h : g.IsSorted)
    (hdigits : ∀ c ∈ g.pieces.flatten, Text.isDecimalDigit c = true → c.isDigit = true) :
    ∀ c ∈ g.pieces.flatten, c.val ≤ 127 := by
  intro c hc
  rcases h.of_mem_flatten c hc with hdigit | rfl | halpha
  · have := hdigits c hc hdigit
    grind [Char.isDigit]
  · decide
  · exact val_le_of_isAlpha halpha

/-! ## Cutting -/

/-- Whether a number that was glued falls apart. -/
def Glued.isCut (g : Glued) : Bool := !(g.decimals.isNone && g.unit.isEmpty)

/-- Whether a text is cut into pieces. -/
def isCuttable (cs : List Char) : Bool := (glued? cs).any Glued.isCut

theorem isCuttable_iff : isCuttable cs = true ↔
    ∃ g : Glued, g.IsSorted ∧ g.isCut = true ∧ cs = g.pieces.flatten := by
  simp only [isCuttable, Option.any_eq_true, glued?_eq_some_iff]
  exact exists_congr fun g => by rw [and_assoc, and_comm (a := g.isCut = true)]

/-- A text that starts with no digit is not cut. -/
theorem not_isCuttable_of_head {c : Char} (hc : Text.isDecimalDigit c = false) :
    isCuttable (c :: cs) = false := by
  simp [isCuttable, glued?, hc]

/-- Digits alone are not cut. -/
theorem not_isCuttable_of_digits (h : ∀ c ∈ cs, Text.isDecimalDigit c = true) :
    isCuttable cs = false := by
  have htake : cs.takeWhile Text.isDecimalDigit = cs := List.takeWhile_eq_self_iff.2 h
  have hdrop : cs.dropWhile Text.isDecimalDigit = [] := List.dropWhile_eq_nil_iff.2 h
  rw [isCuttable, glued?, htake, hdrop]
  dsimp only
  split <;> simp [Glued.isCut]

/-- The pieces of a number are not empty, and none of them is cut again. -/
theorem Glued.IsSorted.of_mem_pieces (h : g.IsSorted) : ∀ cs ∈ g.pieces, cs ≠ [] ∧ isCuttable cs = false := by
  rw [Glued.pieces]
  simp only [List.forall_mem_append, List.forall_mem_cons]
  refine ⟨⟨⟨h.digits.1, not_isCuttable_of_digits h.digits.2⟩, ?_⟩, ?_⟩
  · split
    · rename_i ds hds
      obtain ⟨hsome, hdigits⟩ := h.decimals ds hds
      exact List.forall_mem_cons.2 ⟨⟨by simp, not_isCuttable_of_head (by decide)⟩,
        List.forall_mem_singleton.2 ⟨hsome, not_isCuttable_of_digits hdigits⟩⟩
    · simp
  · split
    · simp
    · rename_i hunit
      refine List.forall_mem_singleton.2 ⟨by simpa using hunit, ?_⟩
      cases hletters : g.unit with
      | nil => simp [hletters] at hunit
      | cons c cs =>
        exact not_isCuttable_of_head (not_isDecimalDigit_of_isAlpha (h.unit c (by simp [hletters])))

theorem exists_of_mem_pieceTerms {start : Nat} {texts : List (List Char)} {u : Term}
    (h : u ∈ pieceTerms start texts) : ∃ cs ∈ texts, ∃ place,
      u = .literal ⟨place, (String.ofList cs).utf8ByteSize⟩ (.string (String.ofList cs)) := by
  induction texts generalizing start with
  | nil => simp [pieceTerms] at h
  | cons cs texts ih =>
    rcases List.mem_cons.1 h with rfl | h
    · exact ⟨cs, List.mem_cons_self, start, rfl⟩
    · obtain ⟨ds, hds, hu⟩ := ih h
      exact ⟨ds, List.mem_cons_of_mem cs hds, hu⟩

theorem exists_literal_of_string? {t : Term} {word : String} (h : t.string? = some word) :
    ∃ s, t = .literal s (.string word) := by
  obtain ⟨l, hl, hword⟩ := Option.bind_eq_some_iff.1 h
  cases t with
  | literal s l' =>
    obtain rfl := Option.some.inj hl
    cases l' with
    | string w => exact ⟨s, by rw [Option.some.inj hword]⟩
    | _ => simp [Literal.string?] at hword
  | _ => simp [Term.literal?] at hl

/-- Nothing is answered, or the first of the terms is a word that is cut, and its pieces are. -/
theorem readUnits_cases (ts : List Term) : readUnits ts = [] ∨
    ∃ (span : Span) (text : String) (rest : List Term) (g : Glued),
      ts = .literal span (.string text) :: rest ∧ g.IsSorted ∧ g.isCut = true ∧
        text.toList = g.pieces.flatten ∧ readUnits ts = pieceTerms span.start g.pieces := by
  cases ts with
  | nil => exact Or.inl rfl
  | cons t rest =>
    rw [readUnits]
    split
    · rename_i g hglued
      obtain ⟨text, htext, hglued⟩ := Option.bind_eq_some_iff.1 hglued
      obtain ⟨span, rfl⟩ := exists_literal_of_string? htext
      obtain ⟨hsorted, hflatten⟩ := glued?_eq_some_iff.1 hglued
      split
      · exact Or.inl rfl
      rename_i hwhole
      have hcut : g.isCut = true := Bool.not_eq_true' _ ▸ Bool.not_eq_true _ ▸ hwhole
      exact Or.inr ⟨span, text, rest, g, rfl, hsorted, hcut, hflatten, rfl⟩
    · exact Or.inl rfl

variable {span : Span} {text : String} {ts : List Term}

theorem readUnits_of_isCut (h : g.IsSorted) (hcut : g.isCut = true) (htext : text.toList = g.pieces.flatten)
    (span : Span) (ts : List Term) :
    readUnits (.literal span (.string text) :: ts) = pieceTerms span.start g.pieces := by
  have hwhole : (g.decimals.isNone && g.unit.isEmpty) = false := Bool.not_eq_true' _ ▸ hcut
  have hglued : glued? text.toList = some g := glued?_eq_some_iff.2 ⟨h, htext⟩
  simp [readUnits, Term.string?, Term.literal?, Literal.string?, hglued, hwhole, Term.span]

/-- The first term is cut if its text can be. -/
theorem readUnits_ne_nil_iff : readUnits (.literal span (.string text) :: ts) ≠ [] ↔
    isCuttable text.toList = true := by
  rw [isCuttable_iff]
  constructor
  · intro h
    obtain hnil | ⟨_, _, _, g, hts, hsorted, hcut, hflatten, -⟩ :=
      readUnits_cases (.literal span (.string text) :: ts)
    · contradiction
    · obtain ⟨⟨rfl, ⟨rfl⟩⟩, rfl⟩ : (_ ∧ _) ∧ _ := by simpa using hts
      exact ⟨g, hsorted, hcut, hflatten⟩
  · rintro ⟨g, hsorted, hcut, hflatten⟩
    rw [readUnits_of_isCut hsorted hcut hflatten, Glued.pieces]
    exact List.cons_ne_nil _ _

/-! ## Tiles -/

/-- The terms stand one behind the other, from a place on up to another. -/
def Abut (start stop : Nat) : List Term → Prop
  | [] => start = stop
  | t :: ts => t.span.start = start ∧ Abut t.span.stop stop ts

/-- The terms are words that make up a text. They are as long as they are measured, and stand one behind the
other from a place on up to another. -/
structure Tiles (measure : String → Nat) (start stop : Nat) (text : String) (ts : List Term) : Prop where
  texts : String.join (ts.filterMap Term.string?) = text
  lengths : ∀ t ∈ ts, ∃ word, t = .literal t.span (.string word) ∧ t.span.length = measure word
  abut : Abut start stop ts

variable {start stop : Nat}

/-- Terms end at one place only. -/
theorem Abut.stop_unique {stop' : Nat} (h : Abut start stop ts) (h' : Abut start stop' ts) : stop = stop' := by
  induction ts generalizing start with
  | nil => exact h.symm.trans h'
  | cons t ts ih => exact ih h.2 h'.2

/-- Words that are measured in bytes are measured in characters, too, if all of these are in ASCII, and only
then. -/
theorem Tiles.length_iff (h : Tiles String.utf8ByteSize start (start + text.utf8ByteSize) text ts) :
    Tiles String.length start (start + text.length) text ts ↔ ∀ c ∈ text.toList, c.val ≤ 127 := by
  constructor
  · intro h'
    exact utf8ByteSize_eq_length_iff.1 (Nat.add_left_cancel (h.abut.stop_unique h'.abut))
  · intro hbytes
    refine ⟨h.texts, fun t ht => ?_, utf8ByteSize_eq_length_iff.2 hbytes ▸ h.abut⟩
    obtain ⟨word, hword, hlength⟩ := h.lengths t ht
    have hmem : word ∈ ts.filterMap Term.string? := List.mem_filterMap.2 ⟨t, ht, by rw [hword]; rfl⟩
    have hsub : ∀ c ∈ word.toList, c.val ≤ 127 := fun c hc =>
      hbytes c (by rw [← h.texts, String.toList_join]; exact List.mem_flatMap.2 ⟨word, hmem, hc⟩)
    exact ⟨word, hword, hlength.trans (utf8ByteSize_eq_length_iff.2 hsub)⟩

theorem abut_pieceTerms (start : Nat) (texts : List (List Char)) :
    Abut start (start + (String.ofList texts.flatten).utf8ByteSize) (pieceTerms start texts) := by
  induction texts generalizing start with
  | nil => rfl
  | cons cs texts ih =>
    rw [List.flatten_cons, String.ofList_append, String.utf8ByteSize_append, ← Nat.add_assoc]
    exact ⟨rfl, ih _⟩

theorem filterMap_string?_pieceTerms (start : Nat) (texts : List (List Char)) :
    (pieceTerms start texts).filterMap Term.string? = texts.map String.ofList := by
  induction texts generalizing start with
  | nil => rfl
  | cons cs texts ih => exact congrArg (String.ofList cs :: ·) (ih _)

theorem tiles_pieceTerms (start : Nat) (texts : List (List Char)) :
    Tiles String.utf8ByteSize start (start + (String.ofList texts.flatten).utf8ByteSize)
      (String.ofList texts.flatten) (pieceTerms start texts) where
  texts := by
    rw [filterMap_string?_pieceTerms, ← String.toList_inj, String.toList_join]
    simp [List.flatMap_map]
  lengths t ht := by
    obtain ⟨cs, -, place, rfl⟩ := exists_of_mem_pieceTerms ht
    exact ⟨String.ofList cs, rfl, rfl⟩
  abut := abut_pieceTerms start texts

/-- A token that is as long as its text is cut if it is a glued number. Its pieces make up its text, stand
one behind the other from its start on, and none of them is cut again. They are measured in bytes, so they
end as many places behind the start as the text has bytes : they are as long as their texts, and end with
the token, if the text is in ASCII, and only then. -/
theorem tiles_readUnits (span : Span) (text : String) (ts : List Term) (hlength : span.length = text.length) :
    let pieces := readUnits (.literal span (.string text) :: ts)
    (pieces ≠ [] ↔
      ∃ g : Glued, g.IsSorted ∧ g.isCut = true ∧ text.toList = g.digits ++ (g.fraction ++ g.unit)) ∧
    (pieces ≠ [] →
      Tiles String.utf8ByteSize span.start (span.start + text.utf8ByteSize) text pieces ∧
      (∀ t ∈ pieces, ∀ us, readUnits (t :: us) = []) ∧
      (Tiles String.length span.start span.stop text pieces ↔ ∀ c ∈ text.toList, c.val ≤ 127)) := by
  intro pieces
  simp only [← Glued.flatten_pieces]
  refine ⟨readUnits_ne_nil_iff.trans isCuttable_iff, fun h => ?_⟩
  obtain ⟨g, hsorted, hcut, htext⟩ := isCuttable_iff.1 (readUnits_ne_nil_iff.1 h)
  have hpieces : pieces = pieceTerms span.start g.pieces := readUnits_of_isCut hsorted hcut htext span ts
  have htiles : Tiles String.utf8ByteSize span.start (span.start + text.utf8ByteSize) text pieces := by
    have hofList : text = String.ofList g.pieces.flatten := by rw [← htext, String.ofList_toList]
    rw [hpieces, hofList]
    exact tiles_pieceTerms span.start g.pieces
  refine ⟨htiles, fun t ht us => ?_, ?_⟩
  · obtain ⟨cs, hcs, place, rfl⟩ := exists_of_mem_pieceTerms (hpieces ▸ ht)
    have huncut : isCuttable (String.ofList cs).toList = false := by
      rw [String.toList_ofList]
      exact (hsorted.of_mem_pieces cs hcs).2
    by_contra hagain
    have hcuttable := readUnits_ne_nil_iff.1 hagain
    rw [huncut] at hcuttable
    contradiction
  · rw [Span.stop, hlength]
    exact htiles.length_iff

/-- A size of one and a half kilobytes, behind seven characters. -/
theorem tiles_readUnits_size :
    let pieces := readUnits [.literal ⟨7, 5⟩ (.string "1.5KB")]
    (⟨7, 5⟩ : Span).length = "1.5KB".length ∧ pieces.length = 4 ∧
      Tiles String.length 7 12 "1.5KB" pieces := by
  intro pieces
  have hlength : (⟨7, 5⟩ : Span).length = "1.5KB".length := by decide
  have hpieces : pieces.length = 4 := by decide +kernel
  have hcut : pieces ≠ [] := List.ne_nil_of_length_pos (by rw [hpieces]; decide)
  obtain ⟨-, htiles⟩ := tiles_readUnits ⟨7, 5⟩ "1.5KB" [] hlength
  obtain ⟨-, -, hcharacters⟩ := htiles hcut
  exact ⟨hlength, hpieces, hcharacters.2 (utf8ByteSize_eq_length_iff.1 (by decide))⟩

/-- Behind a digit of two bytes the pieces run past the end of the token. -/
theorem not_tiles_readUnits_digit :
    let token := Term.literal ⟨0, 3⟩ (.string "\u0663KB")
    "\u0663KB".length = 3 ∧
      readUnits [token] = [.literal ⟨0, 2⟩ (.string "\u0663"), .literal ⟨2, 2⟩ (.string "KB")] ∧
      ¬Tiles String.length 0 3 "\u0663KB" (readUnits [token]) := by
  intro token
  have hglued : glued? "\u0663KB".toList = some ⟨['\u0663'], none, ['K', 'B']⟩ := rfl
  obtain ⟨hsorted, hflatten⟩ := glued?_eq_some_iff.1 hglued
  have hpieces : readUnits [token] = [.literal ⟨0, 2⟩ (.string "\u0663"), .literal ⟨2, 2⟩ (.string "KB")] :=
    readUnits_of_isCut hsorted rfl hflatten ⟨0, 3⟩ []
  refine ⟨by decide, hpieces, fun h => ?_⟩
  have hstop : 4 = 3 := (hpieces ▸ h.abut).2.2
  exact absurd hstop (by decide)

end DesktopSearch.Reading
