import DesktopSearch.Text.Escape
import Mathlib.Data.List.Basic

/-!
# Regular expressions

The regular expressions that are written into queries, as far as they are used there : characters, which
stand behind a backslash if they are operators, `.`, `[^c]`, the anchors `^` and `$`, the star, bars between
alternatives, and groups in parentheses. `Regexp.read?` reads a text as an expression, first as marks
(`Regexp.marks?`) and then these as an expression (`Regexp.readMarks?`); the star binds tighter than the
sequence, and the sequence tighter than the bar.

What an expression matches may depend on what stands around it (`Regexp.Matches`), and characters are
compared through a folding, which leaves them apart or takes those for one that differ in case. An expression
is found in a text if it matches any part of it (`Regexp.FoundIn`).

A text `Writes` a sequence of expressions if reading it adds them to the alternative that is being read,
wherever it stands. The rules for that follow the ways to put a text together (`Writes.append`, `Writes.star`,
`Writes.group`), so that reading a text that is written by these rules takes no look at the reader.
-/

namespace DesktopSearch

/-- A regular expression. -/
inductive Regexp where
  | char (c : Char)
  | any
  /-- Any character but one. -/
  | except (c : Char)
  /-- The start of the text. -/
  | start
  /-- The end of the text. -/
  | finish
  | many (e : Regexp)
  | seq (es : List Regexp)
  | either (es : List Regexp)

namespace Regexp

/-! ## Meaning -/

/-- The expression matches the text `x` between `before` and `after`. -/
inductive Matches (fold : Char → Char) : Regexp → (before x after : List Char) → Prop
  | char {c d : Char} {before after : List Char} (h : fold d = fold c) :
    Matches fold (.char c) before [d] after
  | any (d : Char) {before after : List Char} : Matches fold .any before [d] after
  | except {c d : Char} {before after : List Char} (h : fold d ≠ fold c) :
    Matches fold (.except c) before [d] after
  | start {after : List Char} : Matches fold .start [] [] after
  | finish {before : List Char} : Matches fold .finish before [] []
  | many_nil {e : Regexp} {before after : List Char} : Matches fold (.many e) before [] after
  | many_cons {e : Regexp} {before x y after : List Char} (one : Matches fold e before x (y ++ after))
    (rest : Matches fold (.many e) (before ++ x) y after) :
    Matches fold (.many e) before (x ++ y) after
  | seq_nil {before after : List Char} : Matches fold (.seq []) before [] after
  | seq_cons {e : Regexp} {es : List Regexp} {before x y after : List Char}
    (one : Matches fold e before x (y ++ after))
    (rest : Matches fold (.seq es) (before ++ x) y after) :
    Matches fold (.seq (e :: es)) before (x ++ y) after
  | either {e : Regexp} {es : List Regexp} {before x after : List Char} (mem : e ∈ es)
    (one : Matches fold e before x after) : Matches fold (.either es) before x after

/-- The expression matches a part of the text. -/
def FoundIn (fold : Char → Char) (e : Regexp) (text : List Char) : Prop :=
  ∃ before x after, text = before ++ x ++ after ∧ e.Matches fold before x after

section Meaning

variable {fold : Char → Char} {e : Regexp} {es fs : List Regexp} {before x after : List Char}

theorem matches_char_iff {c : Char} :
    Matches fold (.char c) before x after ↔ ∃ d, x = [d] ∧ fold d = fold c := by
  constructor
  · rintro (h | _)
    exact ⟨_, rfl, h⟩
  · rintro ⟨d, rfl, h⟩
    exact .char h

theorem matches_start_iff : Matches fold .start before x after ↔ before = [] ∧ x = [] := by
  constructor
  · rintro ⟨⟩
    exact ⟨rfl, rfl⟩
  · rintro ⟨rfl, rfl⟩
    exact .start

theorem matches_finish_iff : Matches fold .finish before x after ↔ x = [] ∧ after = [] := by
  constructor
  · rintro ⟨⟩
    exact ⟨rfl, rfl⟩
  · rintro ⟨rfl, rfl⟩
    exact .finish

theorem matches_seq_nil_iff : Matches fold (.seq []) before x after ↔ x = [] := by
  constructor
  · rintro ⟨⟩
    rfl
  · rintro rfl
    exact .seq_nil

theorem matches_seq_cons_iff : Matches fold (.seq (e :: es)) before x after ↔
    ∃ y z, x = y ++ z ∧ e.Matches fold before y (z ++ after) ∧
      Matches fold (.seq es) (before ++ y) z after := by
  constructor
  · intro h
    cases h with
    | seq_cons one rest => exact ⟨_, _, rfl, one, rest⟩
  · rintro ⟨y, z, rfl, one, rest⟩
    exact .seq_cons one rest

theorem matches_seq_append_iff : Matches fold (.seq (es ++ fs)) before x after ↔
    ∃ y z, x = y ++ z ∧ Matches fold (.seq es) before y (z ++ after) ∧
      Matches fold (.seq fs) (before ++ y) z after := by
  induction es generalizing before x with
  | nil =>
    constructor
    · exact fun h => ⟨[], x, rfl, .seq_nil, by rwa [List.append_nil]⟩
    · rintro ⟨y, z, rfl, hy, hz⟩
      rw [matches_seq_nil_iff] at hy
      subst hy
      rwa [List.append_nil] at hz
  | cons e es ih =>
    rw [List.cons_append, matches_seq_cons_iff]
    constructor
    · rintro ⟨y, z, rfl, hy, hz⟩
      obtain ⟨u, v, rfl, hu, hv⟩ := ih.1 hz
      refine ⟨y ++ u, v, (List.append_assoc ..).symm, ?_, by rwa [← List.append_assoc]⟩
      exact .seq_cons (by rwa [← List.append_assoc]) hu
    · rintro ⟨y, z, rfl, hy, hz⟩
      obtain ⟨u, v, rfl, hu, hv⟩ := matches_seq_cons_iff.1 hy
      refine ⟨u, v ++ z, List.append_assoc .., by rwa [List.append_assoc], ?_⟩
      exact ih.2 ⟨v, z, rfl, hv, by rwa [List.append_assoc]⟩

theorem matches_seq_singleton_iff :
    Matches fold (.seq [e]) before x after ↔ e.Matches fold before x after := by
  rw [matches_seq_cons_iff]
  constructor
  · rintro ⟨y, z, rfl, hy, hz⟩
    rw [matches_seq_nil_iff] at hz
    subst hz
    rwa [List.append_nil]
  · exact fun h => ⟨x, [], (List.append_nil x).symm, h, .seq_nil⟩

theorem matches_either_iff :
    Matches fold (.either es) before x after ↔ ∃ e ∈ es, e.Matches fold before x after := by
  constructor
  · intro h
    cases h with
    | either mem one => exact ⟨_, mem, one⟩
  · rintro ⟨e, mem, one⟩
    exact .either mem one

/-- Characters in sequence match the texts that differ from them in what is folded at most. -/
theorem matches_chars_iff {cs : List Char} :
    Matches fold (.seq (cs.map .char)) before x after ↔ x.map fold = cs.map fold := by
  induction cs generalizing before x with
  | nil => rw [List.map_nil, matches_seq_nil_iff, List.map_nil, List.map_eq_nil_iff]
  | cons c cs ih =>
    rw [List.map_cons, matches_seq_cons_iff]
    constructor
    · rintro ⟨y, z, rfl, hy, hz⟩
      obtain ⟨d, rfl, hd⟩ := matches_char_iff.1 hy
      rw [List.singleton_append, List.map_cons, List.map_cons, hd, ih.1 hz]
    · intro h
      rw [List.map_cons, List.map_eq_cons_iff] at h
      obtain ⟨d, z, rfl, hd, hz⟩ := h
      exact ⟨[d], z, rfl, .char hd, ih.2 hz⟩

/-- A run of any characters matches every text. -/
theorem matches_many_any (before x after : List Char) : Matches fold (.many .any) before x after := by
  induction x generalizing before with
  | nil => exact .many_nil
  | cons d x ih => exact .many_cons (x := [d]) (.any d) (ih _)

/-- A run of characters that are not `c` matches the texts without `c`. -/
theorem matches_many_except_iff {c : Char} :
    Matches fold (.many (.except c)) before x after ↔ ∀ d ∈ x, fold d ≠ fold c := by
  constructor
  · generalize he : Regexp.many (.except c) = e
    intro h
    induction h with
    | many_nil => simp
    | many_cons one rest _ ih =>
      obtain rfl := (many.inj he).symm
      cases one with
      | except h => simpa using ⟨h, ih he⟩
    | _ => contradiction
  · intro h
    induction x generalizing before with
    | nil => exact .many_nil
    | cons d x ih =>
      rw [List.forall_mem_cons] at h
      exact .many_cons (x := [d]) (.except h.1) (ih h.2)

theorem foundIn_either_iff {text : List Char} :
    FoundIn fold (.either es) text ↔ ∃ e ∈ es, FoundIn fold e text := by
  simp only [FoundIn, matches_either_iff]
  constructor
  · rintro ⟨before, x, after, htext, e, he, h⟩
    exact ⟨e, he, before, x, after, htext, h⟩
  · rintro ⟨e, he, before, x, after, htext, h⟩
    exact ⟨before, x, after, htext, e, he, h⟩

theorem foundIn_seq_singleton_iff {text : List Char} :
    FoundIn fold (.seq [e]) text ↔ FoundIn fold e text := by
  simp only [FoundIn, matches_seq_singleton_iff]

/-- An expression that is anchored at the start is looked for there only. -/
theorem foundIn_start_iff {text : List Char} :
    FoundIn fold (.seq (.start :: es)) text ↔
      ∃ x after, text = x ++ after ∧ Matches fold (.seq es) [] x after := by
  constructor
  · rintro ⟨before, x, after, rfl, h⟩
    obtain ⟨y, z, rfl, hy, hz⟩ := matches_seq_cons_iff.1 h
    obtain ⟨rfl, rfl⟩ := matches_start_iff.1 hy
    exact ⟨z, after, rfl, hz⟩
  · rintro ⟨x, after, rfl, h⟩
    exact ⟨[], x, after, rfl, .seq_cons (x := []) .start h⟩

theorem matches_seq_finish_iff : Matches fold (.seq (es ++ [.finish])) before x after ↔
    after = [] ∧ Matches fold (.seq es) before x [] := by
  rw [matches_seq_append_iff]
  constructor
  · rintro ⟨y, z, rfl, hy, hz⟩
    rw [matches_seq_singleton_iff, matches_finish_iff] at hz
    obtain ⟨rfl, rfl⟩ := hz
    rw [List.append_nil] at hy ⊢
    exact ⟨rfl, hy⟩
  · rintro ⟨rfl, h⟩
    exact ⟨x, [], (List.append_nil x).symm, h, matches_seq_singleton_iff.2 .finish⟩

/-- An expression that is anchored at both ends has to match the whole text. -/
theorem foundIn_start_finish_iff {text : List Char} :
    FoundIn fold (.seq (.start :: (es ++ [.finish]))) text ↔ Matches fold (.seq es) [] text [] := by
  rw [foundIn_start_iff]
  constructor
  · rintro ⟨x, after, rfl, h⟩
    obtain ⟨rfl, h⟩ := matches_seq_finish_iff.1 h
    rwa [List.append_nil]
  · exact fun h => ⟨text, [], (List.append_nil text).symm, matches_seq_finish_iff.2 ⟨rfl, h⟩⟩

theorem foundIn_anchored_iff {e : Regexp} {text : List Char} :
    FoundIn fold (.seq [.start, e, .finish]) text ↔ Matches fold e [] text [] := by
  rw [← matches_seq_singleton_iff, ← foundIn_start_finish_iff, List.singleton_append]

end Meaning

/-! ## Reading -/

/-- A star is read behind anything but an anchor or another star. -/
def isRepeatable : Regexp → Bool
  | start | finish | many _ => false
  | _ => true

/-- A group that is being read : the alternatives in front, and the pieces of the current one. -/
structure Level where
  finished : List Regexp
  current : List Regexp

namespace Level

/-- A group in which nothing has been read. -/
def opened : Level := ⟨[], []⟩

/-- The expression of the group. -/
def regexp (l : Level) : Regexp := .either (l.finished ++ [.seq l.current])

/-- Reads some more pieces. -/
def add (l : Level) (es : List Regexp) : Level := { l with current := l.current ++ es }

/-- Starts another alternative. -/
def alternative (l : Level) : Level := ⟨l.finished ++ [.seq l.current], []⟩

/-- Lets the last piece be repeated. -/
def star? (l : Level) : Option Level :=
  match l.current.getLast? with
  | some e =>
    if e.isRepeatable then some { l with current := l.current.dropLast ++ [.many e] } else none
  | none => none

theorem star?_add {e : Regexp} (he : e.isRepeatable) (l : Level) :
    (l.add [e]).star? = some (l.add [.many e]) := by
  simp [add, star?, he]

/-- With each alternative that is started the expression gets another one. -/
theorem regexp_foldl_alternative {α : Type} (pieces : α → List Regexp) (as : List α) (l : Level) :
    (as.foldl (fun l a => l.alternative.add (pieces a)) l).regexp =
      .either (l.finished ++ .seq l.current :: as.map fun a => .seq (pieces a)) := by
  induction as generalizing l with
  | nil => rfl
  | cons a as ih =>
    rw [List.foldl_cons, ih]
    simp [add, alternative]

end Level

/-- What a text is read as, character by character : an expression that needs no other one, or something
that puts expressions together. -/
inductive Mark where
  | piece (e : Regexp)
  | star
  | bar
  | opening
  | closing
  | classOpening
  | classClosing

/-- What a character is read as by itself. -/
def mark? (c : Char) : Option Mark :=
  if c = '.' then some (.piece .any)
  else if c = '^' then some (.piece .start)
  else if c = '$' then some (.piece .finish)
  else if c = '*' then some .star
  else if c = '|' then some .bar
  else if c = '(' then some .opening
  else if c = ')' then some .closing
  else if c = '[' then some .classOpening
  else if c = ']' then some .classClosing
  else if Text.isPatternOperator c then none
  else some (.piece (.char c))

theorem mark?_of_not_isPatternOperator {c : Char} (hc : ¬ Text.isPatternOperator c) :
    mark? c = some (.piece (.char c)) := by
  have hne {d : Char} (hd : Text.isPatternOperator d) : c ≠ d := fun h => hc (h ▸ hd)
  rw [mark?, if_neg (hne rfl), if_neg (hne rfl), if_neg (hne rfl), if_neg (hne rfl),
    if_neg (hne rfl), if_neg (hne rfl), if_neg (hne rfl), if_neg (hne rfl), if_neg (hne rfl),
    if_neg hc]

/-- The marks of a text. -/
def marks? : List Char → Option (List Mark)
  | [] => some []
  | '\\' :: c :: cs =>
    if Text.isPatternOperator c then (marks? cs).map (.piece (.char c) :: ·) else none
  | c :: cs => (mark? c).bind fun m => (marks? cs).map (m :: ·)

/-- Reads marks, given the innermost group and those around it. -/
def readMarks? : Level → List Level → List Mark → Option Regexp
  | l, outer, [] => if outer.isEmpty then some l.regexp else none
  | l, outer, .piece e :: ms => readMarks? (l.add [e]) outer ms
  | l, outer, .star :: ms => (l.star?).bind fun l => readMarks? l outer ms
  | l, outer, .bar :: ms => readMarks? l.alternative outer ms
  | l, outer, .opening :: ms => readMarks? .opened (l :: outer) ms
  | l, outer, .closing :: ms =>
    match outer with
    | next :: outer => readMarks? (next.add [l.regexp]) outer ms
    | [] => none
  | l, outer, .classOpening :: .piece .start :: .piece (.char c) :: .classClosing :: ms =>
    readMarks? (l.add [.except c]) outer ms
  | _, _, .classOpening :: _ | _, _, .classClosing :: _ => none

/-- The expression that a text writes. -/
def read? (cs : List Char) : Option Regexp := (marks? cs).bind (readMarks? .opened [])

/-- The text is read as the marks, whatever stands behind it. -/
def Spells (cs : List Char) (ms : List Mark) : Prop :=
  ∀ rest, marks? (cs ++ rest) = (marks? rest).map (ms ++ ·)

namespace Spells

variable {cs ds : List Char} {ms ns : List Mark}

theorem nil : Spells [] [] := by
  intro rest
  simp

theorem append (hcs : Spells cs ms) (hds : Spells ds ns) : Spells (cs ++ ds) (ms ++ ns) := by
  intro rest
  rw [List.append_assoc, hcs, hds, Option.map_map]
  congr 1
  ext rest
  simp

theorem of_mark? {c : Char} {m : Mark} (h : mark? c = some m) : Spells [c] [m] := by
  intro rest
  rw [List.singleton_append, marks?, h]
  · rfl
  · rintro d ds rfl
    contradiction

theorem plain {c : Char} (hc : ¬ Text.isPatternOperator c) : Spells [c] [.piece (.char c)] :=
  of_mark? (mark?_of_not_isPatternOperator hc)

/-- A character is written behind a backslash if it is an operator. -/
theorem patternChar (c : Char) : Spells (Text.patternChar c) [.piece (.char c)] := by
  unfold Text.patternChar
  split
  · rename_i hc
    intro rest
    rw [List.cons_append, List.singleton_append, marks?, if_pos hc]
    rfl
  · rename_i hc
    exact plain hc

end Spells

/-- Reading the text adds the pieces to the innermost group, wherever the text stands. -/
def Writes (cs : List Char) (es : List Regexp) : Prop :=
  ∃ ms, Spells cs ms ∧
    ∀ l outer rest, readMarks? l outer (ms ++ rest) = readMarks? (l.add es) outer rest

namespace Writes

variable {cs ds : List Char} {es fs : List Regexp}

theorem of_piece {e : Regexp} (h : Spells cs [.piece e]) : Writes cs [e] :=
  ⟨_, h, fun _ _ _ => rfl⟩

theorem nil : Writes [] [] := by
  refine ⟨[], .nil, fun l outer rest => ?_⟩
  rw [Level.add, List.append_nil, List.nil_append]

theorem append (hcs : Writes cs es) (hds : Writes ds fs) : Writes (cs ++ ds) (es ++ fs) := by
  obtain ⟨ms, hms, hes⟩ := hcs
  obtain ⟨ns, hns, hfs⟩ := hds
  refine ⟨ms ++ ns, hms.append hns, fun l outer rest => ?_⟩
  rw [List.append_assoc, hes, hfs, Level.add, Level.add, Level.add, List.append_assoc]

theorem literalPattern (cs : List Char) : Writes (Text.literalPattern cs) (cs.map .char) := by
  induction cs with
  | nil => exact nil
  | cons c cs ih => exact (of_piece (.patternChar c)).append ih

theorem any : Writes ['.'] [.any] := of_piece (.of_mark? rfl)

theorem except {c : Char} (hc : ¬ Text.isPatternOperator c) :
    Writes ['[', '^', c, ']'] [.except c] := by
  have hopening : Spells ['['] [.classOpening] := .of_mark? rfl
  have hstart : Spells ['^'] [.piece .start] := .of_mark? rfl
  have hclosing : Spells [']'] [.classClosing] := .of_mark? rfl
  exact ⟨_, hopening.append (hstart.append ((Spells.plain hc).append hclosing)), fun _ _ _ => rfl⟩

theorem start : Writes ['^'] [.start] := of_piece (.of_mark? rfl)

theorem finish : Writes ['$'] [.finish] := of_piece (.of_mark? rfl)

theorem star {e : Regexp} (hcs : Writes cs [e]) (he : e.isRepeatable) :
    Writes (cs ++ ['*']) [.many e] := by
  obtain ⟨ms, hms, hes⟩ := hcs
  refine ⟨ms ++ [.star], hms.append (.of_mark? rfl), fun l outer rest => ?_⟩
  rw [List.append_assoc, hes]
  change ((l.add [e]).star?).bind (readMarks? · outer rest) = _
  rw [Level.star?_add he]
  rfl

/-- Parentheses make one piece of what they hold. -/
theorem parentheses (hcs : Writes cs es) : Writes ('(' :: (cs ++ [')'])) [.either [.seq es]] := by
  obtain ⟨ms, hms, hes⟩ := hcs
  have hopening : Spells ['('] [.opening] := .of_mark? rfl
  refine ⟨_, hopening.append (hms.append (.of_mark? (m := .closing) rfl)), fun l outer rest => ?_⟩
  change readMarks? .opened (l :: outer) (ms ++ [.closing] ++ rest) = _
  rw [List.append_assoc, hes]
  rfl

variable {α : Type} {text : α → List Char} {pieces : α → List Regexp}

/-- Bars between texts start alternatives. -/
theorem exists_alternatives {a : α} {as : List α} (h : ∀ b ∈ a :: as, Writes (text b) (pieces b)) :
    ∃ ms, Spells (['|'].intercalate ((a :: as).map text)) ms ∧
      ∀ l outer rest, readMarks? l outer (ms ++ rest) =
        readMarks? (as.foldl (fun l b => l.alternative.add (pieces b)) (l.add (pieces a))) outer rest := by
  induction as generalizing a with
  | nil =>
    rw [List.map_singleton, List.intercalate_singleton]
    exact h a (List.mem_singleton_self a)
  | cons b as ih =>
    obtain ⟨⟨ms, hms, hes⟩, has⟩ := List.forall_mem_cons.1 h
    obtain ⟨ns, hns, hrest⟩ := ih has
    rw [List.map_cons, List.map_cons, List.intercalate_cons_cons, ← List.map_cons]
    refine ⟨_, (hms.append (.of_mark? (m := .bar) rfl)).append hns, fun l outer rest => ?_⟩
    rw [List.append_assoc, List.append_assoc, hes]
    exact hrest (l.add (pieces a)).alternative outer rest

/-- Bars between parentheses are bars of the group. -/
theorem group {as : List α} (has : as ≠ []) (h : ∀ a ∈ as, Writes (text a) (pieces a)) :
    Writes ('(' :: (['|'].intercalate (as.map text) ++ [')']))
      [.either (as.map fun a => .seq (pieces a))] := by
  obtain ⟨a, as, rfl⟩ := List.exists_cons_of_ne_nil has
  obtain ⟨ms, hms, halternatives⟩ := exists_alternatives h
  have hopening : Spells ['('] [.opening] := .of_mark? rfl
  refine ⟨_, hopening.append (hms.append (.of_mark? (m := .closing) rfl)), fun l outer rest => ?_⟩
  change readMarks? .opened (l :: outer) (ms ++ [.closing] ++ rest) = _
  rw [List.append_assoc, halternatives]
  change readMarks? (l.add [Level.regexp _]) outer rest = _
  rw [Level.regexp_foldl_alternative]
  rfl

end Writes

theorem read?_eq {cs : List Char} {ms : List Mark} (h : Spells cs ms) :
    read? cs = readMarks? .opened [] (ms ++ []) := by
  rw [read?, ← List.append_nil cs, h]
  rfl

theorem read?_of_writes {cs : List Char} {es : List Regexp} (h : Writes cs es) :
    read? cs = some (.either [.seq es]) := by
  obtain ⟨ms, hms, hes⟩ := h
  rw [read?_eq hms, hes]
  rfl

/-- Without a group around them alternatives make up a whole expression. -/
theorem read?_alternatives {α : Type} {text : α → List Char} {pieces : α → List Regexp} {as : List α}
    (has : as ≠ []) (h : ∀ a ∈ as, Writes (text a) (pieces a)) :
    read? (['|'].intercalate (as.map text)) = some (.either (as.map fun a => .seq (pieces a))) := by
  obtain ⟨a, as, rfl⟩ := List.exists_cons_of_ne_nil has
  obtain ⟨ms, hms, halternatives⟩ := Writes.exists_alternatives h
  rw [read?_eq hms, halternatives]
  change some (Level.regexp _) = _
  rw [Level.regexp_foldl_alternative]
  rfl

example : read? "a|(^\\.)*".toList =
    some (.either [.seq [.char 'a'], .seq [.many (.either [.seq [.start, .char '.']])]]) := rfl

end Regexp

end DesktopSearch
