import DesktopSearch.Proofs.Text.Regexp
import DesktopSearch.Proofs.Text.Replace
import DesktopSearch.Proofs.Text.Scan
import DesktopSearch.Reading.Kind
import DesktopSearch.Sparql.Lowering

/-!
# Globs as regular expressions

Globs become regular expressions twice : character by character, for texts that full-text search cannot look
for, and for names of files by escaping the whole text and writing operators for its escaped wildcards. The
second way gives the first one between anchors (`namePattern_eq`), since the escaped text is one of pieces,
of which only those for wildcards are replaced. The expression matches the texts that the glob matches
(`exists_regexp_globPattern`), with whatever folding of characters. `glob_patterns_agree` puts both in terms
of words that are read as names of files and of texts that are searched for.
-/

namespace DesktopSearch.Sparql

open Text

/-! ## What globs match -/

/-- The glob matches the text. -/
inductive GlobMatches (fold : Char → Char) : (glob text : List Char) → Prop
  | nil : GlobMatches fold [] []
  | run {glob text : List Char} (x : List Char) (h : GlobMatches fold glob text) :
    GlobMatches fold ('*' :: glob) (x ++ text)
  | one {glob text : List Char} (d : Char) (h : GlobMatches fold glob text) :
    GlobMatches fold ('?' :: glob) (d :: text)
  | same {c d : Char} {glob text : List Char} (hc : isWildcard c = false) (hd : fold d = fold c)
    (h : GlobMatches fold glob text) : GlobMatches fold (c :: glob) (d :: text)

/-! ## Character by character -/

/-- What a character of a glob is as an expression. -/
def globPiece (c : Char) : Regexp :=
  if c = '*' then .many .any else if c = '?' then .any else .char c

theorem globPiece_of_isWildcard_eq_false {c : Char} (hc : isWildcard c = false) :
    globPiece c = .char c := by
  simp only [isWildcard, Bool.or_eq_false_iff, beq_eq_false_iff_ne] at hc
  rw [globPiece, if_neg hc.1, if_neg hc.2]

theorem writes_globChar (c : Char) : Regexp.Writes (globChar c) [globPiece c] := by
  rw [globChar, globPiece]
  split
  · exact Regexp.Writes.any.star rfl
  · split
    · exact .any
    · exact .of_piece (.patternChar c)

theorem writes_globPattern (cs : List Char) : Regexp.Writes (globPattern cs) (cs.map globPiece) := by
  induction cs with
  | nil => exact .nil
  | cons c cs ih => exact (writes_globChar c).append ih

/-- One character of a glob after the other, the expression matches what the glob matches. -/
theorem matches_globPieces_iff {fold : Char → Char} {glob before text after : List Char} :
    Regexp.Matches fold (.seq (glob.map globPiece)) before text after ↔ GlobMatches fold glob text := by
  constructor
  · intro h
    induction glob generalizing before text with
    | nil =>
      obtain rfl := Regexp.matches_seq_nil_iff.1 h
      exact .nil
    | cons c glob ih =>
      rw [List.map_cons, Regexp.matches_seq_cons_iff] at h
      obtain ⟨x, rest, rfl, hx, hrest⟩ := h
      cases hc : isWildcard c with
      | false =>
        rw [globPiece_of_isWildcard_eq_false hc] at hx
        obtain ⟨d, rfl, hd⟩ := Regexp.matches_char_iff.1 hx
        exact .same hc hd (ih hrest)
      | true =>
        obtain rfl | rfl : c = '*' ∨ c = '?' := by simpa [isWildcard] using hc
        · exact .run x (ih hrest)
        · change Regexp.Matches fold .any before x _ at hx
          cases hx with
          | any d => exact .one d (ih hrest)
  · intro h
    induction h generalizing before with
    | nil => exact .seq_nil
    | run x _ ih => exact .seq_cons (Regexp.matches_many_any ..) ih
    | one d _ ih => exact .seq_cons (x := [d]) (.any d) ih
    | same hc hd _ ih =>
      rw [List.map_cons, globPiece_of_isWildcard_eq_false hc]
      exact .seq_cons (x := [_]) (.char hd) ih

/-- The pattern of a glob is read as an expression that matches what the glob matches, wherever that
stands. -/
theorem exists_regexp_globPattern (glob : List Char) :
    ∃ e, Regexp.read? (globPattern glob) = some e ∧ ∀ fold before text after,
      e.Matches fold before text after ↔ GlobMatches fold glob text := by
  refine ⟨_, Regexp.read?_of_writes (writes_globPattern glob), fun fold before text after => ?_⟩
  rw [Regexp.matches_either_iff]
  simp [matches_globPieces_iff]

/-- Between anchors it is found in the texts that the glob matches. -/
theorem exists_regexp_anchored (glob : List Char) :
    ∃ e, Regexp.read? ('^' :: globPattern glob ++ ['$']) = some e ∧ ∀ fold text,
      e.FoundIn fold text ↔ GlobMatches fold glob text := by
  refine ⟨_, Regexp.read?_of_writes
    (Regexp.Writes.start.append (writes_globPattern glob) |>.append .finish), fun fold text => ?_⟩
  rw [Regexp.foundIn_either_iff]
  simp [Regexp.foundIn_start_finish_iff, matches_globPieces_iff]

/-! ## Escaping first -/

theorem isPiece_patternChar {mark : Char} (h : isPatternOperator mark) (c : Char) :
    IsPiece mark (patternChar c) := by
  unfold patternChar
  split
  · exact .inl ⟨c, rfl⟩
  · rename_i hc
    refine .inr ⟨?_, ?_⟩
    · rw [List.mem_singleton]
      rintro rfl
      exact hc rfl
    · rintro ⟨⟩
      exact hc h

theorem patternChar_eq_iff (mark : Char) {c : Char} (h : isPatternOperator mark) :
    patternChar c = ['\\', mark] ↔ c = mark := by
  unfold patternChar
  split
  · simp
  · rename_i hc
    constructor
    · simp
    · rintro rfl
      exact absurd h hc

/-- What a character has become when stars have got their meaning and question marks have not. -/
def starChar (c : Char) : List Char := if c = '*' then ['.', '*'] else patternChar c

theorem replace_literalPattern (cs : List Char) :
    replace ['\\', '*'] ['.', '*'] (literalPattern cs) = cs.flatMap starChar := by
  rw [literalPattern, replace_flatMap (by decide) (isPiece_patternChar rfl)]
  simp only [patternChar_eq_iff '*' rfl]
  rfl

theorem isPiece_starChar (c : Char) : IsPiece '?' (starChar c) := by
  unfold starChar
  split
  · exact .inr ⟨by decide, by decide⟩
  · exact isPiece_patternChar rfl c

theorem replace_starChars (cs : List Char) :
    replace ['\\', '?'] ['.'] (cs.flatMap starChar) = globPattern cs := by
  rw [replace_flatMap (by decide) isPiece_starChar, globPattern]
  congr 1
  ext c : 1
  by_cases hc : c = '*'
  · subst hc
    rfl
  · simp only [starChar, if_neg hc, patternChar_eq_iff '?' rfl, globChar]

/-- Escaping first and writing operators for the wildcards then gives the same pattern, between anchors. -/
theorem namePattern_eq (cs : List Char) :
    Reading.namePattern cs = '^' :: globPattern cs ++ ['$'] := by
  simp only [Reading.namePattern, replace_literalPattern, replace_starChars]

/-! ## Words and texts -/

/-- A word with a point and a wildcard in it is read as the name of a file that matches the pattern of the
word between anchors, and the same text, if its wildcard is too early for full-text search, is searched
for by its pattern; and the pattern matches what the word matches as a glob. -/
theorem glob_patterns_agree (word : String) (hpoint : word.toList.contains '.')
    (hwildcard : word.toList.any isWildcard) (hstart : ∀ c ∈ word.toList.head?, isBlank c = false)
    (hend : ∀ c ∈ word.toList.getLast?, isBlank c = false) :
    (∀ t ts, t.string? = some word → Reading.readFileNames (t :: ts) =
      [(Term.compare (some Vocabulary.Nfo.fileName) (.literal t.span
        (.string (String.ofList ('^' :: globPattern word.toList ++ ['$'])))) .regexp).withSpan t.span]) ∧
    (hasEarlyWildcard word.toList → ∀ scoring v counts s, containsPattern scoring v word counts s =
      some (.matchesRegexp v (String.ofList (globPattern word.toList)), s)) ∧
    (∃ e, Regexp.read? ('^' :: globPattern word.toList ++ ['$']) = some e ∧
      ∀ fold text, e.FoundIn fold text ↔ GlobMatches fold word.toList text) ∧
    ∃ e, Regexp.read? (globPattern word.toList) = some e ∧
      ∀ fold before text after,
        e.Matches fold before text after ↔ GlobMatches fold word.toList text := by
  refine ⟨fun t ts ht => ?_, fun hearly scoring v counts s => ?_,
    exists_regexp_anchored _, exists_regexp_globPattern _⟩
  · have hmarks : (word.toList.contains '*' || word.toList.contains '?') = true := by
      simpa [isWildcard, List.any_eq_true, and_or_left, exists_or] using hwildcard
    simp only [Reading.readFileNames, ht, hmarks, hpoint, if_true, namePattern_eq]
  · rw [containsPattern, trim_eq_self_of_ends hstart hend, if_pos hearly]
    rfl

/-- A backslash before a wildcard is written as an escaped backslash and leaves the wildcard its meaning. -/
theorem glob_patterns_agree_backslash :
    let word := "\\*.txt"
    Reading.readFileNames [.ofLiteral (.string word)] = [.compare (some Vocabulary.Nfo.fileName)
      (.ofLiteral (.string "^\\\\.*\\.txt$")) .regexp] ∧
    containsPattern false .result word true {} =
      some (.matchesRegexp .result "\\\\.*\\.txt", {}) ∧
    ∃ e, Regexp.read? "^\\\\.*\\.txt$".toList = some e ∧
      ∀ fold text, e.FoundIn fold text ↔ GlobMatches fold word.toList text := by
  intro word
  have hpattern : globPattern word.toList = "\\\\.*\\.txt".toList := by decide
  have hname : '^' :: "\\\\.*\\.txt".toList ++ ['$'] = "^\\\\.*\\.txt$".toList := by decide
  obtain ⟨hnames, htexts, hanchored, -⟩ :=
    glob_patterns_agree word (by decide) (by decide) (by simp [word, isBlank]) (by simp [word, isBlank])
  rw [hpattern, hname] at hanchored
  have hread := hnames (.ofLiteral (.string word)) [] rfl
  have hsearch := htexts (by decide) false .result true {}
  rw [hpattern, hname, String.ofList_toList] at hread
  rw [hpattern, String.ofList_toList] at hsearch
  exact ⟨hread, hsearch, hanchored⟩

end DesktopSearch.Sparql
