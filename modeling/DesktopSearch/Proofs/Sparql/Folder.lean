import DesktopSearch.Proofs.Term.Meaning
import DesktopSearch.Proofs.Text.Regexp
import DesktopSearch.Sparql.Preparation
import DesktopSearch.Text.Case
import Mathlib.Data.List.Induction

/-!
# Places in folders

The folders of a query become two regular expressions for the place of a result : alternatives for the
folders to search in, each of them anchored, and a group of alternatives behind one anchor for the folders
that are left out. The addresses of folders are escaped, so whatever characters they have, they are read as
what they are, and a slash is written behind those that do not end with one.

A place `IsBelow` a folder if, letter case aside, it starts with the folder. The filter admits the places
below the folders to search in, or directly in them if they are not recursive, and below none of those that
are left out (`admits_folderFilter_iff`). The slash is not one of two characters that differ in case only
(`fold_eq_slash_iff`), so that a star over anything but slashes stops where it should.
-/

namespace DesktopSearch

/-! ## The slash has no case -/

namespace Text

theorem lt_of_mem_foldRuns : ∀ r ∈ foldRuns, '/'.toNat < r.first + r.shift := by
  decide +kernel

/-- No letter has the slash as its lower case. -/
theorem toLower_eq_slash_iff {c : Char} (hc : c.toNat < 0x80) : c.toLower = '/' ↔ c = '/' := by
  have hascii : ∀ n < 0x80, (Char.ofNat n).toLower = '/' ↔ Char.ofNat n = '/' := by decide
  rw [← Char.ofNat_toNat c]
  exact hascii _ hc

theorem ofNat_ne_slash {n : Nat} (h : '/'.toNat < n) : Char.ofNat n ≠ '/' := by
  intro hchar
  by_cases hn : n.isValidChar
  · have hslash : (Char.ofNat n).toNat = n := by
      rw [Char.ofNat, dif_pos hn]
      rfl
    rw [hchar] at hslash
    exact absurd hslash (Nat.ne_of_lt h)
  · rw [Char.ofNat, dif_neg hn] at hchar
    exact absurd hchar (by decide)

/-- The slash is not one of two characters that differ in case only. -/
theorem fold_eq_slash_iff {c : Char} : fold c = fold '/' ↔ c = '/' := by
  constructor
  · intro h
    change fold c = '/' at h
    rw [fold] at h
    split at h
    · rename_i hc
      exact (toLower_eq_slash_iff hc).1 h
    · rw [moveBy] at h
      split at h
      · rename_i r hr
        have hcovers := List.find?_some hr
        have hslash := lt_of_mem_foldRuns r (List.mem_of_find?_eq_some hr)
        simp only [CaseRun.covers, Bool.and_eq_true, decide_eq_true_eq] at hcovers
        exact absurd h (ofNat_ne_slash (by omega))
      · exact h
  · rintro rfl
    rfl

/-! ## Escaped texts -/

theorem literalPattern_append (cs ds : List Char) :
    literalPattern (cs ++ ds) = literalPattern cs ++ literalPattern ds := List.flatMap_append

/-- Escaping keeps the last character. -/
theorem getLast?_literalPattern (cs : List Char) : (literalPattern cs).getLast? = cs.getLast? := by
  have hchar (c : Char) : ∃ front, patternChar c = front ++ [c] := by
    unfold patternChar
    split
    · exact ⟨['\\'], rfl⟩
    · exact ⟨[], rfl⟩
  cases cs using List.reverseRecOn with
  | nil => rfl
  | append_singleton cs c =>
    obtain ⟨front, hfront⟩ := hchar c
    rw [literalPattern_append, literalPattern, literalPattern, List.flatMap_singleton, hfront,
      ← List.append_assoc, List.getLast?_concat, List.getLast?_concat]

end Text

namespace Sparql

open Text Vocabulary

/-! ## Folders -/

/-- What the places below a folder start with. -/
def place (url : String) : List Char :=
  if url.toList.getLast? = some '/' then url.toList else url.toList ++ ['/']

/-- Letter case aside, the place `u` is `rest` below the folder. -/
def IsBelow (url : String) (rest : List Char) (u : String) : Prop :=
  ∃ front, u.toList = front ++ rest ∧ front.map fold = (place url).map fold

/-- The expression of a folder is its address with a slash behind it, escaped. -/
theorem toList_folderPattern (url : String) :
    (folderPattern url).toList = literalPattern (place url) := by
  rw [folderPattern, place]
  simp only [String.toList_ofList, getLast?_literalPattern]
  split
  · rw [String.toList_ofList]
  · rw [String.toList_append, String.toList_ofList, literalPattern_append]
    rfl

/-! ## Expressions -/

theorem writes_folderPattern (url : String) :
    Regexp.Writes (folderPattern url).toList ((place url).map .char) := by
  rw [toList_folderPattern]
  exact .literalPattern _

/-- What a folder to search in is as an expression, without the parentheses. -/
def includePieces (f : Folder) : List Regexp :=
  .start :: ((place f.url).map .char ++
    if f.recursive then [] else [.many (.except '/')] ++ [.finish])

theorem toList_includePattern (f : Folder) : (includePattern f).toList =
    '(' :: (['^'] ++ ((folderPattern f.url).toList ++
      if f.recursive then [] else ['[', '^', '/', ']'] ++ ['*'] ++ ['$']) ++ [')']) := by
  rw [includePattern]
  split <;> simp

/-- A folder to search in is written as a group that is anchored, and closed unless it is recursive. -/
theorem writes_includePattern (f : Folder) :
    Regexp.Writes (includePattern f).toList [.either [.seq (includePieces f)]] := by
  rw [toList_includePattern]
  refine (Regexp.Writes.start.append ((writes_folderPattern f.url).append ?_)).parentheses
  split
  · exact .nil
  · exact ((Regexp.Writes.except (by decide)).star rfl).append .finish

/-! ## What they are found in -/

variable {u : String}

/-- The expression that a text writes is found in the place. -/
def FoundAt (pattern u : String) : Prop :=
  ∃ e, Regexp.read? pattern.toList = some e ∧ e.FoundIn fold u.toList

/-- The text of an expression is found where the expression is. -/
theorem foundAt_iff {pattern : String} {e : Regexp} (h : Regexp.read? pattern.toList = some e) :
    FoundAt pattern u ↔ e.FoundIn fold u.toList := by
  rw [FoundAt, h]
  simp

/-- A place is found in a recursive folder if it is below it, and in another if no slash follows, either. -/
theorem foundIn_includePieces_iff (f : Folder) :
    Regexp.FoundIn fold (.seq (includePieces f)) u.toList ↔
      ∃ rest, IsBelow f.url rest u ∧ (f.recursive ∨ '/' ∉ rest) := by
  rw [includePieces, Regexp.foundIn_start_iff]
  simp only [Regexp.matches_seq_append_iff, Regexp.matches_chars_iff]
  constructor
  · rintro ⟨_, after, hu, front, x, rfl, hfront, hx⟩
    refine ⟨x ++ after, ⟨front, by rw [hu, List.append_assoc], hfront⟩, ?_⟩
    split at hx
    · exact .inl ‹_›
    · obtain ⟨rfl, hmany⟩ := Regexp.matches_seq_finish_iff.1 hx
      rw [Regexp.matches_seq_singleton_iff, Regexp.matches_many_except_iff] at hmany
      rw [List.append_nil]
      exact .inr fun hslash => hmany _ hslash rfl
  · rintro ⟨rest, ⟨front, hu, hfront⟩, hrest⟩
    cases hrecursive : f.recursive with
    | true => exact ⟨front, rest, hu, front, [], (List.append_nil front).symm, hfront, .seq_nil⟩
    | false =>
      have hslash : '/' ∉ rest := hrest.resolve_left (by simp [hrecursive])
      refine ⟨u.toList, [], (List.append_nil _).symm, front, rest, hu, hfront, ?_⟩
      refine Regexp.matches_seq_finish_iff.2 ⟨rfl, Regexp.matches_seq_singleton_iff.2 ?_⟩
      refine Regexp.matches_many_except_iff.2 fun d hd h => ?_
      rw [fold_eq_slash_iff] at h
      exact hslash (h ▸ hd)

/-- The folders to search in are alternatives of the whole expression. -/
theorem foundAt_include_iff {folders : List Folder} (h : folders ≠ []) :
    FoundAt ("|".intercalate (folders.map includePattern)) u ↔
      ∃ f ∈ folders, ∃ rest, IsBelow f.url rest u ∧ (f.recursive ∨ '/' ∉ rest) := by
  have hread := Regexp.read?_alternatives h fun f _ => writes_includePattern f
  rw [foundAt_iff (by rw [String.toList_intercalate, List.map_map]; exact hread),
    Regexp.foundIn_either_iff]
  simp only [List.mem_map, exists_exists_and_eq_and, Regexp.foundIn_seq_singleton_iff,
    Regexp.foundIn_either_iff, List.mem_singleton, exists_eq_left, foundIn_includePieces_iff]

/-- The folders that are left out are alternatives behind one anchor. -/
theorem foundAt_exclude_iff {folders : List String} (h : folders ≠ []) :
    FoundAt ("^(" ++ "|".intercalate (folders.map folderPattern) ++ ")") u ↔
      ∃ url ∈ folders, ∃ rest, IsBelow url rest u := by
  have hgroup := Regexp.Writes.group h fun url _ => writes_folderPattern url
  have hread := Regexp.read?_of_writes (Regexp.Writes.start.append hgroup)
  have htext : ("^(" ++ "|".intercalate (folders.map folderPattern) ++ ")").toList = ['^'] ++
      '(' :: (['|'].intercalate (folders.map fun url => (folderPattern url).toList) ++ [')']) := by
    rw [String.toList_append, String.toList_append, String.toList_intercalate, List.map_map]
    rfl
  rw [foundAt_iff (by rw [htext]; exact hread), Regexp.foundIn_either_iff]
  simp only [List.mem_singleton, exists_eq_left, List.singleton_append, Regexp.foundIn_start_iff,
    Regexp.matches_seq_singleton_iff, Regexp.matches_either_iff, List.mem_map,
    exists_exists_and_eq_and, Regexp.matches_chars_iff, IsBelow]
  constructor
  · rintro ⟨front, rest, hu, url, hurl, hfront⟩
    exact ⟨url, hurl, rest, front, hu, hfront⟩
  · rintro ⟨url, hurl, rest, front, hu, hfront⟩
    exact ⟨front, rest, hu, url, hurl, hfront⟩

/-! ## The filter -/

open Classical in
/-- A resource at a place : regular expressions are compared with the place, and nothing else is known. -/
noncomputable def atPlace (u : String) : Interpretation where
  literal l := decide (FoundAt l.text u)
  resource _ := false
  types _ := false
  comparison c value := if c.property = some Nie.url ∧ c.comparator = .regexp then value else none
  optional := id
  optional_optional _ := rfl

/-- The term does not rule out a resource at the place. -/
def Admits (t : Term) (u : String) : Prop := t.meaning (atPlace u) ≠ some false

/-- A conjunction of filters admits what both admit. -/
theorem admits_join_iff {a b : Term} : Admits (a &&& b) u ↔ Admits a u ∧ Admits b u := by
  have hjoin : (a &&& b).meaning (atPlace u) = Connective.and.merge _ _ :=
    Term.meaning_join (atPlace u) .and a b
  rw [Admits, Admits, Admits, hjoin]
  rcases a.meaning (atPlace u) with _ | _ | _ <;> rcases b.meaning (atPlace u) with _ | _ | _ <;> decide

theorem admits_nothing : Admits Term.nothing u := by
  simp [Admits, Term.nothing, Term.meaning]

open Classical in
theorem meaning_placeMatches (pattern : String) :
    (placeMatches pattern).meaning (atPlace u) = some (decide (FoundAt pattern u)) := rfl

theorem admits_placeMatches_iff {pattern : String} :
    Admits (placeMatches pattern) u ↔ FoundAt pattern u := by
  rw [Admits, meaning_placeMatches]
  simp

theorem admits_negation_placeMatches_iff {pattern : String} :
    Admits (.negation .empty (placeMatches pattern)) u ↔ ¬ FoundAt pattern u := by
  rw [Admits, Term.meaning, meaning_placeMatches]
  simp

/-- The filter for the folders of a query admits the places in the folders to search in, all places if there
are none, without those below a folder that is left out. -/
theorem admits_folderFilter_iff (q : Query) (u : String) :
    Admits (folderFilter q) u ↔
      (q.includeFolders = [] ∨
        ∃ f ∈ q.includeFolders, ∃ rest, IsBelow f.url rest u ∧ (f.recursive ∨ '/' ∉ rest)) ∧
      ∀ url ∈ q.excludeFolders, ∀ rest, ¬ IsBelow url rest u := by
  rw [folderFilter, admits_join_iff]
  refine and_congr ?_ ?_
  · split
    · rename_i h
      simp [admits_nothing, List.isEmpty_iff.1 h]
    · rename_i h
      rw [List.isEmpty_iff] at h
      rw [admits_placeMatches_iff, foundAt_include_iff h, or_iff_right h]
  · split
    · rename_i h
      simp [admits_nothing, List.isEmpty_iff.1 h]
    · rename_i h
      rw [List.isEmpty_iff] at h
      rw [admits_negation_placeMatches_iff, foundAt_exclude_iff h]
      simp only [not_exists, not_and]

end Sparql

end DesktopSearch
