import DesktopSearch.Settings.Document

/-!
# Paths into documents

A key names a place inside a document: a name, then further names after points and positions in
brackets, as in `month_names[0]`. `Path.ofKey` reads a key, and a key that is no path is a name as it
stands. `Path.assign` puts a value at the place that a path leads to. Whatever is missing on the way is
made, and a value in the way that is not of the kind the path goes through gives way to one that is.
-/

namespace DesktopSearch.Document

/-- A step from a value to one of its parts. -/
inductive Step where
  /-- To the value of a key. -/
  | name (key : String)
  /-- To an item of a list; a negative position counts from the end. -/
  | position (i : Int)
  deriving DecidableEq

/-- The way from a document to a place inside it. -/
structure Path where
  root : String
  steps : List Step := []
  deriving DecidableEq

/-! ## Places -/

/-- The entries of a value that is an object, none of any other. -/
def entries : Document → List (String × Document)
  | object es => es
  | _ => []

/-- The items of a value that is a list, none of any other. -/
def items : Document → List Document
  | list ds => ds
  | _ => []

/-- Changes the value of a key, which is null if it has none yet. -/
def changeKey (change : Document → Document) (key : String) (es : List (String × Document)) :
    List (String × Document) :=
  if es.any (·.1 == key) then es.map fun e => if e.1 == key then (key, change e.2) else e
  else es ++ [(key, change null)]

/-- Changes the item at a position. A list that is too short gets null items, at its end if the
position counts from the start and at its start if it counts from the end. -/
def changeItem (change : Document → Document) (i : Int) (ds : List Document) : List Document :=
  if 0 ≤ i then
    (ds ++ List.replicate (i.toNat + 1 - ds.length) null).modify i.toNat change
  else
    let back := (-i).toNat
    (List.replicate (back - ds.length) null ++ ds).modify (ds.length - back) change

/-- Changes the part of a value that the steps lead to. -/
def changeAt (change : Document → Document) : List Step → Document → Document
  | [], d => change d
  | .name key :: steps, d => object (changeKey (changeAt change steps) key d.entries)
  | .position i :: steps, d => list (changeItem (changeAt change steps) i d.items)

namespace Path

/-- Puts a value at the place that a path leads to. -/
def assign (p : Path) (value : Document) (es : List (String × Document)) :
    List (String × Document) :=
  changeKey (changeAt (fun _ => value) p.steps) p.root es

/-! ## Keys -/

/-- The characters of a name. -/
def isNameChar (c : Char) : Bool :=
  c.isAlphanum || c == '_' || c == '-'

/-- The position that stands between brackets: digits after an optional minus sign, within 64 bits and
with blanks around them. -/
def readPosition? (cs : List Char) : Option Int :=
  let isGap (c : Char) : Bool := c == ' ' || c == '\t'
  let written := ((cs.dropWhile isGap).reverse.dropWhile isGap).reverse
  if written.head? = some '+' then none else Text.readInt? Text.int64Limit written

/-- Reads the steps of a key; `bound` is at least the number of characters. -/
def readStepsWithin? : Nat → List Char → Option (List Step)
  | _, [] => some []
  | 0, _ :: _ => none
  | bound + 1, c :: cs =>
    if c = '.' then
      let name := cs.takeWhile isNameChar
      if name.isEmpty then none
      else do
        return .name (String.ofList name) :: (← readStepsWithin? bound (cs.dropWhile isNameChar))
    else if c = '[' then
      match cs.dropWhile (· != ']') with
      | [] => none
      | _ :: rest => do
        let i ← readPosition? (cs.takeWhile (· != ']'))
        return .position i :: (← readStepsWithin? bound rest)
    else none

/-- Reads a path. -/
def read? (cs : List Char) : Option Path :=
  let name := cs.takeWhile isNameChar
  if name.isEmpty then none
  else
    (readStepsWithin? cs.length (cs.dropWhile isNameChar)).map fun steps =>
      { root := String.ofList name, steps }

/-- The path that a key stands for. -/
def ofKey (key : String) : Path :=
  (read? key.toList).getD { root := key }

end Path

end DesktopSearch.Document
