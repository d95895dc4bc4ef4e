/-!
# Replacing

`replace` writes one text in the place of another wherever that occurs, looking from the left and going
on behind each occurrence.
-/

namespace DesktopSearch.Text

/-- What follows `start` in a text that starts with it. -/
def after? (start cs : List Char) : Option (List Char) :=
  if start.isPrefixOf cs then some (cs.drop start.length) else none

/-- The text with `new` for every `old`, at most `bound` of its places looked at. -/
def replaceWithin (old new : List Char) : (bound : Nat) → List Char → List Char
  | _, [] => []
  | 0, cs => cs
  | bound + 1, c :: cs =>
    match after? old (c :: cs) with
    | some rest => new ++ replaceWithin old new bound rest
    | none => c :: replaceWithin old new bound cs

/-- The text with `new` for every `old`, which must not be empty. -/
def replace (old new cs : List Char) : List Char :=
  replaceWithin old new cs.length cs

end DesktopSearch.Text
