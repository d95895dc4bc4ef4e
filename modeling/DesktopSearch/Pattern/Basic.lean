import DesktopSearch.Fault
import DesktopSearch.Pattern.Keyword
import DesktopSearch.Term.Basic
import DesktopSearch.Text.Digit

/-!
# Patterns

A pattern describes a few neighbouring terms, part by part. The part `%3` stands for any one term and
puts it into the third slot, `...` stands for a run of terms, and every other part is a keyword, which
stands for a literal whose text it accepts. Patterns are read with an engine for their keywords; those of the
phrasings need `Keyword.read?` only.
-/

namespace DesktopSearch

/-- A part of a pattern. The slots are counted from zero. -/
inductive Part where
  | capture (slot : Nat)
  | run
  | keyword (k : Keyword)

namespace Part

/-- The slot that a part names, counted from one. -/
def slot? : List Char → Option Nat
  | '%' :: cs => (Text.readNat? Text.nat64Limit cs).filter (0 < ·)
  | _ => none

/-- The part that a word of a pattern writes. -/
def read? (engine : Keyword.Engine) (word : String) : Option Part :=
  if word = "..." then some run
  else
    match slot? word.toList with
    | some n => some (capture (n - 1))
    | none => (engine (Keyword.anchored word.toList)).map keyword

/-- Whether a part can stand for a term. -/
def accepts (p : Part) (t : Term) : Bool :=
  match p with
  | capture _ | run => true
  | keyword k => t.literal?.any fun l => k.accepts l.text

/-- Whether the part is a run. -/
def isRun : Part → Bool
  | run => true
  | _ => false

/-- Whether the part is a keyword. -/
def isKeyword : Part → Bool
  | keyword _ => true
  | _ => false

end Part

/-- The parts of a pattern, as written and as read. -/
structure Pattern where
  source : List String
  parts : List Part

namespace Pattern

/-- Why a list of words is no pattern. -/
inductive Unreadable where
  | noParts
  | keyword (word : String)

/-- The fault of an unreadable pattern. -/
def Unreadable.fault : Unreadable → Fault
  | noParts => .pattern "empty pattern"
  | keyword word => .pattern ("unreadable keyword " ++ word)

/-- Reads the parts of a pattern. -/
def readParts (engine : Keyword.Engine) : List String → Except Unreadable (List Part)
  | [] => .ok []
  | word :: words =>
    match Part.read? engine word with
    | some part => (readParts engine words).map (part :: ·)
    | none => .error (.keyword word)

/-- The pattern with the given parts, of which there has to be one at least. -/
def read (engine : Keyword.Engine) (source : List String) : Except Unreadable Pattern :=
  if source.isEmpty then .error .noParts
  else (readParts engine source).map fun parts => ⟨source, parts⟩

/-- The pattern of a phrasing, whose parts stand between the blanks of a text. -/
def ofText (text : String) : Except Unreadable Pattern :=
  read Keyword.read? ((Text.words text.toList).map String.ofList)

/-- The number of slots, up to the last one that is named. -/
def slotCount (p : Pattern) : Nat :=
  p.parts.foldl (fun n part => match part with
    | .capture slot => max n (slot + 1)
    | _ => n) 0

end Pattern

end DesktopSearch
