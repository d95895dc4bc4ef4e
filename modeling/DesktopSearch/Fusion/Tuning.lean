import DesktopSearch.Fusion.Context
import DesktopSearch.Fusion.Range

/-!
# Tuning

What a term in a list means depends on the terms before it. `tune` adapts a term to the context: names of
properties are resolved, plain numbers and dates become ranges of the property they are usually about,
and plain words are searched for by their start if that is wanted. A type restriction sets the context of
the terms after it.
-/

namespace DesktopSearch

/-- What may be switched on for a text. -/
structure ParserFlags where
  /-- Plain words match every word that they start. -/
  globbing : Bool := false
  /-- Words that look like names of files are compared with the names of files. -/
  fileNames : Bool := false
  deriving DecidableEq

/-- Whether a plain word matches every word that it starts. -/
def globs (flags : ParserFlags) (word : String) : Bool :=
  flags.globbing && decide (4 ≤ word.length) && word.toList.getLast? != some '*' &&
    !word.toList.any Text.isBlank

/-- The context after a term. -/
def ResourceContext.after (c : ResourceContext) : Term → ResourceContext
  | .types _ (u :: _) => ofType u
  | _ => c

/-- Gives a comparison the property that its name means in a context; a date that is to be equalled
becomes a range. -/
def tuneComparison (c : ResourceContext) (span : Span) (head : Comparison) (value : Term) : Term :=
  let property := match head.property.bind Uri.pseudoName? with
    | some name => c.resolve? name
    | none => head.property
  match value.moment?, head.comparator with
  | some m, .equal => .duringMoment property m span
  | _, _ => .comparison span { head with property } value

/-- Adapts a term to a context. -/
def tune (settings : Settings) (flags : ParserFlags) (c : ResourceContext) (t : Term) : Term :=
  match t with
  | .literal span (.integer n) =>
    let (low, high) := settings.integerWindow n
    .between c.sizeProperty? (.integer low) (.integer high) span
  | .literal span (.double d) =>
    let (low, high) := settings.doubleWindow d
    .between c.sizeProperty? (.double low) (.double high) span
  | .literal span (.dateTime m) => .duringMoment c.dateProperty? m span
  | .literal span (.string word) =>
    if globs flags word then .literal span (.string (word ++ "*")) else t
  | .comparison span head value => tuneComparison c span head value
  | _ => t

end DesktopSearch
