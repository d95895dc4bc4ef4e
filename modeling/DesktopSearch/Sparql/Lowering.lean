import DesktopSearch.Ontology.Basic
import DesktopSearch.Sparql.Glob
import DesktopSearch.Sparql.Pattern

/-!
# Lowering

`lower` turns a term about a subject into graph patterns. The result is `?r`; every other value gets a
fresh variable, except that comparisons of one group on the same property share theirs if the property
has at most one value or if the variable has a name. `Lowering` is what has been decided so far: the
next fresh variable, the variables of the current group, the selected columns, the sort keys and the
full-text searches. Lowering fails on terms that no pattern expresses.
-/

namespace DesktopSearch.Sparql

/-- An expression over the values of a variable. -/
inductive Expression where
  | value (v : Variable)
  | aggregate (a : Aggregate) (v : Variable)

/-- An expression as text. -/
def Expression.text : Expression → String
  | value v => v.text
  | aggregate a v =>
    match a with
    | .count => "count(" ++ v.text ++ ")"
    | .distinctCount => "count(distinct " ++ v.text ++ ")"
    | .max => "max(" ++ v.text ++ ")"
    | .min => "min(" ++ v.text ++ ")"
    | .sum => "sum(" ++ v.text ++ ")"
    | .distinctSum => "sum(distinct " ++ v.text ++ ")"
    | .average => "avg(" ++ v.text ++ ")"
    | .distinctAverage => "avg(distinct " ++ v.text ++ ")"

/-- A selected column: a variable, or an aggregate with the variable it is named by. -/
inductive Column where
  | value (v : Variable)
  | aggregate (a : Aggregate) (v : Variable) (alias_ : Variable)

/-- A column as text. -/
def Column.text : Column → String
  | value v => v.text
  | aggregate a v alias_ => (Expression.aggregate a v).text ++ " as " ++ alias_.text

/-- A key that results are sorted by. -/
structure SortKey where
  expression : Expression
  weight : Int
  order : SortOrder

/-- A full-text search: the variable searched, the text, and the variable of the score if scores are
asked for. -/
structure Search where
  variable_ : Variable
  text : String
  score : Option Variable

/-- What a query is lowered with. -/
structure Setting where
  ontology : Ontology
  /-- Statements that use the inverse of a property count too. -/
  inverses : Bool
  /-- Full-text searches are scored. -/
  scoring : Bool

/-- What has been decided while lowering. -/
structure Lowering where
  /-- The number of the last fresh variable. -/
  used : Nat := 0
  /-- The variables that properties are bound to in the current group, the latest first. -/
  scope : List (Uri × Variable) := []
  columns : List Column := []
  sortKeys : List SortKey := []
  searches : List Search := []

/-- A step of lowering, which may fail. -/
abbrev Lower := StateT Lowering Option

/-- A new variable. -/
def freshVariable : Lower Variable := fun s =>
  some (.generated (s.used + 1), { s with used := s.used + 1 })

/-- Binds a property to a variable for the rest of the group. -/
def bindProperty (property : Uri) (v : Variable) : Lower Unit := fun s =>
  some ((), { s with scope := (property, v) :: s.scope })

/-- The variable that a property is bound to in the group. -/
def boundVariable? (property : Uri) : Lower (Option Variable) := fun s =>
  some ((s.scope.find? (·.1 == property)).map Prod.snd, s)

/-- Selects a column unless it is selected already. -/
def addColumn (c : Column) : Lower Unit := fun s =>
  some ((), if s.columns.any (·.text == c.text) then s else { s with columns := s.columns ++ [c] })

/-- Sorts by one more key. -/
def addSortKey (k : SortKey) : Lower Unit := fun s =>
  some ((), { s with sortKeys := s.sortKeys ++ [k] })

/-- Remembers a full-text search. -/
def addSearch (f : Search) : Lower Unit := fun s =>
  some ((), { s with searches := s.searches ++ [f] })

/-- Lowers a part inside a group of its own, whose bindings end with it. -/
def inGroup {α : Type} (part : Lower α) : Lower α := fun s =>
  (part { s with scope := [] }).map fun (a, s') => (a, { s' with scope := s.scope })

/-! ## Comparisons -/

/-- The predicate of a comparison: its property, or a fresh variable for any property. -/
def predicate (property : Option Uri) : Lower Node :=
  match property with
  | some p => pure (.uri p)
  | none => do return .var (← freshVariable)

/-- The variable of a property in the group, and whether this is its first use. Only properties with at
most one value are shared, since two values of another property need not be the same. -/
def propertyVariable (o : Ontology) (property : Uri) : Lower (Variable × Bool) := do
  match ← boundVariable? property with
  | some v => return (v, false)
  | none =>
    let v ← freshVariable
    if o.isSingleValued property then bindProperty property v
    return (v, true)

/-- The variable of a value without a name: the one its property has in the group, or a new one if the
comparison is inverted or has no property. -/
def plainVariable (o : Ontology) (c : Comparison) : Lower (Variable × Bool) :=
  match c.property, c.inverted with
  | some p, false => propertyVariable o p
  | _, _ => do return (← freshVariable, true)

/-- The variable of the compared value, and whether this is its first use. A named variable is selected,
through its aggregate if it has one, and bound for the rest of the group. -/
def valueVariable (o : Ontology) (c : Comparison) : Lower (Variable × Bool × Expression) := do
  match c.variableName with
  | some name =>
    let named := Variable.named name
    if let some p := c.property then bindProperty p named
    match c.aggregate with
    | none =>
      addColumn (.value named)
      return (named, true, .value named)
    | some a =>
      let v ← freshVariable
      addColumn (.aggregate a v named)
      return (v, true, .value named)
  | none =>
    let (v, isFirst) ← plainVariable o c
    return (v, isFirst, match c.aggregate with
      | none => .value v
      | some a => .aggregate a v)

/-- The variable of the compared value, which is also sorted by if the comparison has a weight. -/
def mainVariable (o : Ontology) (c : Comparison) : Lower (Variable × Bool) := do
  let (v, isFirst, key) ← valueVariable o c
  if c.sortWeight ≠ 0 then
    match c.aggregate, key with
    | none, .value w => addColumn (.value w)
    | _, _ => pure ()
    addSortKey ⟨key, c.sortWeight, c.sortOrder⟩
  return (v, isFirst)

/-- The search for a text in a variable. A wildcard too close to the start is searched for by a regular
expression. -/
def containsPattern (scoring : Bool) (v : Variable) (text : String) (counts : Bool) :
    Lower Pattern := do
  let trimmed := Text.trim text.toList
  if hasEarlyWildcard trimmed then
    return .matchesRegexp v (String.ofList (globPattern trimmed))
  let text := String.ofList trimmed
  if !counts then return .searches v text none
  if !scoring then
    addSearch ⟨v, text, none⟩
    return .searches v text none
  let score ← freshVariable
  addSearch ⟨v, text, some score⟩
  return .searches v text (some score)

/-- The patterns for a comparison with no value: the property has any value at all. -/
def existence (x : Setting) (c : Comparison) (subject : Variable) : Lower (List Pattern) := do
  let p ← predicate c.property
  let (v, isFirst) ← mainVariable x.ontology c
  if c.inverted then return [.triple (.var v) p (.var subject)]
  else if isFirst then return [.triple (.var subject) p (.var v)]
  else return []

/-- The patterns for a comparison of literals. -/
def literalComparison (x : Setting) (c : Comparison) (value : Literal) (subject : Variable) :
    Lower (List Pattern) := do
  let p ← predicate c.property
  if c.comparator = .equal ∧ c.variableName = none ∧ c.sortWeight = 0 then
    return [.triple (.var subject) p (.literal value)]
  let (v, isFirst) ← mainVariable x.ontology c
  let filter ← match c.comparator with
    | .contains => containsPattern x.scoring v value.text true
    | .regexp => pure (.matchesRegexp v value.text)
    | comparator => pure (.compares v comparator value)
  return if isFirst then [.triple (.var subject) p (.var v), filter] else [filter]

/-- The statement that a value belongs to the subject, or the other way round; with the inverse of the
property known, either spelling of it. -/
def statement (x : Setting) (c : Comparison) (p : Node) (subject value : Node) : Pattern :=
  let inverse? := if x.inverses then c.property.bind x.ontology.inverse? else none
  match inverse? with
  | some inverse => .eitherWay subject p value inverse
  | none => .triple subject p value

/-- The statement about a value that is no literal, which may be inverted. -/
def resourceStatement (x : Setting) (c : Comparison) (p : Node) (subject : Variable)
    (value : Node) : Pattern :=
  if c.inverted then statement x c p value (.var subject)
  else statement x c p (.var subject) value

/-- The patterns for a resource that is found by one of its labels. -/
def labelComparison (x : Setting) (c : Comparison) (value : Literal) (subject : Variable) :
    Lower (List Pattern) := do
  let p ← predicate c.property
  let (v, isFirst) ← mainVariable x.ontology c
  let label ← freshVariable
  let head := if isFirst then [statement x c p (.var subject) (.var v)] else []
  match c.comparator with
  | .equal => return head ++ [.triple (.var v) (.var label) (.literal value)]
  | .contains =>
    let text ← freshVariable
    let contains ← containsPattern x.scoring text value.text false
    return head ++ [.triple (.var v) (.var label) (.var text), contains]
  | _ => failure

/-- The patterns for a value that is described by a term of its own. -/
def nestedComparison (x : Setting) (c : Comparison) (nested : Variable → Lower (List Pattern))
    (subject : Variable) : Lower (List Pattern) := do
  let p ← predicate c.property
  let (v, isFirst) ← mainVariable x.ontology c
  let head := if isFirst then [resourceStatement x c p subject (.var v)] else []
  return head ++ (← inGroup (nested v))

/-- Whether a comparison is one of literals: its property has literal values, or it has no property and
a literal value. -/
def comparesLiterals (o : Ontology) (c : Comparison) (value : Term) : Bool :=
  match c.property with
  | some p => (o.literalRange? p).isSome
  | none => value.literal?.isSome

/-- The patterns for a comparison; `nested` lowers its value. -/
def lowerComparison (x : Setting) (c : Comparison) (value : Term)
    (nested : Variable → Lower (List Pattern)) (subject : Variable) : Lower (List Pattern) :=
  if !value.isValid then existence x c subject
  else if comparesLiterals x.ontology c value || c.comparator == .regexp then
    match value.literal? with
    | some l => literalComparison x c l subject
    | none => failure
  else
    match value with
    | .literal _ l => labelComparison x c l subject
    | .resource _ u => do
      let p ← predicate c.property
      return [resourceStatement x c p subject (.uri u)]
    | _ => nestedComparison x c nested subject

/-! ## Terms -/

/-- The patterns for a text that some property of the subject contains. -/
def lowerLiteral (x : Setting) (l : Literal) (subject : Variable) : Lower (List Pattern) := do
  let property ← freshVariable
  let object ← freshVariable
  let contains ← containsPattern x.scoring object l.text true
  return [.triple (.var subject) (.var property) (.var object), contains]

/-- The patterns for a type restriction. -/
def lowerTypes (types : List Uri) (subject : Variable) : Lower (List Pattern) :=
  match types with
  | [] => failure
  | [u] => return [.instanceOf subject (.uri u)]
  | us => do
    let v ← freshVariable
    return [.instanceOf subject (.var v), .isOneOf v us]

mutual

/-- The patterns for a term about a subject. -/
def lower (x : Setting) : Term → Variable → Lower (List Pattern)
  | .invalid _, _ => failure
  | .literal _ l, subject => lowerLiteral x l subject
  | .resource _ u, subject => return [.isResource subject u]
  | .types _ us, subject => lowerTypes us subject
  | .group _ .and ts, subject => lowerAll x ts subject
  | .group _ .or ts, subject => do return [.union (← lowerBranches x ts subject)]
  | .negation _ t, subject => do return [.fails (← inGroup (lower x t subject))]
  | .optional _ t, subject => do return [.optional (← inGroup (lower x t subject))]
  | .comparison _ c t, subject => lowerComparison x c t (lower x t) subject

/-- The patterns for terms that all hold. -/
def lowerAll (x : Setting) : List Term → Variable → Lower (List Pattern)
  | [], _ => return []
  | t :: ts, subject => do
    let ps ← lower x t subject
    return ps ++ (← lowerAll x ts subject)

/-- The blocks for terms one of which holds. -/
def lowerBranches (x : Setting) : List Term → Variable → Lower (List Pattern)
  | [], _ => return []
  | t :: ts, subject => do
    let ps ← inGroup (lower x t subject)
    return .block ps :: (← lowerBranches x ts subject)

end

end DesktopSearch.Sparql
