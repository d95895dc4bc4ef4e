import DesktopSearch.Literal

/-!
# Ontologies

What is known about classes and properties. `Ontology` is the knowledge a query is compiled against;
`Ontology.Table` holds such knowledge as lists of facts, a later fact about a property taking the place
of an earlier one. Being a subclass is following one or more subclass facts upwards.
-/

namespace DesktopSearch

/-- Knowledge about classes and properties. -/
structure Ontology where
  /-- Whether the first class is a proper subclass of the second. -/
  isSubclassOf : Uri → Uri → Bool
  /-- The class or datatype that the values of a property belong to. -/
  range? : Uri → Option Uri
  /-- The property that says the same with subject and object exchanged. -/
  inverse? : Uri → Option Uri
  /-- Whether a resource has at most one value of a property. -/
  isSingleValued : Uri → Bool

namespace Ontology

/-- The kind of the values of a property, if they are literals. -/
def literalRange? (o : Ontology) (property : Uri) : Option LiteralType :=
  (o.range? property).bind LiteralType.ofDatatype?

/-- Facts about classes and properties, the latest first. -/
structure Table where
  ranges : List (Uri × Uri) := []
  parents : List (Uri × Uri) := []
  inverses : List (Uri × Uri) := []
  singleValued : List Uri := []

namespace Table

/-- States the range of a property. -/
def addProperty (t : Table) (property range : Uri) : Table :=
  { t with ranges := (property, range) :: t.ranges }

/-- States that a class has a parent. -/
def addSubclass (t : Table) (child parent : Uri) : Table :=
  { t with parents := (child, parent) :: t.parents }

/-- States that two properties are inverse to each other. -/
def addInverse (t : Table) (property inverse : Uri) : Table :=
  { t with inverses := (inverse, property) :: (property, inverse) :: t.inverses }

/-- States that a property has at most one value. -/
def addSingleValued (t : Table) (property : Uri) : Table :=
  { t with singleValued := property :: t.singleValued }

/-- The parents that facts give a class. -/
def parentsOf (c : Uri) (facts : List (Uri × Uri)) : List Uri :=
  (facts.filter (·.1 == c)).map Prod.snd

/-- The facts about classes that have not been visited. -/
def unvisited (visited : List Uri) (facts : List (Uri × Uri)) : List (Uri × Uri) :=
  facts.filter fun f => !visited.contains f.1

theorem unvisited_cons (c : Uri) (visited : List Uri) (facts : List (Uri × Uri)) :
    unvisited (c :: visited) facts = (unvisited visited facts).filter (·.1 != c) := by
  rw [unvisited, unvisited, List.filter_filter]
  refine List.filter_congr fun f _ => ?_
  rw [List.contains_cons, Bool.not_or, bne]

theorem length_unvisited_cons_le (c : Uri) (visited : List Uri) (facts : List (Uri × Uri)) :
    (unvisited (c :: visited) facts).length ≤ (unvisited visited facts).length := by
  rw [unvisited_cons]
  exact List.filter_sublist.length_le

/-- There is no fact about a class whose visit uses up no facts. -/
theorem parentsOf_eq_nil {c : Uri} {visited : List Uri} {facts : List (Uri × Uri)}
    (hc : visited.contains c = false)
    (h : (unvisited visited facts).length ≤ (unvisited (c :: visited) facts).length) :
    parentsOf c facts = [] := by
  rw [unvisited_cons] at h
  have hall := List.filter_eq_self.1 (List.filter_sublist.eq_of_length_le h)
  have hnone : facts.filter (·.1 == c) = [] :=
    List.filter_eq_nil_iff.2 fun f hf hfc => by
      obtain rfl := beq_iff_eq.1 hfc
      have hmem : f ∈ unvisited visited facts := List.mem_filter.2 ⟨hf, by rw [hc]; rfl⟩
      exact absurd (hall f hmem) (by simp)
  rw [parentsOf, hnone, List.map_nil]

/-- Whether subclass facts lead from one of the pending classes to `target`. The parents of a class are
pending when it is visited, and a class that has been visited is passed over : a visit uses up the facts
about its class, and where there are none nothing new is pending. -/
def leadsTo (target : Uri) (facts : List (Uri × Uri)) (visited pending : List Uri) : Bool :=
  match pending with
  | [] => false
  | c :: rest =>
    if visited.contains c then leadsTo target facts visited rest
    else
      (parentsOf c facts).contains target ||
        leadsTo target facts (c :: visited) (parentsOf c facts ++ rest)
termination_by ((unvisited visited facts).length, pending.length)
decreasing_by
  · exact Prod.Lex.right _ (Nat.lt_succ_self _)
  · rename_i hc
    rcases Nat.lt_or_ge (unvisited (c :: visited) facts).length (unvisited visited facts).length
      with h | h
    · exact Prod.Lex.left _ _ h
    · rw [parentsOf_eq_nil (by simpa using hc) h,
        Nat.le_antisymm (length_unvisited_cons_le c visited facts) h]
      exact Prod.Lex.right _ (Nat.lt_succ_self _)

/-- Whether a class is a proper subclass of another one. -/
def isSubclassOf (t : Table) (child parent : Uri) : Bool :=
  leadsTo parent t.parents [] [child]

/-- The latest fact about a key. -/
def latest? (facts : List (Uri × Uri)) (key : Uri) : Option Uri :=
  (facts.find? (·.1 == key)).map Prod.snd

/-- The knowledge that the facts of a table amount to. -/
def toOntology (t : Table) : Ontology where
  isSubclassOf := t.isSubclassOf
  range? := latest? t.ranges
  inverse? := latest? t.inverses
  isSingleValued property := t.singleValued.contains property

end Table

end Ontology

end DesktopSearch
