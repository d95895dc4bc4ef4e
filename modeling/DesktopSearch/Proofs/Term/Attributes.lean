import DesktopSearch.Proofs.Literal
import DesktopSearch.Proofs.Xml.Tag
import DesktopSearch.Term.Markup

/-!
# Attributes read back

The attributes that literals and comparisons are written with, and what is read out of them again. An
attribute is `given` or left out, and the value of an attribute is found whatever stands around it. Of a
comparison all is recorded but the order of a comparison that is not sorted by.
-/

namespace DesktopSearch

/-! ## Attributes that may be left out -/

namespace Xml

/-- An attribute, left out if it has no value. -/
def given (name : String) (value : Option String) : List (String × String) :=
  (value.map fun v => (name, v)).toList

/-- The attributes with given names that have a value. -/
def allGiven (fields : List (String × Option String)) : List (String × String) :=
  fields.flatMap fun f => given f.1 f.2

/-- Only the listed fields become attributes. -/
theorem mem_allGiven {fields : List (String × Option String)} {a : String × String}
    (h : a ∈ allGiven fields) : a.1 ∈ fields.map Prod.fst := by
  obtain ⟨⟨name, value⟩, hmem, ha⟩ := List.mem_flatMap.1 h
  rw [given, Option.mem_toList, Option.map_eq_some_iff] at ha
  obtain ⟨v, -, rfl⟩ := ha
  exact List.mem_map_of_mem hmem

/-- An attribute is found at the first field of its name that has a value. -/
theorem attribute?_given_append (key name : String) (value : Option String)
    (as : List (String × String)) : attribute? (given key value ++ as) name =
      if key = name then value.or (attribute? as name) else attribute? as name := by
  cases value with
  | none => simp [given]
  | some v => by_cases h : key = name <;> simp [given, attribute?, h]

theorem attribute?_allGiven_of_notMem {fields : List (String × Option String)} {name : String}
    (h : name ∉ fields.map Prod.fst) : attribute? (allGiven fields) name = none := by
  rw [attribute?, List.find?_eq_none.2, Option.map_none]
  intro a ha heq
  exact h (beq_iff_eq.1 heq ▸ mem_allGiven ha)

/-- The value of an attribute is found by its name. -/
theorem attribute?_allGiven {fields : List (String × Option String)}
    (hnames : (fields.map Prod.fst).Nodup) {name : String} {value : Option String}
    (h : (name, value) ∈ fields) : attribute? (allGiven fields) name = value := by
  induction fields with
  | nil => simp at h
  | cons f fields ih =>
    rw [List.map_cons, List.nodup_cons] at hnames
    rw [allGiven, List.flatMap_cons, ← allGiven, attribute?_given_append]
    rcases List.mem_cons.1 h with rfl | h
    · rw [if_pos rfl, attribute?_allGiven_of_notMem hnames.1, Option.or_none]
    · rw [if_neg, ih hnames.2 h]
      rintro rfl
      exact hnames.1 (List.mem_map.2 ⟨_, h, rfl⟩)

end Xml

/-! ## Names -/

theorem Period.ofName?_name (p : Period) : Period.ofName? p.name = some p := by
  cases p <;> rfl

theorem Comparator.ofSymbol_symbol (c : Comparator) : Comparator.ofSymbol c.symbol = c := by
  cases c <;> rfl

theorem Aggregate.ofName_name (a : Aggregate) : Aggregate.ofName a.name = .ok (some a) := by
  cases a <;> rfl

theorem SortOrder.ofName_name (o : SortOrder) : SortOrder.ofName o.name = o := by
  cases o <;> rfl

/-! ## Comparisons -/

/-- What the attributes of a comparison say of it: the order of one that is not sorted by is left
out. -/
def Comparison.recorded (c : Comparison) : Comparison :=
  { c with sortOrder := if c.sortWeight = 0 then .ascending else c.sortOrder }

/-- Sort weights have 32 bits. -/
def Comparison.Fits (c : Comparison) : Prop :=
  -(Text.int32Limit : Int) ≤ c.sortWeight ∧ c.sortWeight < Text.int32Limit

theorem Comparison.recorded_recorded (c : Comparison) : c.recorded.recorded = c.recorded := by
  by_cases h : c.sortWeight = 0 <;> simp [recorded, h]

namespace Term

open Xml

/-- The attributes of a comparison, each with its value if it is written. -/
def comparisonFields (c : Comparison) : List (String × Option String) :=
  [("property", c.property.map Uri.text), ("comparator", some c.comparator.symbol),
    ("varname", c.variableName), ("aggregate", c.aggregate.map Aggregate.name),
    ("sortWeight", if c.sortWeight = 0 then none else some (toString c.sortWeight)),
    ("sortOrder", if c.sortWeight = 0 then none else some c.sortOrder.name),
    ("inverted", if c.inverted then some "true" else none)]

theorem comparisonAttributes_eq (c : Comparison) :
    comparisonAttributes c = allGiven (comparisonFields c) := by
  rcases c with ⟨property, comparator, inverted, variableName, aggregate, weight, order⟩
  cases property <;> cases inverted <;> cases variableName <;> cases aggregate <;>
    by_cases hw : weight = 0 <;>
    simp [comparisonAttributes, allGiven, comparisonFields, given, hw]

theorem isName_comparisonAttributes (c : Comparison) :
    ∀ a ∈ comparisonAttributes c, isName a.1.toList = true := by
  intro a ha
  rw [comparisonAttributes_eq] at ha
  have hnames : ∀ name ∈ (comparisonFields c).map Prod.fst, isName name.toList = true := by
    change ∀ name ∈ ["property", "comparator", "varname", "aggregate", "sortWeight", "sortOrder",
      "inverted"], isName name.toList = true
    decide
  exact hnames _ (mem_allGiven ha)

/-- Every field of a comparison is found under its name. -/
theorem attribute?_comparisonAttributes {c : Comparison} {name : String} {value : Option String}
    (h : (name, value) ∈ comparisonFields c) :
    attribute? (comparisonAttributes c) name = value := by
  have hnodup : ((comparisonFields c).map Prod.fst).Nodup := by
    change ["property", "comparator", "varname", "aggregate", "sortWeight", "sortOrder",
      "inverted"].Nodup
    decide
  rw [comparisonAttributes_eq, attribute?_allGiven hnodup h]

/-- A missing aggregate is read back as none. -/
theorem readAggregate_written (a : Option Aggregate) :
    Aggregate.ofName ((a.map Aggregate.name).getD "") = .ok a := by
  cases a with
  | none => rfl
  | some a => exact Aggregate.ofName_name a

/-- The attributes of a comparison are read back to what is recorded of it. -/
theorem comparisonOf?_comparisonAttributes {c : Comparison} (h : c.Fits) :
    comparisonOf? (comparisonAttributes c) = some c.recorded := by
  have hproperty : attribute? (comparisonAttributes c) "property" = c.property.map Uri.text :=
    attribute?_comparisonAttributes (by simp [comparisonFields])
  have hcomparator :
      attribute? (comparisonAttributes c) "comparator" = some c.comparator.symbol :=
    attribute?_comparisonAttributes (by simp [comparisonFields])
  have hvariable : attribute? (comparisonAttributes c) "varname" = c.variableName :=
    attribute?_comparisonAttributes (by simp [comparisonFields])
  have haggregate :
      attribute? (comparisonAttributes c) "aggregate" = c.aggregate.map Aggregate.name :=
    attribute?_comparisonAttributes (by simp [comparisonFields])
  have hweight : attribute? (comparisonAttributes c) "sortWeight" =
      if c.sortWeight = 0 then none else some (toString c.sortWeight) :=
    attribute?_comparisonAttributes (by simp [comparisonFields])
  have horder : attribute? (comparisonAttributes c) "sortOrder" =
      if c.sortWeight = 0 then none else some c.sortOrder.name :=
    attribute?_comparisonAttributes (by simp [comparisonFields])
  have hinverted : attribute? (comparisonAttributes c) "inverted" =
      if c.inverted then some "true" else none :=
    attribute?_comparisonAttributes (by simp [comparisonFields])
  have hmap : (c.property.map Uri.text).map Uri.mk = c.property := by cases c.property <;> rfl
  have htrue : ((if c.inverted then some "true" else none) == some "true") = c.inverted := by
    cases c.inverted <;> rfl
  simp only [comparisonOf?, hproperty, hcomparator, hvariable, haggregate, hweight, horder, flag,
    hinverted, hmap, htrue, readAggregate_written, Option.getD_some, Comparator.ofSymbol_symbol]
  by_cases hw : c.sortWeight = 0
  · simp [hw, Comparison.recorded]
  · have htrim : Text.trim (toString c.sortWeight).toList = (toString c.sortWeight).toList :=
      Text.trim_eq_self fun d hd => Text.not_isBlank_of_mem_toString_int hd
    simp only [if_neg hw, htrim, Text.readInt?_toString h.1 h.2, Option.isSome_some, if_true,
      Option.getD_some, SortOrder.ofName_name, Comparison.recorded]

/-! ## Literals -/

/-- The precision that is written: that of a date, unless it is known to the second. -/
def writtenPrecision : Literal → Option String
  | .dateTime m => if m.precision = .second then none else some m.precision.name
  | _ => none

/-- The attributes of a literal, each with its value if it is written. -/
def literalFields (l : Literal) : List (String × Option String) :=
  [("datatype", some l.datatype.text), ("granularity", writtenPrecision l)]

theorem literalAttributes_eq (l : Literal) :
    literalAttributes l = allGiven (literalFields l) := by
  cases l with
  | dateTime m =>
    by_cases hp : m.precision = .second <;>
      simp [literalAttributes, allGiven, literalFields, given, Literal.moment?, writtenPrecision, hp]
  | _ => rfl

theorem isName_literalAttributes (l : Literal) :
    ∀ a ∈ literalAttributes l, isName a.1.toList = true := by
  intro a ha
  rw [literalAttributes_eq] at ha
  have hnames : ∀ name ∈ ["datatype", "granularity"], isName name.toList = true := by decide
  exact hnames _ (mem_allGiven ha)

/-- Every field of a literal is found under its name. -/
theorem attribute?_literalAttributes {l : Literal} {name : String} {value : Option String}
    (h : (name, value) ∈ literalFields l) :
    attribute? (literalAttributes l) name = value := by
  have hnodup : ((literalFields l).map Prod.fst).Nodup := by
    change ["datatype", "granularity"].Nodup
    decide
  rw [literalAttributes_eq, attribute?_allGiven hnodup h]

/-- The attributes and the text of a literal are read back to what is recorded of it. -/
theorem literalOf_literalAttributes {l : Literal} (hfits : l.Fits)
    (hdouble : ∀ d, l = .double d → Double.read? d.text.toList = some d) :
    literalOf (literalAttributes l) l.text = ofLiteral l.recorded := by
  have hdatatype : attribute? (literalAttributes l) "datatype" = some l.datatype.text :=
    attribute?_literalAttributes (by simp [literalFields])
  have hread : Literal.ofLexical? l.text (some ⟨l.datatype.text⟩) = some l.plain :=
    Literal.ofLexical?_text hfits hdouble
  cases l with
  | dateTime m =>
    have hprecision : attribute? (literalAttributes (.dateTime m)) "granularity" =
        if m.precision = .second then none else some m.precision.name :=
      attribute?_literalAttributes (by simp [literalFields, writtenPrecision])
    simp only [literalOf, hdatatype, Option.map_some, hread, Literal.plain, hprecision,
      Literal.recorded]
    by_cases hp : m.precision = .second
    · simp [hp, Moment.exact]
    · simp [hp, Period.ofName?_name, Moment.exact]
  | _ => simp only [literalOf, hdatatype, Option.map_some, hread, Literal.plain, Literal.recorded]

end Term

end DesktopSearch
