import DesktopSearch.Fusion.Tuning
import DesktopSearch.Proofs.Ontology.Desktop
import Mathlib.Tactic.SplitIfs

/-!
# Properties in every context

A comparison keeps its property or, if that is a name like "title", gets the property that the name
means in the context (`ResourceContext.settle`). A property `HasLiterals` if all that it may come to have
literal values, and `HasResources` if none of them has. The names are of one sort or the other : only
"author" stands for properties with resources as values.
-/

namespace DesktopSearch

open Vocabulary

/-- The property that a comparison gets in a context. -/
def ResourceContext.settle (k : ResourceContext) (property : Option Uri) : Option Uri :=
  match property.bind Uri.pseudoName? with
  | some name => k.resolve? name
  | none => property

/-- A comparison gets the property of its context, and one with a moment becomes the interval of the moment.
-/
theorem tuneComparison_eq (k : ResourceContext) (span : Span) (head : Comparison) (value : Term) :
    tuneComparison k span head value = match value.moment?, head.comparator with
      | some m, .equal => .duringMoment (k.settle head.property) m span
      | _, _ => .comparison span { head with property := k.settle head.property } value := rfl

/-- Whatever the property comes to, its values are literals. -/
def HasLiterals (p : Uri) : Prop :=
  ∀ k : ResourceContext, ∀ q ∈ k.settle (some p), q ∈ Ontology.literalProperties

/-- Whatever the property comes to, its values are resources. -/
def HasResources (p : Uri) : Prop :=
  ∀ k : ResourceContext, ∀ q ∈ k.settle (some p), q ∈ Ontology.resourceProperties

/-! ## Names -/

/-- The names of properties with literals as values. -/
def literalNames : List String := ["title", "size", "name", "created", "modified"]

theorem Uri.splitScheme?_pseudo (name : String) :
    splitScheme? (pseudo name).text.toList = some (propertyScheme.toList, name.toList ++ ['/']) := by
  rw [pseudo, String.toList_append, String.toList_append, String.toList_append, List.append_assoc,
    List.append_assoc]
  rfl

/-- A name is read back up to its first slash. -/
theorem Uri.pseudoName?_eq_some {name : String} (h : '/' ∉ name.toList) :
    (pseudo name).pseudoName? = some name := by
  have hname : ∀ c ∈ name.toList, (c != '/') = true := by
    intro c hc
    simpa using fun heq : c = '/' => h (heq ▸ hc)
  have hhost : (name.toList ++ ['/']).takeWhile (· != '/') = name.toList := by
    rw [List.takeWhile_append_of_pos hname]
    simp
  rw [pseudoName?, scheme?, host?, splitScheme?_pseudo, Option.map_some, Option.map_some,
    String.ofList_toList, if_pos rfl, hhost, String.ofList_toList]

theorem pseudoName?_pseudo {name : String} (h : name ∈ "author" :: literalNames) :
    (Uri.pseudo name).pseudoName? = some name := by
  have hnames : ∀ name ∈ "author" :: literalNames, '/' ∉ name.toList := by decide
  exact Uri.pseudoName?_eq_some (hnames name h)

/-- A name comes to what the context makes of it. -/
theorem settle_pseudo {name : String} (h : name ∈ "author" :: literalNames)
    (k : ResourceContext) : k.settle (some (.pseudo name)) = k.resolve? name := by
  rw [ResourceContext.settle, Option.bind_some, pseudoName?_pseudo h]

namespace ResourceContext

open Ontology

variable {name : String} {q : Uri}

theorem mem_literalProperties_of_common? (h : name ∈ literalNames) (hq : common? name = some q) :
    q ∈ literalProperties := by
  simp only [literalNames, List.mem_cons, List.not_mem_nil, or_false] at h
  rcases h with rfl | rfl | rfl | rfl | rfl <;>
    simp [common?] at hq <;> simp [← hq, literalProperties]

theorem mem_literalProperties_of_ofFiles? (hq : ofFiles? name = some q) :
    q ∈ literalProperties := by
  unfold ofFiles? at hq
  split at hq <;> simp at hq <;> simp [← hq, literalProperties]

theorem mem_literalProperties_of_specific? (h : name ∈ literalNames) {k : ResourceContext}
    (hq : k.specific? name = some q) : q ∈ literalProperties := by
  have hauthor : name ≠ "author" := by
    rintro rfl
    simp [literalNames] at h
  cases k with
  | general => simp [specific?] at hq
  | files => exact mem_literalProperties_of_ofFiles? hq
  | audio =>
    rw [specific?, if_neg hauthor] at hq
    exact mem_literalProperties_of_ofFiles? hq
  | message =>
    rw [specific?] at hq
    split_ifs at hq <;> simp at hq <;> simp [← hq, literalProperties]
  | contact =>
    rw [specific?] at hq
    split_ifs at hq
    simp at hq
    simp [← hq, literalProperties]
  | event =>
    rw [specific?] at hq
    split_ifs at hq <;> simp at hq <;> simp [← hq, literalProperties]

/-- In every context the names of literals stand for properties of literals. -/
theorem mem_literalProperties_of_resolve? (h : name ∈ literalNames) {k : ResourceContext}
    (hq : k.resolve? name = some q) : q ∈ literalProperties := by
  rw [resolve?, Option.or_eq_some_iff] at hq
  rcases hq with hq | ⟨-, hq⟩
  · exact mem_literalProperties_of_specific? h hq
  · exact mem_literalProperties_of_common? h hq

/-- Authors are resources. -/
theorem mem_resourceProperties_of_resolve?_author {k : ResourceContext}
    (hq : k.resolve? "author" = some q) : q ∈ resourceProperties := by
  cases k <;> simp [resolve?, specific?, common?, ofFiles?] at hq <;>
    simp [← hq, resourceProperties]

end ResourceContext

/-! ## Properties of one sort -/

/-- A property that means the same everywhere : no calendar field and no name. -/
structure Uri.IsSettled (p : Uri) : Prop where
  not_field : p.scheme? ≠ some Uri.dateScheme
  not_name : p.scheme? ≠ some Uri.propertyScheme

theorem Uri.isSettled_append {start : String} (h : start.toList.head? = some 'h')
    (rest : String) : (⟨start ++ rest⟩ : Uri).IsSettled := by
  obtain ⟨cs, hcs⟩ := List.head?_eq_some_iff.1 h
  have hscheme {name : String} (hsome : (⟨start ++ rest⟩ : Uri).scheme? = some name) :
      name.toList.head? = some 'h' := by
    rw [scheme?, String.toList_append, hcs, List.cons_append, Option.map_eq_some_iff] at hsome
    obtain ⟨parts, hparts, rfl⟩ := hsome
    rw [splitScheme?.eq_2 _ _ (by simp)] at hparts
    obtain ⟨_, -, rfl⟩ := Option.map_eq_some_iff.1 hparts
    simp
  constructor
  · intro hfield
    simpa [dateScheme] using hscheme hfield
  · intro hname
    simpa [propertyScheme] using hscheme hname

/-- The properties of a vocabulary mean themselves. -/
theorem isSettled_of_mem {p : Uri}
    (h : p ∈ Ontology.literalProperties ++ Ontology.resourceProperties) : p.IsSettled := by
  have nie word : (Nie.name word).IsSettled := Uri.isSettled_append (by simp) word
  have nfo word : (Nfo.name word).IsSettled := Uri.isSettled_append (by simp) word
  have nmo word : (Nmo.name word).IsSettled := Uri.isSettled_append (by simp) word
  have nco word : (Nco.name word).IsSettled := Uri.isSettled_append (by simp) word
  have ncal word : (Ncal.name word).IsSettled := Uri.isSettled_append (by simp) word
  have nao word : (Nao.name word).IsSettled := Uri.isSettled_append (by simp) word
  have nmm word : (Nmm.name word).IsSettled := Uri.isSettled_append (by simp) word
  have rdfs word : (Rdfs.name word).IsSettled := Uri.isSettled_append (by simp) word
  have hall : ∀ p ∈ Ontology.literalProperties ++ Ontology.resourceProperties, p.IsSettled := by
    simp only [Ontology.literalProperties, Ontology.resourceProperties, List.cons_append,
      List.nil_append, List.forall_mem_cons]
    exact ⟨nie _, nie _, nie _, nie _, nfo _, nfo _, nfo _, nfo _, nmo _, nmo _, nmo _, nco _,
      ncal _, ncal _, nao _, nao _, rdfs _, nie _, nfo _, nmo _, nmo _, nmm _, nao _, by simp⟩
  exact hall p h

/-- A property that is no name is kept. -/
theorem settle_of_isSettled {p : Uri} (h : p.IsSettled) (k : ResourceContext) :
    k.settle (some p) = some p := by
  rw [ResourceContext.settle, Option.bind_some, Uri.pseudoName?, if_neg h.not_name]

theorem hasLiterals_of_mem {p : Uri} (h : p ∈ Ontology.literalProperties) : HasLiterals p := by
  intro k q hq
  rw [settle_of_isSettled (isSettled_of_mem (List.mem_append_left _ h))] at hq
  exact Option.mem_some.1 hq ▸ h

theorem hasResources_of_mem {p : Uri} (h : p ∈ Ontology.resourceProperties) : HasResources p := by
  intro k q hq
  rw [settle_of_isSettled (isSettled_of_mem (List.mem_append_right _ h))] at hq
  exact Option.mem_some.1 hq ▸ h

/-- The names of literals have literals as values in every context. -/
theorem hasLiterals_pseudo {name : String} (h : name ∈ literalNames) :
    HasLiterals (.pseudo name) := by
  intro k q hq
  rw [settle_pseudo (List.mem_cons_of_mem _ h)] at hq
  exact ResourceContext.mem_literalProperties_of_resolve? h hq

/-- The values of "author" are resources, whoever wrote what. -/
theorem hasResources_author : HasResources (.pseudo "author") := by
  intro k q hq
  rw [settle_pseudo (by simp)] at hq
  exact ResourceContext.mem_resourceProperties_of_resolve?_author hq

end DesktopSearch
