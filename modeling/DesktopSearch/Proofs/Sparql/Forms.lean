import DesktopSearch.Ontology.Desktop
import DesktopSearch.Sparql.Compilation
import Mathlib.Data.List.Forall2

/-!
# Selecting, asking and counting

A query is compiled to a selection of its results, to the question whether there are any, or to their number.
The three forms are `Frame`s around a graph pattern, which depends on the form in two ways only : a selection
may have scores, and it fetches optional properties. So without scores and optional properties every form is
written around the same text, and the two forms that select nothing do not change with what is about
selections alone (`forms_agree`).
-/

namespace DesktopSearch

/-- Two requests ask for the same property, unless both are optional. -/
def RequestProperty.NeedsLike (a b : RequestProperty) : Prop :=
  a.optional = b.optional ∧ (a.optional = false → a.property = b.property)

/-- Two queries differ in paging, in scoring and in the properties of optional requests at most. -/
structure Query.AsksLike (q r : Query) : Prop where
  term : q.term = r.term
  isFileQuery : q.isFileQuery = r.isFileQuery
  fileMode : q.fileMode = r.fileMode
  includeFolders : q.includeFolders = r.includeFolders
  excludeFolders : q.excludeFolders = r.excludeFolders
  flags : q.flags = r.flags
  requests : List.Forall₂ RequestProperty.NeedsLike q.requestProperties r.requestProperties

namespace Sparql

variable {o : Ontology} {q r : Query} {f g : Flags}

/-! ## Around the graph pattern -/

/-- The graph pattern of a query: the text in the braces behind `where`, before blanks are squeezed. -/
def graphPattern? (o : Ontology) (q : Query) (flags : Flags) : Option String :=
  (body? o q (flags.withQuery q.flags)).map fun body => Pattern.textAll body.1

/-- What a form writes in front of its graph pattern and behind it. -/
inductive Frame (f : Flags) : (front back : String) → Prop
  | selection (columns order : String) (ask : f.ask = false) (count : f.count = false) :
    Frame f ("select distinct ?r " ++ columns ++ " ") order
  | question (ask : f.ask = true) (count : f.count = false) : Frame f "ask " ""
  | number (count : f.count = true) : Frame f "select count(distinct ?r) as ?cnt " ""
  | numberOfRows (columns : String) (count : f.count = true) :
    Frame f ("select count(*) as ?cnt where \x7b \x7b select distinct ?r " ++ columns ++ " ")
      " \x7d \x7d"

/-- What a selection lists beside the result. -/
def listed (q : Query) (f : Flags) (s : Lowering) : List String :=
  selected (q.scoring && !f.counting) s ++ if f.withExcerpt then excerpt s.searches else []

/-- A selection lists its columns in front of the graph pattern, and tells the order behind it. -/
theorem assemble_selection (hask : f.ask = false) (hcount : f.count = false) (patterns : List Pattern)
    (s : Lowering) : assemble q f patterns s =
      "select distinct ?r " ++ " ".intercalate (listed q f s) ++ " " ++ whereText patterns ++
        orderClause q (q.scoring && !f.counting) s ++ pageClause q := by
  rw [assemble]
  dsimp only
  rw [hcount, if_neg Bool.false_ne_true, hask, if_neg Bool.false_ne_true]
  rfl

/-- The text of a query is framed as its form wants it. -/
theorem exists_frame (q : Query) (f : Flags) (patterns : List Pattern) (s : Lowering) :
    ∃ front back, Frame f front back ∧
      assemble q f patterns s = front ++ whereText patterns ++ back := by
  cases hcount : f.count with
  | true =>
    rw [assemble]
    dsimp only
    rw [hcount, if_pos rfl]
    split
    · exact ⟨_, _, .number hcount, String.append_empty.symm⟩
    · exact ⟨_, _, .numberOfRows _ hcount, rfl⟩
  | false =>
    cases hask : f.ask with
    | true =>
      rw [assemble]
      dsimp only
      rw [hcount, if_neg Bool.false_ne_true, hask, if_pos rfl]
      exact ⟨_, _, .question hask hcount, String.append_empty.symm⟩
    | false =>
      rw [assemble_selection hask hcount, String.append_assoc]
      exact ⟨_, _, .selection _ _ hask hcount, rfl⟩

/-- A query is written around its graph pattern, and it is not expressed if it has none. -/
theorem compile_eq_framed (o : Ontology) (q : Query) (f : Flags) :
    (graphPattern? o q f = none ∧ compile o q f = "") ∨
      ∃ pattern front back, graphPattern? o q f = some pattern ∧ Frame f front back ∧
        compile o q f = String.ofList
          (squeeze (front ++ ("where \x7b " ++ pattern ++ " \x7d") ++ back).toList) := by
  rw [graphPattern?, compile]
  cases body? o q (f.withQuery q.flags) with
  | none => exact Or.inl ⟨rfl, rfl⟩
  | some body =>
    obtain ⟨front, back, hframe, htext⟩ := exists_frame q (f.withQuery q.flags) body.1 body.2
    refine Or.inr ⟨_, front, back, rfl, ?_, congrArg (fun t => String.ofList (squeeze t.toList)) htext⟩
    cases hframe with
    | selection columns _ ask count => exact .selection columns _ ask count
    | question ask count => exact .question ask count
    | number count => exact .number count
    | numberOfRows columns count => exact .numberOfRows columns count

/-! ## What the pattern depends on -/

/-- Requests that are not optional are fetched in every form. -/
theorem wholeTerm_of_required (h : ∀ e ∈ q.requestProperties, e.optional = false)
    (counting counting' : Bool) : wholeTerm q counting = wholeTerm q counting' := by
  refine List.foldl_ext _ _ _ fun t e he => ?_
  have hrequired : e.1.optional = false := h e.1 (List.fst_mem_of_mem_zipIdx he)
  rw [addRequest, addRequest, hrequired]
  rfl

/-- Without scores and optional properties, no pattern depends on the form. -/
theorem body?_of_required (hscoring : q.scoring = false)
    (h : ∀ e ∈ q.requestProperties, e.optional = false) (ask count : Bool) :
    body? o q { f with ask, count } = body? o q f := by
  rw [body?, body?, prepared, prepared, wholeTerm_of_required h _ f.counting, hscoring]
  rfl

/-- What optional requests fetch is of no account if they are left out. -/
theorem foldl_addRequest_congr {as bs : List RequestProperty}
    (h : List.Forall₂ RequestProperty.NeedsLike as bs) (t : Term) (start : Nat) :
    (as.zipIdx start).foldl (addRequest true) t = (bs.zipIdx start).foldl (addRequest true) t := by
  induction h generalizing t start with
  | nil => rfl
  | @cons a b as bs hab _ ih =>
    have hadd : addRequest true t (a, start) = addRequest true t (b, start) := by
      obtain ⟨hoptional, hproperty⟩ := hab
      rw [addRequest, addRequest, ← hoptional]
      cases ha : a.optional with
      | true => rfl
      | false => rw [hproperty ha]
    rw [List.zipIdx_cons, List.foldl_cons, hadd, ih, List.zipIdx_cons, List.foldl_cons]

theorem wholeTerm_congr (h : q.AsksLike r) : wholeTerm q true = wholeTerm r true := by
  have hfolders : folderFilter q = folderFilter r := by
    rw [folderFilter, folderFilter, h.includeFolders, h.excludeFolders]
  rw [wholeTerm, wholeTerm, foldl_addRequest_congr h.requests, h.term, h.isFileQuery, h.fileMode,
    hfolders]

/-- Nothing is selected in the other two forms, so their patterns are the same for queries that differ in
selections only. -/
theorem body?_congr (h : q.AsksLike r) (hf : f.counting = true) : body? o q f = body? o r f := by
  have hscoring (q : Query) : (q.scoring && !f.counting) = false := by rw [hf]; exact Bool.and_false _
  rw [body?, body?, prepared, prepared, hf, wholeTerm_congr h, ← hf, hscoring q, hscoring r,
    h.isFileQuery]

/-- The text around the patterns is the same, too. -/
theorem assemble_congr (q r : Query) (hf : f.counting = true) (patterns : List Pattern)
    (s : Lowering) : assemble q f patterns s = assemble r f patterns s := by
  have hscoring (q : Query) : (q.scoring && !f.counting) = false := by rw [hf]; exact Bool.and_false _
  rw [assemble, assemble, hscoring q, hscoring r]
  cases hcount : f.count with
  | true => rfl
  | false =>
    have hask : f.ask = true := by simpa [Flags.counting, hcount] using hf
    rw [hask]
    rfl

/-- Every form is written around the graph pattern of the query. A query without scores and optional
requests has the same graph pattern, or none, whether its results are selected, asked for or counted ; and
what is asked or counted is the same for queries that differ in paging, in scoring and in the properties of
optional requests. -/
theorem forms_agree (o : Ontology) (q : Query) (f : Flags) :
    ((graphPattern? o q f = none ∧ compile o q f = "") ∨
      ∃ pattern front back, graphPattern? o q f = some pattern ∧ Frame f front back ∧
        compile o q f = String.ofList
          (squeeze (front ++ ("where \x7b " ++ pattern ++ " \x7d") ++ back).toList)) ∧
    (q.scoring = false → (∀ e ∈ q.requestProperties, e.optional = false) → ∀ ask count,
      graphPattern? o q { f with ask, count } = graphPattern? o q f) ∧
    ∀ r, q.AsksLike r → f.ask = true ∨ f.count = true → compile o r f = compile o q f := by
  refine ⟨compile_eq_framed o q f, fun hscoring hrequired ask count => ?_, fun r hr hform => ?_⟩
  · have hbody := body?_of_required (o := o) (f := f.withQuery q.flags) hscoring hrequired ask count
    exact congrArg (Option.map fun body => Pattern.textAll body.1) hbody
  · have hcounting : (f.withQuery q.flags).counting = true := by
      simpa [Flags.counting, Flags.withQuery] using hform
    rw [compile, compile, ← hr.flags, body?_congr hr hcounting]
    simp only [assemble_congr q r hcounting]

/-- The title is fetched whether reports are listed or counted; and their number is the same on every page,
with scores, and with dates of change in place of dates of creation. -/
theorem forms_agree_reports :
    let q : Query :=
      { term := .ofLiteral (.string "report"), requestProperties := [⟨Vocabulary.Nie.title, false⟩] }
    let dated (property : Uri) : Query := q.addRequestProperty ⟨property, true⟩
    let created := dated Vocabulary.Nie.created
    let changed := { dated Vocabulary.Nie.lastModified with limit := 10, offset := 20, scoring := true }
    q.scoring = false ∧ (∀ e ∈ q.requestProperties, e.optional = false) ∧
      graphPattern? .desktop q { count := true } = graphPattern? .desktop q {} ∧
      (graphPattern? .desktop q {}).isSome = true ∧
      created.AsksLike changed ∧
      compile .desktop changed { count := true } = compile .desktop created { count := true } := by
  intro q dated created changed
  have hrequired : ∀ e ∈ q.requestProperties, e.optional = false := by simp [q]
  have hlike : created.AsksLike changed :=
    ⟨rfl, rfl, rfl, rfl, rfl, rfl, .cons ⟨rfl, fun _ => rfl⟩ (.cons ⟨rfl, by simp⟩ .nil)⟩
  have hcounted := (forms_agree .desktop q {}).2.1 rfl hrequired false true
  have hsame := (forms_agree .desktop created { count := true }).2.2 changed hlike (Or.inr rfl)
  exact ⟨rfl, hrequired, hcounted, by decide +kernel, hlike, hsame⟩

end Sparql

end DesktopSearch
