import DesktopSearch.Proofs.Sparql.Searchable
import DesktopSearch.Sparql.Compilation

/-!
# Queries that compile

A query for a term compiles to the empty text exactly if the term says nothing, provided that the term
is searchable whenever it says something (`compile_ofTerm_eq_empty_iff`). Such a term has patterns, and
every text around patterns starts with a word, which squeezing blanks keeps.
-/

namespace DesktopSearch.Sparql

/-! ## Squeezing -/

theorem squeeze_cons_ne_nil {c : Char} (h : Text.isBlank c = false) (cs : List Char) :
    squeeze (c :: cs) ≠ [] := by
  simp [squeeze, squeezeFrom, h]

/-- The words that the text of a query starts with. -/
def heads : List String :=
  ["select count(distinct ?r) as ?cnt ", "select count(*) as ?cnt where \x7b \x7b select distinct ?r ",
    "ask ", "select distinct ?r "]

theorem assemble_eq_append (q : Query) (f : Flags) (patterns : List Pattern) (s : Lowering) :
    ∃ head ∈ heads, ∃ rest, assemble q f patterns s = head ++ rest := by
  simp only [assemble, String.append_assoc]
  split
  · split
    · exact ⟨_, by simp [heads], _, rfl⟩
    · exact ⟨_, by simp [heads], _, rfl⟩
  split
  · exact ⟨_, by simp [heads], _, rfl⟩
  · exact ⟨_, by simp [heads], _, rfl⟩

theorem squeeze_assemble_ne_empty (q : Query) (f : Flags) (patterns : List Pattern)
    (s : Lowering) : String.ofList (squeeze (assemble q f patterns s).toList) ≠ "" := by
  have hheads : ∀ head ∈ heads, head.toList.head?.any (!Text.isBlank ·) = true := by decide
  obtain ⟨head, hmem, rest, htext⟩ := assemble_eq_append q f patterns s
  have hstart := hheads head hmem
  rw [htext, String.toList_append]
  cases hchars : head.toList with
  | nil => simp [hchars] at hstart
  | cons c cs =>
    have hc : Text.isBlank c = false := by simpa [hchars] using hstart
    simpa using squeeze_cons_ne_nil hc (cs ++ rest.toList)

/-! ## Compiling -/

variable {o : Ontology} {t : Term}

theorem prepared_ofTerm (o : Ontology) (t : Term) (counting : Bool) :
    prepared o (.ofTerm t) counting = anchor (refine o t.optimize) := rfl

/-- A query whose prepared term says nothing is not expressed. -/
theorem compile_of_not_isValid {q : Query} {f : Flags}
    (h : (prepared o q (f.withQuery q.flags).counting).isValid = false) : compile o q f = "" := by
  rw [compile, body?]
  simp only [h]
  rfl

theorem compile_ofTerm_of_not_isValid (h : t.isValid = false) (f : Flags) :
    compile o (.ofTerm t) f = "" := by
  refine compile_of_not_isValid ?_
  rw [prepared_ofTerm, Term.optimize_of_not_isValid h]
  cases t with
  | invalid s => rfl
  | _ => simp [Term.isValid] at h

/-- A searchable term has patterns. -/
theorem exists_body?_ofTerm (ho : o.IsHierarchy) (h : Searchable o t) (f : Flags) :
    ∃ r, body? o (.ofTerm t) f = some r := by
  have hprepared := h.optimize.refine ho
  have hvalid : (prepared o (.ofTerm t) f.counting).isValid = true :=
    isValid_anchor hprepared.isValid
  obtain ⟨patterns, s, hlower, hfull⟩ :=
    Searchable.writes_lower_anchor (x := ⟨o, f.inverses, false⟩) hprepared .result {}
  have hlower : lower ⟨o, f.inverses, (Query.ofTerm t).scoring && !f.counting⟩
      (prepared o (.ofTerm t) f.counting) .result {} = some (patterns, s) := hlower
  have hfull : patterns.isEmpty = false := by simpa using hfull
  rw [body?]
  simp only [hvalid, hlower, Bool.not_true, Option.bind_eq_bind, Option.bind_some, hfull]
  split
  · contradiction
  split
  · exact ⟨_, rfl⟩
  · exact ⟨_, rfl⟩

/-- A query with patterns compiles. -/
theorem compile_ne_empty {q : Query} {f : Flags} {r : List Pattern × Lowering}
    (h : body? o q (f.withQuery q.flags) = some r) : compile o q f ≠ "" := by
  rw [compile, h]
  exact squeeze_assemble_ne_empty _ _ _ _

/-- A query that compiles is expressed by patterns, and its text is squeezed from what is assembled of
them. -/
theorem exists_body?_of_compile {q : Query} {f : Flags} (h : compile o q f ≠ "") :
    ∃ ps s, body? o q (f.withQuery q.flags) = some (ps, s) ∧
      compile o q f = String.ofList (squeeze (assemble q (f.withQuery q.flags) ps s).toList) := by
  rw [compile] at h ⊢
  cases hbody : body? o q (f.withQuery q.flags) with
  | none =>
    rw [hbody] at h
    contradiction
  | some body => exact ⟨body.1, body.2, rfl, rfl⟩

/-- A query for a term that is searchable if it says anything compiles exactly if it does. -/
theorem compile_ofTerm_eq_empty_iff (ho : o.IsHierarchy)
    (h : t.isValid = true → Searchable o t) (f : Flags) :
    compile o (.ofTerm t) f = "" ↔ (Query.ofTerm t).isValid = false := by
  have hquery : (Query.ofTerm t).isValid = t.isValid := Bool.or_false _
  rw [hquery]
  refine ⟨fun hempty => ?_, fun hinvalid => compile_ofTerm_of_not_isValid hinvalid f⟩
  by_contra hvalid
  rw [Bool.not_eq_false] at hvalid
  obtain ⟨r, hbody⟩ := exists_body?_ofTerm ho (h hvalid) (f.withQuery _)
  exact compile_ne_empty hbody hempty

end DesktopSearch.Sparql
