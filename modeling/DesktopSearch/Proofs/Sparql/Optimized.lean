import DesktopSearch.Proofs.Sparql.Span
import DesktopSearch.Proofs.Term.Congruence
import DesktopSearch.Sparql.Compilation

/-!
# Queries in normal form

What a query says beside its term is joined to the term in two ways, as a member of a group and with the
operator that merges groups; both may be done with the term or with its normal form, and the canonical
term of the whole query is the same (`canonical_wholeTerm_optimized`). Since lowering sees no more than
that term, a query in normal form compiles to the text of the query (`compile_optimized`).
-/

namespace DesktopSearch.Sparql

open Term

/-! ## The term of a query -/

theorem canonical_addRequest {t u : Term} (h : t.canonical = u.canonical) (counting : Bool)
    (r : RequestProperty × Nat) :
    (addRequest counting t r).canonical = (addRequest counting u r).canonical := by
  rw [addRequest, addRequest]
  split
  · exact canonical_join_congr h rfl
  split
  · exact canonical_join_congr h rfl
  · exact h

theorem canonical_foldl_addRequest {t u : Term} (h : t.canonical = u.canonical) (counting : Bool)
    (rs : List (RequestProperty × Nat)) :
    (rs.foldl (addRequest counting) t).canonical = (rs.foldl (addRequest counting) u).canonical := by
  induction rs generalizing t u with
  | nil => exact h
  | cons r rs ih => exact ih (canonical_addRequest h counting r)

/-- The term of a query may be brought into normal form before the rest of the query is made part of it. -/
theorem canonical_wholeTerm_optimized (q : Query) (counting : Bool) :
    (wholeTerm q.optimized counting).canonical = (wholeTerm q counting).canonical := by
  refine canonical_foldl_addRequest ?_ counting _
  change (if q.isFileQuery then allOf [q.term.optimize, modeFilter q.fileMode, folderFilter q]
    else q.term.optimize).canonical = _
  split
  · exact canonical_group_congr (by simp [canonical_optimize])
  · exact canonical_optimize q.term

/-! ## Compiling -/

/-- What is lowered for a query is, without its spans, a matter of its canonical term. -/
theorem bare_prepared (o : Ontology) (q : Query) (counting : Bool) :
    (prepared o q counting).bare = anchor (refine o (wholeTerm q counting).canonical) := by
  rw [prepared, bare_anchor, bare_refine, canonical]

theorem body?_optimized (o : Ontology) (q : Query) (f : Flags) :
    body? o q.optimized f = body? o q f := by
  have hbare : (prepared o q.optimized f.counting).bare = (prepared o q f.counting).bare := by
    rw [bare_prepared, canonical_wholeTerm_optimized, bare_prepared]
  have hvalid : (prepared o q.optimized f.counting).isValid = (prepared o q f.counting).isValid := by
    rw [← isValid_bare, hbare, isValid_bare]
  have hlower (x : Setting) :
      lower x (prepared o q.optimized f.counting) = lower x (prepared o q f.counting) := by
    rw [← lower_bare, hbare, lower_bare]
  simp only [body?, hvalid, hlower]
  rfl

/-- A query compiles to the same text whether or not its term has been brought into normal form. -/
theorem compile_optimized (o : Ontology) (q : Query) (flags : Flags) :
    compile o q.optimized flags = compile o q flags := by
  have hflags : q.optimized.flags = q.flags := rfl
  have htext (f : Flags) (patterns : List Pattern) (s : Lowering) :
      assemble q.optimized f patterns s = assemble q f patterns s := rfl
  simp only [compile, hflags, body?_optimized, htext]

end DesktopSearch.Sparql
