import DesktopSearch.Proofs.Ontology.Desktop
import DesktopSearch.Proofs.Parser.Cursor
import DesktopSearch.Proofs.Parser.Draft
import DesktopSearch.Proofs.Parser.Reading
import DesktopSearch.Proofs.Sparql.Compilation

/-!
# What is read can be compiled

The terms of a text are pieces from its tokens to the finished draft, so what they are fused to can be
searched for in the desktop vocabulary. Hence a text is read as a query that the compiler has a text for,
or as one that says nothing (`Parser.compile_read_eq_empty_iff`).
-/

namespace DesktopSearch

open Sparql

/-- The desktop classes are a hierarchy. -/
theorem Ontology.isHierarchy_desktop : Ontology.desktop.IsHierarchy :=
  ⟨depth, fun _ _ => depth_lt_of_isSubclassOf⟩

/-- The terms of a finished draft are pieces. -/
theorem Draft.pieces_of_tryAll? {x : Surroundings} {now : Instant} {cursor : Option Nat} {text : String}
    {d : Draft} (hd : Draft.tryAll? x now cursor ⟨tokenize x.settings text, [], []⟩ = some d) :
    ∀ t ∈ d.terms, Piece t := by
  refine tryAll?_keeps piece_ignoresSpans (fun ph hph => ?_)
    (fun s _ _ _ => .literal s _) (fun _ ht _ => ht) piece_ignoresSpans (fun ph hph => ?_) ?_ hd
  · exact Reading.keeps_piece x (Phrasing.suits_of_mem_ofDates hph)
  · exact Reading.keeps_piece x (Phrasing.suits_of_mem_afterDates hph)
  · intro t ht
    obtain ⟨s, word, rfl⟩ := exists_of_mem_tokenize ht
    exact .literal s _

namespace Parser

variable {p : Parser} {flags : ParserFlags} {cursor : Option Nat} {text : String} {q : Query}

/-- Whatever a text says, the compiler finds words for it: in the desktop vocabulary the query that is
read compiles to the empty text exactly if it says nothing. -/
theorem compile_read_eq_empty_iff (h : (p.read flags cursor text).1 = some q) (f : Sparql.Flags) :
    compile Ontology.desktop q f = "" ↔ q.isValid = false := by
  obtain ⟨d, hd, rfl⟩ := read_eq_some_iff.1 h
  have hsearchable : (fuse p.settings flags d.terms 0).1.IsKind (Searchable Ontology.desktop) :=
    fuse_of_pieces fun t ht => Or.inl (Draft.pieces_of_tryAll? hd t ht)
  exact compile_ofTerm_eq_empty_iff Ontology.isHierarchy_desktop hsearchable f

/-- A size says something, and so it is compiled to a text. -/
theorem compile_read_ne_empty_size :
    let now : Instant :=
      .midnight ⟨2024, 2, 29, by decide, by decide, by decide, by decide, by decide, by decide⟩
    ∃ q, ((fresh .english none now).read {} none "size > 2KB").1 = some q ∧ q.isValid = true ∧
      compile Ontology.desktop q {} ≠ "" := by
  intro now
  obtain ⟨q, hq, hvalid⟩ := exists_read_size none
  refine ⟨q, hq, hvalid, fun hempty => ?_⟩
  simp [(compile_read_eq_empty_iff hq {}).1 hempty] at hvalid

end Parser

end DesktopSearch
