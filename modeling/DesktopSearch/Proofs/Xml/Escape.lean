import DesktopSearch.Xml.Escape
import Mathlib.Tactic.SplitIfs

/-!
# Character references read back

`unescape?` undoes `escape` on every text. No bracket and no quote is left in an escaped text
(`not_mem_escape`), so neither a tag nor the end of an attribute value can start in one.
-/

namespace DesktopSearch.Xml

/-! ## One character -/

/-- A character is written as itself, or as a reference to it by name. -/
inductive Written (c : Char) : List Char → Prop
  | plain (lt : c ≠ '<') (amp : c ≠ '&') (quot : c ≠ '"') : Written c [c]
  | reference (name : List Char) (resolves : resolve? name = some c)
    (letters : ∀ d ∈ name, d.isAlpha = true) : Written c ('&' :: name ++ [';'])

theorem written_escapeChar (c : Char) : Written c (escapeChar c) := by
  rw [escapeChar]
  split_ifs with hlt hgt hamp hapos hquot
  · exact .reference ['l', 't'] (by rw [hlt]; rfl) (by simp)
  · exact .reference ['g', 't'] (by rw [hgt]; rfl) (by simp)
  · exact .reference ['a', 'm', 'p'] (by rw [hamp]; rfl) (by simp)
  · exact .reference ['a', 'p', 'o', 's'] (by rw [hapos]; rfl) (by simp)
  · exact .reference ['q', 'u', 'o', 't'] (by rw [hquot]; rfl) (by simp)
  · exact .plain hlt hamp hquot

/-- A reference is read to its semicolon. -/
theorem unescapeFrom_reference {name : List Char} (h : ∀ d ∈ name, d ≠ ';' ∧ d ≠ '&')
    (seen cs : List Char) : unescapeFrom (some seen) (name ++ ';' :: cs) =
      (resolve? (seen.reverse ++ name)).bind fun d => (unescapeFrom none cs).map (d :: ·) := by
  induction name generalizing seen with
  | nil => simp [unescapeFrom]
  | cons d name ih =>
    obtain ⟨hsemi, hamp⟩ := h d (by simp)
    rw [List.cons_append, unescapeFrom, if_neg hsemi, if_neg hamp,
      ih (fun e he => h e (by simp [he])), List.reverse_cons, List.append_assoc,
      List.singleton_append]

theorem Written.unescapeFrom_append {c : Char} {ds : List Char} (h : Written c ds)
    (cs : List Char) : unescapeFrom none (ds ++ cs) = (unescapeFrom none cs).map (c :: ·) := by
  cases h with
  | plain _ hamp _ => rw [List.singleton_append, unescapeFrom, if_neg hamp]
  | reference name hname hletters =>
    have hplain : ∀ d ∈ name, d ≠ ';' ∧ d ≠ '&' := by
      rintro d hd
      have hd := hletters d hd
      constructor <;> rintro rfl <;> contradiction
    rw [List.cons_append, List.cons_append, List.append_assoc, List.singleton_append,
      unescapeFrom, if_pos rfl, unescapeFrom_reference hplain, List.reverse_nil, List.nil_append,
      hname, Option.bind_some]

theorem Written.not_mem {c d : Char} {ds : List Char} (h : Written c ds)
    (hd : d = '<' ∨ d = '"') : d ∉ ds := by
  cases h with
  | plain hlt _ hquot =>
    rcases hd with rfl | rfl
    · simpa using hlt.symm
    · simpa using hquot.symm
  | reference name _ hletters =>
    have hname : d ∉ name := fun hmem => by
      have := hletters d hmem
      rcases hd with rfl | rfl <;> contradiction
    rcases hd with rfl | rfl <;> simpa using hname

/-! ## Texts -/

/-- Reading undoes writing. -/
theorem unescape?_escape (cs : List Char) : unescape? (escape cs) = some cs := by
  rw [unescape?]
  induction cs with
  | nil => rfl
  | cons c cs ih =>
    rw [escape, List.flatMap_cons, (written_escapeChar c).unescapeFrom_append, ← escape, ih,
      Option.map_some]

theorem not_mem_escape {d : Char} (hd : d = '<' ∨ d = '"') (cs : List Char) : d ∉ escape cs := by
  rw [escape, List.mem_flatMap]
  rintro ⟨c, -, hc⟩
  exact (written_escapeChar c).not_mem hd hc

theorem escape_eq_nil_iff {cs : List Char} : escape cs = [] ↔ cs = [] := by
  refine ⟨fun h => ?_, fun h => by rw [h]; rfl⟩
  have hcs := unescape?_escape cs
  rw [h] at hcs
  exact (Option.some.inj hcs).symm

end DesktopSearch.Xml
