import DesktopSearch.Sparql.Squeeze
import Mathlib.Data.List.Basic

/-!
# Words that are squeezed

Squeezing leaves words with single blanks between them as they are, wherever in a query they stand
(`infix_squeeze`) : between double quotes everything is copied, and outside of them there is no blank to
drop.
-/

namespace DesktopSearch.Sparql

/-- A word has no blanks and no double quotes. -/
def IsWord (w : List Char) : Prop := w ≠ [] ∧ ∀ c ∈ w, Text.isBlank c = false ∧ c ≠ '"'

theorem isWord_of_all {w : List Char} (hne : w ≠ [])
    (h : (w.all fun c => !Text.isBlank c && c != '"') = true) : IsWord w := by
  refine ⟨hne, fun c hc => ?_⟩
  simpa using List.all_eq_true.1 h c hc

theorem IsWord.append {v w : List Char} (hv : IsWord v)
    (hw : ∀ c ∈ w, Text.isBlank c = false ∧ c ≠ '"') : IsWord (v ++ w) :=
  ⟨List.append_ne_nil_of_left_ne_nil hv.1 w, List.forall_mem_append.2 ⟨hv.2, hw⟩⟩

/-- The words with a blank in front of each. -/
def spaced (ws : List (List Char)) : List Char := ws.flatMap (' ' :: ·)

/-- A query is squeezed from its start, and from wherever the scan has come. -/
theorem exists_squeezeFrom_append (s : Scan) (front cs : List Char) :
    ∃ written t, squeezeFrom s (front ++ cs) = written ++ squeezeFrom t cs := by
  induction front generalizing s with
  | nil => exact ⟨[], s, rfl⟩
  | cons c front ih =>
    rw [List.cons_append, squeezeFrom]
    split
    · obtain ⟨written, t, h⟩ := ih (s.inside c)
      exact ⟨c :: written, t, by rw [h, List.cons_append]⟩
    split
    · exact ih _
    · obtain ⟨written, t, h⟩ := ih { quoted := c == '"', started := true }
      exact ⟨(if s.pending then [' '] else []) ++ c :: written, t, by
        rw [h, List.append_assoc, List.cons_append]⟩

theorem quoted_inside {s : Scan} {c : Char} (hs : s.quoted = true) (hc : c ≠ '"') :
    (s.inside c).quoted = true := by
  unfold Scan.inside
  split
  · exact hs
  split
  · exact hs
  · exact hs

/-- Between double quotes everything is copied. -/
theorem prefix_squeezeFrom_of_quoted {s : Scan} {cs : List Char} (hs : s.quoted = true)
    (h : ∀ c ∈ cs, c ≠ '"') (rest : List Char) : cs <+: squeezeFrom s (cs ++ rest) := by
  induction cs generalizing s with
  | nil => exact List.nil_prefix
  | cons c cs ih =>
    rw [List.forall_mem_cons] at h
    rw [List.cons_append, squeezeFrom, if_pos hs, List.prefix_cons_inj]
    exact ih (quoted_inside hs h.1) h.2

theorem squeezeFrom_cons_of_word {s : Scan} {c : Char} (hs : s.quoted = false)
    (hblank : Text.isBlank c = false) (hquote : c ≠ '"') (cs : List Char) :
    squeezeFrom s (c :: cs) =
      (if s.pending then [' '] else []) ++ c :: squeezeFrom { started := true } cs := by
  rw [squeezeFrom, hs, hblank, beq_false_of_ne hquote]
  rfl

/-- A word is copied, with a blank in front if one is still to be written. -/
theorem squeezeFrom_word_append {s : Scan} {w : List Char} (hs : s.quoted = false) (h : IsWord w)
    (rest : List Char) : squeezeFrom s (w ++ rest) =
      (if s.pending then [' '] else []) ++ (w ++ squeezeFrom { started := true } rest) := by
  obtain ⟨hw, hchars⟩ := h
  cases w with
  | nil => contradiction
  | cons c w =>
    rw [List.forall_mem_cons] at hchars
    rw [List.cons_append, squeezeFrom_cons_of_word hs hchars.1.1 hchars.1.2, List.cons_append]
    congr 2
    -- Behind the first character no blank is pending.
    clear hw
    induction w with
    | nil => rfl
    | cons d w ih =>
      rw [List.forall_mem_cons] at hchars
      rw [List.cons_append, squeezeFrom_cons_of_word rfl hchars.2.1.1 hchars.2.1.2,
        ih ⟨hchars.1, hchars.2.2⟩]
      rfl

theorem squeezeFrom_spaced_append {ws : List (List Char)} (h : ∀ w ∈ ws, IsWord w)
    (rest : List Char) : squeezeFrom { started := true } (spaced ws ++ rest) =
      spaced ws ++ squeezeFrom { started := true } rest := by
  induction ws with
  | nil => rfl
  | cons w ws ih =>
    rw [List.forall_mem_cons] at h
    have hblank (cs : List Char) : squeezeFrom { started := true } (' ' :: cs) =
        squeezeFrom { pending := true, started := true } cs := rfl
    rw [spaced, List.flatMap_cons, ← spaced, List.cons_append, List.cons_append, hblank,
      List.append_assoc, squeezeFrom_word_append rfl h.1, ih h.2]
    simp

theorem toList_intercalate_blank (w : String) (ws : List String) :
    (" ".intercalate (w :: ws)).toList = w.toList ++ spaced (ws.map String.toList) := by
  induction ws generalizing w with
  | nil => simp [spaced]
  | cons u ws ih =>
    rw [String.intercalate_cons_of_ne_nil (List.cons_ne_nil u ws), String.toList_append,
      String.toList_append, ih u]
    simp [spaced]

/-- Words with single blanks between them are copied in whatever state the scan is. -/
theorem infix_squeezeFrom {w : List Char} {ws : List (List Char)} (hw : IsWord w)
    (hws : ∀ w ∈ ws, IsWord w) (s : Scan) (rest : List Char) :
    w ++ spaced ws <:+: squeezeFrom s (w ++ spaced ws ++ rest) := by
  cases hs : s.quoted with
  | true =>
    refine (prefix_squeezeFrom_of_quoted hs (List.forall_mem_append.2 ⟨?_, ?_⟩) rest).isInfix
    · exact fun c hc => (hw.2 c hc).2
    · intro c hc
      obtain ⟨u, hu, hc⟩ := List.mem_flatMap.1 hc
      rcases List.mem_cons.1 hc with rfl | hc
      · decide
      · exact ((hws u hu).2 c hc).2
  | false =>
    rw [List.append_assoc, squeezeFrom_word_append hs hw, squeezeFrom_spaced_append hws,
      ← List.append_assoc w]
    exact List.infix_append' _ _ _

/-- Words with single blanks between them are left as they are. -/
theorem infix_squeeze {ws : List String} (hws : ∀ w ∈ ws, IsWord w.toList) {cs : List Char}
    (h : (" ".intercalate ws).toList <:+: cs) : (" ".intercalate ws).toList <:+: squeeze cs := by
  cases ws with
  | nil => exact List.nil_infix
  | cons w ws =>
    obtain ⟨front, rest, rfl⟩ := h
    rw [List.forall_mem_cons, ← List.forall_mem_map (f := String.toList)] at hws
    obtain ⟨written, s, h⟩ := exists_squeezeFrom_append {} front ((" ".intercalate (w :: ws)).toList ++ rest)
    rw [squeeze, List.append_assoc, h, toList_intercalate_blank]
    exact (infix_squeezeFrom hws.1 hws.2 s rest).trans (List.suffix_append written _).isInfix

end DesktopSearch.Sparql
