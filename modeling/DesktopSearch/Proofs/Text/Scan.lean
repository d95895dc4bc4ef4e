import DesktopSearch.Text.Blank
import Mathlib.Data.List.DropRight
import Mathlib.Data.List.TakeWhile

/-!
# Scanning

Readers take the longest run of characters of a kind. A run that is followed by something else is taken
exactly (`takeWhile_append_of_stop`, `dropWhile_append_of_stop`), and no other run is (`scan_iff`). A text
without blanks at its ends is left alone when blanks are cut off there, and starts with its first word
(`prefix_of_words_eq_cons`).
-/

namespace DesktopSearch.Text

variable {α : Type} {p : α → Bool} {xs rest : List α}

theorem takeWhile_append_of_stop (h : ∀ x ∈ xs, p x = true)
    (hr : ∀ x ∈ rest.head?, p x = false) : (xs ++ rest).takeWhile p = xs := by
  have hstop : rest.takeWhile p = [] := by
    cases rest with
    | nil => rfl
    | cons x rest => rw [List.takeWhile_cons, hr x rfl]; rfl
  rw [List.takeWhile_append_of_pos h, hstop, List.append_nil]

theorem dropWhile_append_of_stop (h : ∀ x ∈ xs, p x = true)
    (hr : ∀ x ∈ rest.head?, p x = false) : (xs ++ rest).dropWhile p = rest := by
  rw [List.dropWhile_append_of_pos h]
  cases rest with
  | nil => rfl
  | cons x rest => rw [List.dropWhile_cons, hr x rfl]; rfl

/-- What follows the longest run is not of the kind. -/
theorem eq_false_of_mem_head?_dropWhile : ∀ x ∈ (xs.dropWhile p).head?, p x = false := by
  have h := List.head?_dropWhile_not p xs
  intro x hx
  rw [Option.mem_def] at hx
  rwa [hx] at h

/-- A text is cut in two where its longest run ends. -/
theorem scan_iff {ys : List α} : xs.takeWhile p = ys ∧ xs.dropWhile p = rest ↔
    xs = ys ++ rest ∧ (∀ y ∈ ys, p y = true) ∧ ∀ x ∈ rest.head?, p x = false := by
  constructor
  · rintro ⟨rfl, rfl⟩
    exact ⟨List.takeWhile_append_dropWhile.symm, fun _ => List.mem_takeWhile_imp,
      eq_false_of_mem_head?_dropWhile⟩
  · rintro ⟨rfl, hys, hrest⟩
    exact ⟨takeWhile_append_of_stop hys hrest, dropWhile_append_of_stop hys hrest⟩

/-! ## Blanks and words -/

/-- A text that neither starts nor ends with a blank has none to cut off. -/
theorem trim_eq_self_of_ends {cs : List Char} (hstart : ∀ c ∈ cs.head?, isBlank c = false)
    (hend : ∀ c ∈ cs.getLast?, isBlank c = false) : trim cs = cs := by
  have hdrop : cs.dropWhile isBlank = cs := dropWhile_append_of_stop (List.forall_mem_nil _) hstart
  have hdropEnd : cs.reverse.dropWhile isBlank = cs.reverse :=
    dropWhile_append_of_stop (List.forall_mem_nil _) (by simpa using hend)
  rw [trim, trimEnd, hdrop, hdropEnd, List.reverse_reverse]

/-- A text without blanks has none to cut off. -/
theorem trim_eq_self {cs : List Char} (h : ∀ c ∈ cs, isBlank c = false) : trim cs = cs :=
  trim_eq_self_of_ends (fun c hc => h c (List.mem_of_mem_head? hc))
    fun c hc => h c (List.mem_of_mem_getLast? hc)

theorem trimEnd_prefix (cs : List Char) : trimEnd cs <+: cs := List.rdropWhile_prefix isBlank cs

/-- What is left of a text starts with something that is no blank. -/
theorem isBlank_of_mem_head?_trim {cs : List Char} : ∀ c ∈ (trim cs).head?, isBlank c = false := by
  have hdrop : ∀ c ∈ (cs.dropWhile isBlank).head?, isBlank c = false :=
    eq_false_of_mem_head?_dropWhile
  obtain ⟨rest, hrest⟩ := trimEnd_prefix (cs.dropWhile isBlank)
  rw [← hrest] at hdrop
  exact fun c hc => hdrop c (List.mem_head?_append_of_mem_head? hc)

theorem head?_splitAt (p : Char → Bool) (cs : List Char) :
    (splitAt p cs).head? = some (cs.takeWhile (!p ·)) := by
  induction cs with
  | nil => rfl
  | cons c cs ih =>
    rw [splitAt]
    split
    · rename_i hc
      simp [hc]
    · rename_i hc
      cases hsplit : splitAt p cs with
      | nil => simp [hsplit] at ih
      | cons piece pieces =>
        rw [hsplit, List.head?_cons, Option.some.injEq] at ih
        simp [hc, ih]

/-- A text that starts with something that is no blank starts with its first word. -/
theorem prefix_of_words_eq_cons {cs w : List Char} {ws : List (List Char)}
    (hstart : ∀ c ∈ cs.head?, isBlank c = false) (h : words cs = w :: ws) : w <+: cs := by
  cases cs with
  | nil => simp [words, splitAt] at h
  | cons c cs =>
    have hc : isBlank c = false := hstart c rfl
    have hfirst := head?_splitAt isBlank (c :: cs)
    rw [List.takeWhile_cons_of_pos (by simp [hc])] at hfirst
    obtain ⟨pieces, hsplit⟩ := List.head?_eq_some_iff.1 hfirst
    rw [words, hsplit, List.filter_cons_of_pos (by simp)] at h
    obtain ⟨rfl, -⟩ := List.cons.inj h
    rw [List.prefix_cons_inj]
    exact List.takeWhile_prefix _

end DesktopSearch.Text
