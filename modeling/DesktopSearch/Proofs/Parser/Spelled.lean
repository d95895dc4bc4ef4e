import DesktopSearch.Parser.Basic
import DesktopSearch.Proofs.Pattern.Rewriting
import DesktopSearch.Proofs.Reading.Glued
import DesktopSearch.Proofs.Term.Within

/-!
# Words with room for their characters

Tokens are inside the input, and so is all that is read from them. Words that are cut into pieces need more
than their span for that: the pieces are measured in bytes, one behind the other. So a token is `Spelled`
inside the input if there is room for as many places as its word has characters, and if the digits of the word
have one byte each. Cutting numbers off their units keeps terms spelled (`keepsWindows_readUnits`).
-/

namespace DesktopSearch

variable {n : Nat}

/-! ## Tokens -/

/-- The term lies inside the input, and if it is a word, then there is room for its characters from the
start of its span on, and all of its digits are in ASCII. -/
structure Term.Spelled (n : Nat) (t : Term) : Prop where
  within : t.Within n
  room : ∀ word, t.string? = some word → t.span.start + word.length ≤ n
  digits : ∀ word, t.string? = some word →
    ∀ c ∈ word.toList, Text.isDecimalDigit c = true → c.isDigit = true

namespace Token

variable {s : Settings} {start length place : Nat} {cs : List Char}

theorem spelled_term (hstop : start + length ≤ n) (hlength : cs.length ≤ length)
    (hdigits : ∀ c ∈ cs, Text.isDecimalDigit c = true → c.isDigit = true) :
    (term start length cs).Spelled n := by
  have hword {word : String} (h : (term start length cs).string? = some word) :
      word = String.ofList cs := (Option.some.inj h).symm
  refine ⟨.of_childless hstop rfl, fun word h => ?_, fun word h => ?_⟩
  · rw [hword h, String.length_ofList]
    exact Nat.le_trans (Nat.add_le_add_left hlength start) hstop
  · rw [hword h, String.toList_ofList]
    exact hdigits

/-- The tokens of a text from a place on are spelled inside the input if the text is. -/
theorem spelled_of_mem_read (hplace : place + cs.length ≤ n)
    (hdigits : ∀ c ∈ cs, Text.isDecimalDigit c = true → c.isDigit = true) :
    ∀ t ∈ read s place cs, t.Spelled n := by
  have split_length (p : Char → Bool) (cs : List Char) :
      (cs.takeWhile p).length + (cs.dropWhile p).length = cs.length := by
    rw [← List.length_append, List.takeWhile_append_dropWhile]
  fun_induction read s place cs with
  | case1 => simp
  | case2 place cs text rest length tokens _ ih =>
    have hsplit := split_length (· != '"') cs
    obtain ⟨-, hdigits⟩ := List.forall_mem_cons.1 hdigits
    exact ih (by grind) fun c hc => hdigits c (List.dropWhile_subset _ (List.mem_of_mem_drop hc))
  | case3 place cs text rest length tokens _ ih =>
    have hsplit := split_length (· != '"') cs
    obtain ⟨-, hdigits⟩ := List.forall_mem_cons.1 hdigits
    have hterm : (term place length text).Spelled n :=
      spelled_term (by grind) (by grind) fun c hc => hdigits c (List.takeWhile_subset _ hc)
    refine List.forall_mem_cons.2 ⟨hterm, ih (by grind) fun c hc => ?_⟩
    exact hdigits c (List.dropWhile_subset _ (List.mem_of_mem_drop hc))
  | case4 place c cs _ _ ih => exact ih (by grind) (List.forall_mem_cons.1 hdigits).2
  | case5 place c cs _ _ _ ih =>
    obtain ⟨hc, hdigits⟩ := List.forall_mem_cons.1 hdigits
    have hterm : (term place 1 [c]).Spelled n :=
      spelled_term (by grind) (by simp) (List.forall_mem_singleton.2 hc)
    exact List.forall_mem_cons.2 ⟨hterm, ih (by grind) hdigits⟩
  | case6 place c cs _ _ _ more length ih =>
    have hsplit := split_length s.isWordChar cs
    have hterm : (term place length (c :: more)).Spelled n :=
      spelled_term (by grind) (by grind) fun d hd =>
        hdigits d (List.cons_subset_cons c (List.takeWhile_subset _) hd)
    refine List.forall_mem_cons.2 ⟨hterm, ih (by grind) fun d hd => ?_⟩
    exact hdigits d (List.mem_cons_of_mem _ (List.dropWhile_subset _ hd))

end Token

/-! ## Pieces -/

namespace Reading

variable {g : Glued}

/-- Texts that are cut out of a word of one-byte characters have room where the word has it. -/
theorem spelled_of_mem_pieceTerms {start : Nat} {texts : List (List Char)}
    (hroom : start + texts.flatten.length ≤ n) (hbytes : ∀ c ∈ texts.flatten, c.val ≤ 127)
    (hdigits : ∀ c ∈ texts.flatten, Text.isDecimalDigit c = true → c.isDigit = true) :
    ∀ t ∈ pieceTerms start texts, t.Spelled n := by
  induction texts generalizing start with
  | nil => simp [pieceTerms]
  | cons cs texts ih =>
    rw [List.flatten_cons] at hroom hbytes hdigits
    rw [List.forall_mem_append] at hbytes hdigits
    rw [List.length_append] at hroom
    have hsize := utf8ByteSize_ofList hbytes.1
    rw [pieceTerms, List.forall_mem_cons]
    rw [hsize]
    exact ⟨Token.spelled_term (by omega) (Nat.le_refl _) hdigits.1,
      ih (by omega) hbytes.2 hdigits.2⟩

/-- A glued number is cut into two pieces at least, if it is cut at all. -/
theorem placed_pieceTerms (h : g.isCut = true) (window : List Term) (start : Nat) :
    placed window (pieceTerms start g.pieces) = pieceTerms start g.pieces := by
  obtain ⟨digits, decimals, unit⟩ := g
  cases decimals with
  | some decimals => rfl
  | none =>
    cases unit with
    | nil => simp [Glued.isCut] at h
    | cons => rfl

theorem keepsWindows_readUnits : KeepsWindows (Term.Spelled n) readUnits := by
  intro window ts _ hts
  obtain hnil | ⟨span, word, rest, g, rfl, hsorted, hcut, hpieces, hanswer⟩ := readUnits_cases ts
  · rw [hnil]
    simp [placed]
  rw [hanswer, placed_pieceTerms hcut]
  have ht : (Term.literal span (.string word)).Spelled n := by
    rcases hts _ List.mem_cons_self with ht | ht
    · exact ht
    · contradiction
  have hdigits := ht.digits word rfl
  have hroom := ht.room word rfl
  rw [← String.length_toList, hpieces] at hroom
  rw [hpieces] at hdigits
  exact spelled_of_mem_pieceTerms hroom (hsorted.val_le hdigits) hdigits

end Reading

end DesktopSearch
