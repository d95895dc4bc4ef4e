import DesktopSearch.Proofs.Sparql.Squeeze
import DesktopSearch.Proofs.Text.Quote
import DesktopSearch.Sparql.Pattern
import Mathlib.Data.List.Chain

/-!
# Quoted texts in a query that is squeezed

A query is put together from the fragments of templates, which have no double quotes in them, and from
texts that are written between double quotes. Taken apart (`Part`) it is a list of such texts and of the
characters of the fragments. The scan that squeezes a query is between quotes exactly where the query is
(`squeezeFrom_textAll`), so what it does can be told of the parts : blanks that follow each other become one
blank, those at both ends are dropped, and everything else stays where it is (`squeeze_parts`). A query that
is squeezed already is left as it is, whatever stands in it (`squeeze_squeeze`).
-/

namespace DesktopSearch.Sparql

/-! ## Parts -/

/-- A part of a query : a character of a fragment, or a text between double quotes. -/
inductive Part where
  | plain (c : Char) (h : c ≠ '"')
  | quoted (s : String)

namespace Part

/-- A part as it is written. -/
def text : Part → List Char
  | plain c _ => [c]
  | quoted s => (Sparql.quoted s).toList

/-- Whether a part is a blank between other parts. -/
def isBlank : Part → Bool
  | plain c _ => Text.isBlank c
  | quoted _ => false

/-- The blank that others are replaced by. -/
def blank : Part := plain ' ' (by decide)

/-- Parts as they are written, one behind the other. -/
def textAll (ps : List Part) : List Char := ps.flatMap text

/-- The runs of parts that have no blanks between them. -/
def words (ps : List Part) : List (List Part) := (ps.splitOnP isBlank).filter (!·.isEmpty)

/-- Blanks are single ones, and stand between other parts. If something stands in front, the first part may be
a blank, too. -/
structure IsTidy (inFront : Bool) (ps : List Part) : Prop where
  single : ps.IsChain fun p q => p.isBlank = false ∨ q.isBlank = false
  first : inFront = false → ∀ p ∈ ps.head?, p.isBlank = false
  last : ∀ p ∈ ps.getLast?, p.isBlank = false
  blank : ∀ p ∈ ps, p.isBlank = true → p = blank

/-! ## Words -/

theorem words_append_blank {b : Part} (hb : b.isBlank = true) (ps qs : List Part) :
    words (ps ++ b :: qs) = words ps ++ words qs := by
  rw [words, List.splitOnP_append_cons ps qs hb, List.filter_append, words, words]

theorem words_cons_blank {b : Part} (hb : b.isBlank = true) (ps : List Part) :
    words (b :: ps) = words ps := words_append_blank hb [] ps

/-! ## Blanks -/

theorem isTidy_nil (inFront : Bool) : IsTidy inFront [] := ⟨.nil, by simp, by simp, by simp⟩

theorem IsTidy.cons {p : Part} {ps : List Part} (hp : p.isBlank = false) (h : IsTidy true ps)
    (inFront : Bool) : IsTidy inFront (p :: ps) where
  single := by
    cases ps with
    | nil => exact .singleton p
    | cons q ps => exact .cons_cons (Or.inl hp) h.single
  first _ := by simpa using hp
  last := by
    rw [List.getLast?_cons]
    cases hlast : ps.getLast? with
    | none => simpa using hp
    | some q => simpa using h.last q hlast
  blank := List.forall_mem_cons.2 ⟨fun h => by simp [hp] at h, h.blank⟩

theorem IsTidy.blank_cons {p : Part} {ps : List Part} (hp : p.isBlank = false)
    (h : IsTidy false (p :: ps)) : IsTidy true (.blank :: p :: ps) where
  single := .cons_cons (Or.inr hp) h.single
  first := by simp
  last := by simpa using h.last
  blank := List.forall_mem_cons.2 ⟨fun _ => rfl, h.blank⟩

/-! ## What is left of the parts -/

/-- The parts that are left when blanks are squeezed, given whether a blank is still to be written and whether
something has been written. -/
def squeezedFrom (pending started : Bool) : List Part → List Part
  | [] => []
  | p :: ps =>
    if p.isBlank then squeezedFrom started started ps
    else (if pending then [blank] else []) ++ p :: squeezedFrom false true ps

/-- What is no blank is left. -/
theorem filter_squeezedFrom (pending started : Bool) (ps : List Part) :
    (squeezedFrom pending started ps).filter (!·.isBlank) = ps.filter (!·.isBlank) := by
  induction ps generalizing pending started with
  | nil => rfl
  | cons p ps ih =>
    rw [squeezedFrom]
    split
    · rename_i hp
      rw [ih, List.filter_cons_of_neg (by simpa using hp)]
    · rename_i hp
      rw [List.filter_append, List.filter_cons_of_pos (by simpa using hp), ih,
        List.filter_cons_of_pos (by simpa using hp)]
      cases pending <;> rfl

/-- Between two parts that are no blanks there is a blank left exactly if there was one. The words in front
may go on with what is left. -/
theorem words_append_squeezedFrom (pending : Bool) (ws ps : List Part) :
    words (ws ++ squeezedFrom pending true ps) =
      if pending then words ws ++ words ps else words (ws ++ ps) := by
  induction ps generalizing pending ws with
  | nil => cases pending <;> simp [squeezedFrom, words]
  | cons p ps ih =>
    rw [squeezedFrom]
    split
    · rename_i hp
      rw [ih, if_pos rfl, words_cons_blank hp, words_append_blank hp, ite_self]
    · rename_i hp
      cases pending with
      | true =>
        have hrest := ih false [p]
        rw [if_neg (by decide)] at hrest
        rw [if_pos rfl, if_pos rfl, List.singleton_append, words_append_blank rfl]
        exact congrArg _ hrest
      | false =>
        have hrest := ih false (ws ++ [p])
        rw [if_neg (by decide)] at hrest
        simpa using hrest

theorem words_squeezedFrom_start (ps : List Part) :
    words (squeezedFrom false false ps) = words ps := by
  induction ps with
  | nil => rfl
  | cons p ps ih =>
    rw [squeezedFrom]
    split
    · rename_i hp
      rw [ih, words_cons_blank hp]
    · exact words_append_squeezedFrom false [p] ps

/-- A blank is only to be written behind something else. -/
theorem isTidy_squeezedFrom {pending started : Bool} (h : pending = true → started = true)
    (ps : List Part) : IsTidy started (squeezedFrom pending started ps) := by
  induction ps generalizing pending started with
  | nil => exact isTidy_nil started
  | cons p ps ih =>
    rw [squeezedFrom]
    split
    · exact ih id
    · rename_i hp
      have hrest : IsTidy true (squeezedFrom false true ps) := ih fun _ => rfl
      replace hrest := hrest.cons (by simpa using hp)
      cases pending with
      | false => exact hrest started
      | true =>
        rw [h rfl]
        exact (hrest false).blank_cons (by simpa using hp)

end Part

/-! ## The scan -/

open Sparql.Part

section

variable {s : Scan} {c : Char} (cs : List Char)

theorem squeezeFrom_cons_of_quoted (hs : s.quoted = true) :
    squeezeFrom s (c :: cs) = c :: squeezeFrom (s.inside c) cs := by
  rw [squeezeFrom, if_pos hs]

theorem squeezeFrom_cons_of_isBlank (hs : s.quoted = false) (hc : Text.isBlank c = true) :
    squeezeFrom s (c :: cs) = squeezeFrom { s with pending := s.started } cs := by
  rw [squeezeFrom, if_neg (by simp [hs]), if_pos hc]

theorem squeezeFrom_cons_of_not_isBlank (hs : s.quoted = false) (hc : Text.isBlank c = false) :
    squeezeFrom s (c :: cs) = (if s.pending then [' '] else []) ++
      c :: squeezeFrom { quoted := c == '"', started := true } cs := by
  rw [squeezeFrom, if_neg (by simp [hs]), if_neg (by simp [hc])]

/-- A single blank between other characters is copied. -/
theorem squeezeFrom_blank_cons (hs : s.quoted = false) (hstarted : s.started = true)
    (hc : Text.isBlank c = false) : squeezeFrom s (' ' :: c :: cs) =
      ' ' :: c :: squeezeFrom { quoted := c == '"', started := true } cs := by
  have hblank : Text.isBlank ' ' = true := by decide
  have hnext : ({ s with pending := s.started } : Scan).quoted = false := hs
  rw [squeezeFrom_cons_of_isBlank _ hs hblank, squeezeFrom_cons_of_not_isBlank _ hnext hc]
  dsimp only
  rw [if_pos hstarted, List.singleton_append]

end

/-- Behind a character that is written between quotes the scan is where it was. -/
theorem squeezeFrom_quoteChar_append (c : Char) (rest : List Char) :
    squeezeFrom { quoted := true, started := true } (Text.quoteChar c ++ rest) =
      Text.quoteChar c ++ squeezeFrom { quoted := true, started := true } rest := by
  unfold Text.quoteChar
  split_ifs with hbackslash hquote
  · rfl
  · rfl
  · rfl
  · rfl
  · rfl
  · rw [List.singleton_append, squeezeFrom_cons_of_quoted _ rfl, Scan.inside, if_neg (by decide),
      if_neg hbackslash, if_neg hquote, List.singleton_append]

/-- A text between quotes is copied, and behind it the scan is outside of quotes. -/
theorem squeezeFrom_quote_append (cs rest : List Char) :
    squeezeFrom { quoted := true, started := true } (Text.quote cs ++ '"' :: rest) =
      Text.quote cs ++ '"' :: squeezeFrom { started := true } rest := by
  induction cs with
  | nil => rfl
  | cons c cs ih =>
    rw [Text.quote, List.flatMap_cons, List.append_assoc, squeezeFrom_quoteChar_append, ← Text.quote,
      ih, List.append_assoc]

theorem toList_quoted (s : String) :
    (quoted s).toList = '"' :: (Text.quote s.toList ++ ['"']) := by
  simp [quoted]

/-- A part that is no blank is copied, behind a blank if one is still to be written. -/
theorem squeezeFrom_text_append {p : Part} (hp : p.isBlank = false) (pending started : Bool)
    (rest : List Char) : squeezeFrom { pending, started } (p.text ++ rest) =
      (if pending then [' '] else []) ++ (p.text ++ squeezeFrom { started := true } rest) := by
  cases p with
  | plain c hc =>
    rw [Part.text, List.singleton_append, squeezeFrom_cons_of_word rfl hp hc, List.singleton_append]
  | quoted s =>
    have hquote : Text.isBlank '"' = false := by decide
    rw [Part.text, toList_quoted, List.cons_append, List.append_assoc, List.singleton_append,
      squeezeFrom_cons_of_not_isBlank _ rfl hquote, beq_self_eq_true, squeezeFrom_quote_append]
    simp

theorem textAll_cons (p : Part) (ps : List Part) : textAll (p :: ps) = p.text ++ textAll ps := rfl

/-- Outside of quotes, squeezing a query leaves what `squeezedFrom` leaves of its parts. -/
theorem squeezeFrom_textAll (pending started : Bool) (ps : List Part) :
    squeezeFrom { pending, started } (textAll ps) = textAll (squeezedFrom pending started ps) := by
  induction ps generalizing pending started with
  | nil => rfl
  | cons p ps ih =>
    rw [textAll_cons, squeezedFrom]
    split
    · rename_i hp
      cases p with
      | quoted s => contradiction
      | plain c hc =>
        rw [Part.text, List.singleton_append, squeezeFrom_cons_of_isBlank _ rfl hp]
        exact ih started started
    · rename_i hp
      rw [squeezeFrom_text_append (by simpa using hp), ih]
      cases pending <;> rfl

/-- The scan, without the blank that is to be written. -/
def Scan.rested (s : Scan) : Scan := { s with pending := false }

theorem Scan.rested_inside (s : Scan) (c : Char) : s.rested.inside c = (s.inside c).rested := by
  unfold rested inside
  split_ifs <;> rfl

/-- A blank is only to be written behind something else. -/
def Scan.IsSound (s : Scan) : Prop := s.pending = true → s.started = true

theorem Scan.IsSound.inside {s : Scan} (h : s.IsSound) (c : Char) : (s.inside c).IsSound := by
  unfold Scan.inside
  split_ifs <;> exact h

/-- What a scan writes is copied by a scan that stands at the same place with no blank to be written. -/
theorem squeezeFrom_squeezeFrom {s : Scan} (h : s.IsSound) (cs : List Char) :
    squeezeFrom s.rested (squeezeFrom s cs) = squeezeFrom s cs := by
  induction cs generalizing s with
  | nil => rfl
  | cons c cs ih =>
    cases hs : s.quoted with
    | true =>
      have hrested : s.rested.quoted = true := hs
      rw [squeezeFrom_cons_of_quoted _ hs, squeezeFrom_cons_of_quoted _ hrested, Scan.rested_inside,
        ih (h.inside c)]
    | false =>
      have hrested : s.rested.quoted = false := hs
      cases hc : Text.isBlank c with
      | true =>
        rw [squeezeFrom_cons_of_isBlank _ hs hc]
        exact ih (s := { s with pending := s.started }) id
      | false =>
        have hrest := ih (s := { quoted := c == '"', started := true }) fun _ => rfl
        rw [squeezeFrom_cons_of_not_isBlank _ hs hc]
        cases hpending : s.pending with
        | false =>
          rw [if_neg (by decide), List.nil_append, squeezeFrom_cons_of_not_isBlank _ hrested hc]
          exact congrArg (c :: ·) hrest
        | true =>
          rw [if_pos rfl, List.singleton_append, squeezeFrom_blank_cons _ hrested (h hpending) hc]
          exact congrArg (' ' :: c :: ·) hrest

/-- Squeezing a query twice is squeezing it once. -/
theorem squeeze_squeeze (cs : List Char) : squeeze (squeeze cs) = squeeze cs :=
  squeezeFrom_squeezeFrom (s := {}) id cs

/-- What is written between double quotes is read back as it was, and has no double quote in it that is not
escaped, no line end and no tab. Squeezing a query keeps such texts as they are, and all characters between
them that are no blanks, in their order; of the blanks between two of these one is left, and none at the
ends. Squeezing once is enough. -/
theorem squeeze_parts :
    (∀ cs, Text.unquote (Text.quote cs) = cs ∧ Text.afterQuote? '"' false (Text.quote cs) = none ∧
      '\n' ∉ Text.quote cs ∧ '\r' ∉ Text.quote cs ∧ '\t' ∉ Text.quote cs) ∧
    (∀ ps, ∃ qs, squeeze (textAll ps) = textAll qs ∧
      qs.filter (!·.isBlank) = ps.filter (!·.isBlank) ∧ words qs = words ps ∧ IsTidy false qs) ∧
    ∀ cs, squeeze (squeeze cs) = squeeze cs := by
  refine ⟨fun cs => ⟨Text.unquote_quote cs, Text.afterQuote?_quote_eq_none cs, ?_, ?_, ?_⟩,
    fun ps => ⟨squeezedFrom false false ps, ?_, ?_, ?_, ?_⟩, squeeze_squeeze⟩
  · exact Text.notMem_quote (by simp) cs
  · exact Text.notMem_quote (by simp) cs
  · exact Text.notMem_quote (by simp) cs
  · exact squeezeFrom_textAll false false ps
  · exact filter_squeezedFrom false false ps
  · exact words_squeezedFrom_start ps
  · exact isTidy_squeezedFrom (by simp) ps

/-- A quote that is escaped does not end a text. -/
example : squeeze "a  \"b \\\"  c\"   d ".toList = "a \"b \\\"  c\" d".toList := by decide

end DesktopSearch.Sparql
