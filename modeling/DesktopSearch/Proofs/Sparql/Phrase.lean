import DesktopSearch.Ontology.Desktop
import DesktopSearch.Proofs.Sparql.Body
import DesktopSearch.Proofs.Text.Quote

/-!
# Texts in phrases

A text that is searched for is written twice : as a phrase between single quotes, which stands between
double quotes itself, and word by word in the vector of the excerpt. The double quotes always hold their
phrase. Inside it single quotes are escaped and backslashes are not, so the single quotes hold a text that
`KeepsQuotes`, and no other; and since words of an excerpt lose their quotes, a word is held unless it ends
with an odd number of backslashes (`quotes_hold_iff`).
-/

namespace DesktopSearch

namespace Text

/-- Written between two quotes, with backslash as the character that escapes, the text ends at the second
of them. -/
def StaysWithin (q : Char) (cs : List Char) : Prop :=
  ∀ rest, afterQuote? q false (cs ++ q :: rest) = some rest

theorem staysWithin_quote (cs : List Char) : StaysWithin '"' (quote cs) := afterQuote?_quote cs

theorem staysWithin_escapeQuotes_iff (cs : List Char) :
    StaysWithin '\'' (escapeQuotes cs) ↔ KeepsQuotes cs :=
  ⟨fun h => (afterQuote?_escapeQuotes_iff cs []).1 (h []),
    fun h rest => (afterQuote?_escapeQuotes_iff cs rest).2 h⟩

theorem staysWithin_iff {cs : List Char} (h : '\'' ∉ cs) :
    StaysWithin '\'' cs ↔ Even (endBackslashes cs) := by
  rw [← keepsQuotes_iff h, ← staysWithin_escapeQuotes_iff, escapeQuotes_eq_self h]

end Text

namespace Sparql

open Sparql.Pattern Text

/-! ## Phrases and words -/

theorem toList_phrase (t : String) :
    (phrase t).toList = '\'' :: (escapeQuotes t.toList ++ ['\'']) := by
  simp [phrase, escapeQuotes]

theorem text_searches_none (v : Variable) (t : String) : (Pattern.searches v t none).text =
    v.text ++ " bif:contains " ++ quoted (phrase t) ++ " . " := rfl

theorem text_searches_some (v w : Variable) (t : String) : (Pattern.searches v t (some w)).text =
    v.text ++ " bif:contains " ++ quoted (phrase t) ++ " OPTION (score " ++ w.text ++ ") . " := rfl

/-- What a search writes, up to the quote behind its phrase. -/
theorem exists_text_searches (v : Variable) (t : String) (score : Option Variable) :
    ∃ tail, (Pattern.searches v t score).text =
      v.text ++ " bif:contains \"" ++ String.ofList (quote (phrase t).toList) ++ "\"" ++ tail := by
  have hopen : " bif:contains \"" = " bif:contains " ++ "\"" := by simp
  cases score with
  | none =>
    refine Exists.intro " . " ?_
    rw [text_searches_none, quoted, hopen]
    simp only [String.append_assoc]
  | some w =>
    refine Exists.intro (" OPTION (score " ++ w.text ++ ") . ") ?_
    rw [text_searches_some, quoted, hopen]
    simp only [String.append_assoc]

/-- The word of an excerpt between its quotes. -/
def excerptText (w : List Char) : List Char :=
  ((w.reverse.dropWhile (· == '*')).reverse).filter (· != '\'')

theorem excerptWord_eq (w : List Char) :
    excerptWord w = "'" ++ String.ofList (excerptText w) ++ "'" := rfl

theorem quote_notMem_excerptText (w : List Char) : '\'' ∉ excerptText w := by
  simp [excerptText]

/-- The words of an excerpt come from the texts of the searches. -/
theorem exists_of_mem_excerpt {searches : List Search} {column : String}
    (h : column ∈ excerpt searches) :
    ∃ words tail, column = "bif:search_excerpt(bif:vector(" ++ ", ".intercalate words ++ ")" ++ tail ∧
      ∀ word ∈ words, ∃ f ∈ searches, ∃ w ∈ Text.words f.text.toList, word = excerptWord w := by
  cases searches with
  | nil => simp [excerpt] at h
  | cons first rest =>
    have hclose : "), " = ")" ++ ", " := by simp
    rw [excerpt, List.mem_singleton] at h
    refine ⟨(first :: rest).flatMap fun f => (Text.words f.text.toList).map excerptWord,
      ", " ++ first.variable_.text ++ ") as " ++ excerptName, ?_, fun word hword => ?_⟩
    · rw [h, hclose]
      simp only [String.append_assoc]
    · obtain ⟨f, hf, hword⟩ := List.mem_flatMap.1 hword
      obtain ⟨w, hw, rfl⟩ := List.mem_map.1 hword
      exact ⟨f, hf, w, hw, rfl⟩

/-! ## The texts of a query -/

/-- The text is that of a literal of the query, without the blanks around it. -/
def IsSought (q : Query) (counting : Bool) (t : String) : Prop :=
  ∃ l ∈ (wholeTerm q counting).literals, t = String.ofList (trim l.text.toList)

theorem mem_literals_of_prepared {o : Ontology} {q : Query} {counting : Bool} {l : Literal}
    (h : l ∈ (prepared o q counting).literals) : l ∈ (wholeTerm q counting).literals :=
  ((Term.gathered_literal l).of_prepared h).resolve_right
    (by simp [typeAnchor, Term.compare, Term.nothing, Term.literals])

variable {o : Ontology} {q : Query} {f : Flags} {ps : List Pattern} {s : Lowering}

/-- Whatever a query searches for is a text of its literals. -/
theorem sought_of_body? (h : body? o q f = some (ps, s)) :
    (∀ around front rest v t score, Inside ps around (front ++ .searches v t score :: rest) →
      IsSought q f.counting t) ∧ ∀ search ∈ s.searches, IsSought q f.counting search.text := by
  let m : Material := ⟨fun _ => True, IsSought q f.counting⟩
  have hgives : m.Gives (prepared o q f.counting) :=
    ⟨fun _ _ _ _ => trivial, fun l hl _ => ⟨l, mem_literals_of_prepared hl, rfl⟩⟩
  obtain ⟨-, hcovers, hps⟩ :=
    makes_lowerQuery hgives {} ps s rfl Material.covers_start (lowerQuery_of_body? h)
  refine ⟨fun around front rest v t score hinside => ?_, fun search hsearch => ?_⟩
  · exact (hps.of_inside hinside).text t rfl
  · exact (hcovers.searches search hsearch).2.2

/-- Wherever a query searches for a text, the text is one of its literals', and it stands in the query as a
phrase between double quotes that hold it and that it is read back from. Between the single quotes of the
phrase is the text with its quotes escaped, and they hold it exactly if it `KeepsQuotes`. The words of the
excerpt are those of the same texts, without single quotes, and a word is held by its quotes exactly if it
ends with an even number of backslashes. -/
theorem quotes_hold_iff (o : Ontology) (q : Query) (flags : Flags) {ps : List Pattern} {s : Lowering}
    (h : body? o q (flags.withQuery q.flags) = some (ps, s)) :
    (∀ around front rest v t score, Inside ps around (front ++ .searches v t score :: rest) →
      IsSought q (flags.withQuery q.flags).counting t ∧
      ∃ written tail inner,
        (v.text ++ " bif:contains \"" ++ String.ofList written ++ "\"" ++ tail).toList <:+:
          (assemble q (flags.withQuery q.flags) ps s).toList ∧
        StaysWithin '"' written ∧
        unquote written = '\'' :: (inner ++ ['\'']) ∧
        (StaysWithin '\'' inner ↔ KeepsQuotes t.toList)) ∧
    ∀ column ∈ excerpt s.searches, ∃ words tail,
      column = "bif:search_excerpt(bif:vector(" ++ ", ".intercalate words ++ ")" ++ tail ∧
      ∀ word ∈ words, ∃ t w, IsSought q (flags.withQuery q.flags).counting t ∧
        w ∈ Text.words t.toList ∧ ∃ inner, word = "'" ++ String.ofList inner ++ "'" ∧
          inner = excerptText w ∧
          (StaysWithin '\'' inner ↔ Even (endBackslashes inner)) := by
  obtain ⟨hpatterns, hsearches⟩ := sought_of_body? h
  refine ⟨fun around front rest v t score hinside => ?_, fun column hcolumn => ?_⟩
  · refine ⟨hpatterns _ _ _ _ _ _ hinside, ?_⟩
    obtain ⟨tail, htext⟩ := exists_text_searches v t score
    refine ⟨quote (phrase t).toList, tail, escapeQuotes t.toList, ?_, staysWithin_quote _, ?_,
      staysWithin_escapeQuotes_iff _⟩
    · rw [← htext]
      exact text_infix_assemble hinside
    · rw [unquote_quote, toList_phrase]
  · obtain ⟨words, tail, htext, hwords⟩ := exists_of_mem_excerpt hcolumn
    refine ⟨words, tail, htext, fun word hword => ?_⟩
    obtain ⟨search, hsearch, w, hw, rfl⟩ := hwords word hword
    exact ⟨search.text, w, hsearches search hsearch, hw, excerptText w, excerptWord_eq w, rfl,
      staysWithin_iff (quote_notMem_excerptText w)⟩

/-- A text with a quote in it is held, as a phrase and as a word. -/
theorem quotes_hold_iff_dont :
    let q : Query := .ofTerm (.ofLiteral (.string "don't"))
    let flags : Flags := { noResultRestrictions := true, withExcerpt := true }
    ∃ front s, body? .desktop q (flags.withQuery q.flags) =
        some (front ++ [.searches (.generated 2) "don't" none], s) ∧
      (∃ written inner, StaysWithin '"' written ∧ unquote written = '\'' :: (inner ++ ['\'']) ∧
        StaysWithin '\'' inner) ∧
      ∀ column ∈ excerpt s.searches, ∃ words tail,
        column = "bif:search_excerpt(bif:vector(" ++ ", ".intercalate words ++ ")" ++ tail ∧
        ∀ word ∈ words, ∃ inner, word = "'" ++ String.ofList inner ++ "'" ∧ StaysWithin '\'' inner := by
  intro q flags
  have hbody : body? .desktop q (flags.withQuery q.flags) =
      some ([.triple (.var .result) (.var (.generated 1)) (.var (.generated 2))] ++
        [.searches (.generated 2) "don't" none],
        { used := 2, searches := [⟨.generated 2, "don't", none⟩] }) := rfl
  obtain ⟨hphrases, hexcerpts⟩ := quotes_hold_iff .desktop q flags hbody
  obtain ⟨-, written, -, inner, -, hwritten, hinner, hheld⟩ := hphrases [] _ [] _ _ _ .self
  refine ⟨_, _, hbody, ⟨written, inner, hwritten, hinner, hheld.2 ?_⟩, fun column hcolumn => ?_⟩
  · exact keepsQuotes_of_notMem (by decide)
  · obtain ⟨words, tail, htext, hwords⟩ := hexcerpts column hcolumn
    refine ⟨words, tail, htext, fun word hword => ?_⟩
    obtain ⟨t, w, ⟨l, hl, rfl⟩, hw, inner, hword, rfl, hheld⟩ := hwords word hword
    obtain rfl : l = .string "don't" := List.mem_singleton.1 hl
    obtain rfl : w = "don't".toList := List.mem_singleton.1 hw
    exact ⟨_, hword, hheld.2 (by decide)⟩

/-- A backslash at the end of a text escapes the quote behind it, both in the phrase and in the word of the
excerpt. -/
theorem quotes_lost_docs :
    let q : Query := .ofTerm (.ofLiteral (.string "docs\\"))
    let flags : Flags := { noResultRestrictions := true, withExcerpt := true }
    compile .desktop q flags =
      "select distinct ?r bif:search_excerpt(bif:vector('docs\\'), ?v2) as ?fullTextExcerpt " ++
        "where \x7b ?r ?v1 ?v2 . ?v2 bif:contains \"'docs\\\\'\" . \x7d" ∧
    unquote "'docs\\\\'".toList = '\'' :: ("docs\\".toList ++ ['\'']) ∧
    ¬ StaysWithin '\'' "docs\\".toList := by
  refine ⟨by decide +kernel, by decide, fun h => ?_⟩
  exact absurd (h []) (by decide)

end Sparql

end DesktopSearch
