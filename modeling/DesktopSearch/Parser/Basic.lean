import DesktopSearch.Dates.Folding
import DesktopSearch.Parser.Phrasing
import DesktopSearch.Parser.Token
import DesktopSearch.Query.Basic

/-!
# Parsing

`parse?` reads plain text as a query. The text is cut into tokens; the phrasings are tried on them one
after the other, with dates folded in between; and what is left is fused into one term. On the way the
patterns that stop near the cursor are proposed, and the inquiries that looking up tags and people takes
are noted. A text is not parsed if it tells of a date that cannot be folded.

A `Parser` is what is kept from one text to the next: the labels that were looked up in its store, and the
proposals of the last text.
-/

namespace DesktopSearch

/-! ## One text -/

/-- A text that is being read. -/
structure Draft where
  terms : List Term
  proposals : List Proposal := []
  /-- The inquiries that were made, in order and with repetitions. -/
  inquiries : List Inquiry := []

namespace Draft

/-- The proposals that a phrasing makes for the matches of one of its patterns. -/
def newProposals (ph : Phrasing) (p : Pattern) (cursor : Option Nat) (trials : List Trial) :
    List Proposal :=
  match cursor, ph.completion with
  | some cursor, some c => Proposal.ofTrials p c cursor trials
  | _, _ => []

/-- The inquiry that a match leads to. -/
def inquiryOf? (r : Reading) : Trial → Option Inquiry
  | .matched captures => r.asks? captures
  | .stopped .. => none

/-- Tries one pattern of a phrasing. -/
def tryPattern (x : Surroundings) (cursor : Option Nat) (ph : Phrasing) (d : Draft)
    (pattern : String) : Draft :=
  match Pattern.ofText pattern with
  | .error _ => d
  | .ok p =>
    let result := rewrite p (ph.reading.apply x) d.terms
    { terms := result.terms
      proposals := Proposal.addNew d.proposals (newProposals ph p cursor result.trials)
      inquiries := d.inquiries ++ result.trials.filterMap (inquiryOf? ph.reading) }

/-- Tries all patterns of a phrasing. -/
def tryPhrasing (x : Surroundings) (cursor : Option Nat) (d : Draft) (ph : Phrasing) : Draft :=
  ph.patterns.foldl (tryPattern x cursor ph) d

/-- Folds dates. -/
def foldDates? (settings : Settings) (now : Instant) (d : Draft) : Option Draft :=
  (DesktopSearch.foldDates? settings now d.terms).map fun terms => { d with terms }

/-- Tries all phrasings, with dates folded in between. -/
def tryAll? (x : Surroundings) (now : Instant) (cursor : Option Nat) (d : Draft) : Option Draft :=
  let dated := (Phrasing.ofDates x.flags).foldl (tryPhrasing x cursor) d
  (dated.foldDates? x.settings now).map (Phrasing.afterDates.foldl (tryPhrasing x cursor))

end Draft

/-- What a text is read as. -/
structure Parsed where
  query : Query
  proposals : List Proposal
  inquiries : List Inquiry

/-- What is made of a finished draft. -/
def Draft.parsed (x : Surroundings) (d : Draft) : Parsed :=
  ⟨.ofTerm (fuse x.settings x.flags d.terms 0).1, d.proposals, d.inquiries⟩

/-- Reads a text as a query, as seen from now and with the cursor at a place of the text. -/
def parse? (x : Surroundings) (now : Instant) (cursor : Option Nat) (text : String) : Option Parsed :=
  (Draft.tryAll? x now cursor ⟨tokenize x.settings text, [], []⟩).map (Draft.parsed x)

/-- Reads a text in English, with nothing to look labels up in. -/
def parseQuery? (now : Instant) (text : String) : Option Query :=
  (parse? ⟨.english, {}, {}⟩ now none text).map Parsed.query

/-! ## Many texts -/

/-- What is kept between texts. -/
structure Parser where
  settings : Settings
  store : Option Store
  now : Instant
  /-- The labels that have been looked up in the store. -/
  lookups : Lookups := {}
  /-- The proposals of the last text. -/
  proposals : List Proposal := []

namespace Parser

/-- The labels of the store, those that have been looked up as they were then. -/
def directory (p : Parser) : Directory := p.lookups.complete (.ofStore p.store)

/-- The parser with another store, in which nothing has been looked up. -/
def withStore (p : Parser) (store : Store) : Parser :=
  { p with store := some store, lookups := {} }

/-- Makes an inquiry: what is sent to the store, and the parser that has looked it up. An inquiry that has
been made is not made again, whatever came of it. -/
def inquire (p : Parser) (i : Inquiry) : List Inquiry × Parser :=
  if p.lookups.knows i then ([], p)
  else
    (if p.store.isSome then [i] else [],
      { p with lookups := p.lookups.learn (.ofStore p.store) i })

/-- Makes inquiries, one after the other. -/
def ask (p : Parser) : List Inquiry → List Inquiry × Parser
  | [] => ([], p)
  | i :: is =>
    let asked := p.inquire i
    let rest := asked.2.ask is
    (asked.1 ++ rest.1, rest.2)

/-- What a parser does with a text that has been parsed: it makes the inquiries and keeps the proposals. If
the text could not be parsed there is no query. Nothing has been asked then, as labels are looked up behind
the dates only, and the proposals of the last text are gone. -/
def accept (p : Parser) : Option Parsed → Option Query × List Inquiry × Parser
  | some parsed =>
    let asked := p.ask parsed.inquiries
    (some parsed.query, asked.1, { asked.2 with proposals := parsed.proposals })
  | none => (none, [], { p with proposals := [] })

/-- Reads a text: its query, the inquiries that are sent to the store, and the parser afterwards. -/
def read (p : Parser) (flags : ParserFlags) (cursor : Option Nat) (text : String) :
    Option Query × List Inquiry × Parser :=
  p.accept (parse? ⟨p.settings, flags, p.directory⟩ p.now cursor text)

end Parser

end DesktopSearch
