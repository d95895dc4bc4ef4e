import DesktopSearch.Pattern.Rewriting

/-!
# Proposals

A proposal is a pattern that someone has started to type, with the stretch of the input that its first
parts cover. Proposals come from the matches of a pattern that stopped because the terms ended, near the
place where the cursor stands.
-/

namespace DesktopSearch

/-- What kind of value completes a proposal. -/
inductive ProposalType where
  | none | dateTime | tag | contact | email
  deriving DecidableEq, Repr

namespace ProposalType

/-- All kinds. -/
def all : List ProposalType := [none, dateTime, tag, contact, email]

/-- The name of a kind. -/
def name : ProposalType → String
  | none => "none"
  | dateTime => "datetime"
  | tag => "tag"
  | contact => "contact"
  | email => "email"

/-- The kind with a given name. -/
def ofName? (s : String) : Option ProposalType := all.find? (·.name == s)

end ProposalType

/-- What a pattern proposes: the kind of value that completes it, and a description. -/
structure Completion where
  type : ProposalType
  description : String
  deriving DecidableEq

/-- A pattern that has been started. -/
structure Proposal where
  /-- The parts of the pattern as written. -/
  pattern : List String
  /-- The place of the last part that was typed. -/
  last : Nat
  position : Nat
  length : Nat
  completion : Completion
  deriving DecidableEq

namespace Proposal

/-- The parts that are still to be typed. -/
def remaining (p : Proposal) : List String :=
  p.pattern.drop (min (p.last + 1) p.pattern.length)

/-- The pattern as text. -/
def text (p : Proposal) : String := " ".intercalate p.pattern

/-- Whether a place is inside a span, at its end or one place behind it. -/
def isNear (cursor : Nat) (span : Span) : Bool :=
  decide (span.start ≤ cursor) && decide (cursor ≤ span.stop + 1)

/-- The proposal for a match that stopped near the cursor. -/
def ofTrial? (p : Pattern) (c : Completion) (cursor : Nat) : Trial → Option Proposal
  | .matched _ => none
  | .stopped parts span =>
    if isNear cursor span then some ⟨p.source, parts - 1, span.start, span.length, c⟩ else none

/-- Adds proposals that are not in a list yet. -/
def addNew (ps : List Proposal) : List Proposal → List Proposal
  | [] => ps
  | q :: qs => addNew (if ps.contains q then ps else ps ++ [q]) qs

/-- The proposals of a pattern after rewriting with it. -/
def ofTrials (p : Pattern) (c : Completion) (cursor : Nat) (trials : List Trial) : List Proposal :=
  addNew [] (trials.filterMap (ofTrial? p c cursor))

end Proposal

end DesktopSearch
