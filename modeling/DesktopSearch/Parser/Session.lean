import DesktopSearch.Parser.Basic

/-!
# Sessions

A parser is used for many texts. In a session it reads texts, shows the labels that are known to its store,
is told what time it is and is given other stores, one `Command` after the other. Every command has a
`Reply`, and some of them make inquiries that are sent to the store.
-/

namespace DesktopSearch

/-- The lists of labels that a parser shows. -/
inductive LabelList where
  | tags | names | addresses
  deriving DecidableEq, Repr

namespace LabelList

/-- The inquiry that fills a list. -/
def inquiry : LabelList → Inquiry
  | tags => .tags
  | names | addresses => .people

/-- The list in a directory. -/
def entries (d : Directory) : LabelList → Labels
  | tags => d.tags
  | names => d.names
  | addresses => d.addresses

end LabelList

namespace Parser

/-- What a parser is told to do. -/
inductive Command where
  | read (flags : ParserFlags) (cursor : Option Nat) (text : String)
  | list (l : LabelList)
  | setNow (now : Instant)
  | setStore (store : Store)

/-- What comes of a command. A text that could not be parsed has no query. -/
inductive Reply where
  | parsed (query : Option Query) (proposals : List Proposal)
  | labels (labels : List String)
  | done

/-- A parser that has not been used. -/
def fresh (settings : Settings) (store : Option Store) (now : Instant) : Parser :=
  { settings, store, now }

/-- Shows labels: the list, the inquiries that are sent to the store, and the parser afterwards. -/
def list (p : Parser) (l : LabelList) : List String × List Inquiry × Parser :=
  let asked := p.ask [l.inquiry]
  ((l.entries asked.2.directory).map Prod.fst, asked.1, asked.2)

/-- Carries out a command: the reply, the inquiries that are sent to the store, and the parser
afterwards. -/
def step (p : Parser) : Command → Reply × List Inquiry × Parser
  | .read flags cursor text =>
    let result := p.read flags cursor text
    (.parsed result.1 result.2.2.proposals, result.2)
  | .list l =>
    let result := p.list l
    (.labels result.1, result.2)
  | .setNow now => (.done, [], { p with now })
  | .setStore store => (.done, [], p.withStore store)

/-- The parser after some commands. -/
def run (p : Parser) (cs : List Command) : Parser :=
  cs.foldl (fun p c => (p.step c).2.2) p

/-- The inquiries that are sent to the store during some commands. -/
def sent (p : Parser) : List Command → List Inquiry
  | [] => []
  | c :: cs => (p.step c).2.1 ++ sent (p.step c).2.2 cs

end Parser

end DesktopSearch
