import DesktopSearch.Calendar.Date
import DesktopSearch.Calendar.Instant
import DesktopSearch.Calendar.Moment
import DesktopSearch.Dates.Field
import DesktopSearch.Dates.Folding
import DesktopSearch.Dates.Spec
import DesktopSearch.Directory
import DesktopSearch.Fault
import DesktopSearch.Fusion.Basic
import DesktopSearch.Fusion.Context
import DesktopSearch.Fusion.Item
import DesktopSearch.Fusion.Range
import DesktopSearch.Fusion.Tuning
import DesktopSearch.Literal
import DesktopSearch.Number.Decimal
import DesktopSearch.Number.Double
import DesktopSearch.Ontology.Basic
import DesktopSearch.Ontology.Desktop
import DesktopSearch.Parser.Basic
import DesktopSearch.Parser.Phrasing
import DesktopSearch.Parser.Session
import DesktopSearch.Parser.Token
import DesktopSearch.Pattern.Basic
import DesktopSearch.Pattern.Keyword
import DesktopSearch.Pattern.Matching
import DesktopSearch.Pattern.Rewriting
import DesktopSearch.Proofs.Calendar.Date
import DesktopSearch.Proofs.Calendar.Instant
import DesktopSearch.Proofs.Calendar.Period
import DesktopSearch.Proofs.Calendar.Text
import DesktopSearch.Proofs.Calendar.Week
import DesktopSearch.Proofs.Dates.Absolute
import DesktopSearch.Proofs.Dates.Checked
import DesktopSearch.Proofs.Dates.Folding
import DesktopSearch.Proofs.Dates.Relative
import DesktopSearch.Proofs.Dates.Run
import DesktopSearch.Proofs.Dates.Spec
import DesktopSearch.Proofs.Dates.Week
import DesktopSearch.Proofs.Dates.Weekday
import DesktopSearch.Proofs.Directory
import DesktopSearch.Proofs.Fusion.Basic
import DesktopSearch.Proofs.Fusion.Checked
import DesktopSearch.Proofs.Fusion.Kept
import DesktopSearch.Proofs.Fusion.LeftFold
import DesktopSearch.Proofs.Fusion.Level
import DesktopSearch.Proofs.Fusion.Nodes
import DesktopSearch.Proofs.Fusion.Parentheses
import DesktopSearch.Proofs.Fusion.Span
import DesktopSearch.Proofs.Fusion.Tuning
import DesktopSearch.Proofs.Fusion.Window
import DesktopSearch.Proofs.Fusion.Within
import DesktopSearch.Proofs.Literal
import DesktopSearch.Proofs.Ontology.Desktop
import DesktopSearch.Proofs.Ontology.Subclass
import DesktopSearch.Proofs.Parser.Answer
import DesktopSearch.Proofs.Parser.Checked
import DesktopSearch.Proofs.Parser.Compilation
import DesktopSearch.Proofs.Parser.Cursor
import DesktopSearch.Proofs.Parser.Draft
import DesktopSearch.Proofs.Parser.Ending
import DesktopSearch.Proofs.Parser.Lookup
import DesktopSearch.Proofs.Parser.Month
import DesktopSearch.Proofs.Parser.Piece
import DesktopSearch.Proofs.Parser.Placed
import DesktopSearch.Proofs.Parser.Proposal
import DesktopSearch.Proofs.Parser.Reading
import DesktopSearch.Proofs.Parser.Recordable
import DesktopSearch.Proofs.Parser.Session
import DesktopSearch.Proofs.Parser.Settled
import DesktopSearch.Proofs.Parser.Spacing
import DesktopSearch.Proofs.Parser.Span
import DesktopSearch.Proofs.Parser.Spelled
import DesktopSearch.Proofs.Parser.Subquery
import DesktopSearch.Proofs.Parser.Token
import DesktopSearch.Proofs.Parser.Value
import DesktopSearch.Proofs.Parser.Within
import DesktopSearch.Proofs.Pattern.Captured
import DesktopSearch.Proofs.Pattern.Checked
import DesktopSearch.Proofs.Pattern.Ending
import DesktopSearch.Proofs.Pattern.Expression
import DesktopSearch.Proofs.Pattern.Leftmost
import DesktopSearch.Proofs.Pattern.Rewriting
import DesktopSearch.Proofs.Pattern.Segment
import DesktopSearch.Proofs.Pattern.Stopped
import DesktopSearch.Proofs.Pattern.View
import DesktopSearch.Proofs.Query.Markup
import DesktopSearch.Proofs.Query.Reachable
import DesktopSearch.Proofs.Reading.Checked
import DesktopSearch.Proofs.Reading.Glued
import DesktopSearch.Proofs.Reading.Small
import DesktopSearch.Proofs.Sparql.Anchored
import DesktopSearch.Proofs.Sparql.Binding
import DesktopSearch.Proofs.Sparql.Body
import DesktopSearch.Proofs.Sparql.Column
import DesktopSearch.Proofs.Sparql.Compilation
import DesktopSearch.Proofs.Sparql.Everywhere
import DesktopSearch.Proofs.Sparql.Expressible
import DesktopSearch.Proofs.Sparql.Fetched
import DesktopSearch.Proofs.Sparql.Folder
import DesktopSearch.Proofs.Sparql.Forms
import DesktopSearch.Proofs.Sparql.Fresh
import DesktopSearch.Proofs.Sparql.Glob
import DesktopSearch.Proofs.Sparql.Lowering
import DesktopSearch.Proofs.Sparql.Material
import DesktopSearch.Proofs.Sparql.Members
import DesktopSearch.Proofs.Sparql.Merging
import DesktopSearch.Proofs.Sparql.Named
import DesktopSearch.Proofs.Sparql.Optimized
import DesktopSearch.Proofs.Sparql.Part
import DesktopSearch.Proofs.Sparql.Phrase
import DesktopSearch.Proofs.Sparql.Place
import DesktopSearch.Proofs.Sparql.Preparation
import DesktopSearch.Proofs.Sparql.Renaming
import DesktopSearch.Proofs.Sparql.Scope
import DesktopSearch.Proofs.Sparql.Searchable
import DesktopSearch.Proofs.Sparql.Span
import DesktopSearch.Proofs.Sparql.Squeeze
import DesktopSearch.Proofs.Sparql.Trace
import DesktopSearch.Proofs.Sparql.Widest
import DesktopSearch.Proofs.Sparql.Wildcard
import DesktopSearch.Proofs.Term.Attributes
import DesktopSearch.Proofs.Term.Basic
import DesktopSearch.Proofs.Term.Congruence
import DesktopSearch.Proofs.Term.Exact
import DesktopSearch.Proofs.Term.Gathered
import DesktopSearch.Proofs.Term.Markup
import DesktopSearch.Proofs.Term.Meaning
import DesktopSearch.Proofs.Term.NormalForm
import DesktopSearch.Proofs.Term.Operators
import DesktopSearch.Proofs.Term.Settled
import DesktopSearch.Proofs.Term.Span
import DesktopSearch.Proofs.Term.Within
import DesktopSearch.Proofs.Text.Checked
import DesktopSearch.Proofs.Text.Digit
import DesktopSearch.Proofs.Text.Quote
import DesktopSearch.Proofs.Text.Regexp
import DesktopSearch.Proofs.Text.Replace
import DesktopSearch.Proofs.Text.Scan
import DesktopSearch.Proofs.Xml.Escape
import DesktopSearch.Proofs.Xml.Lexical
import DesktopSearch.Proofs.Xml.Reference
import DesktopSearch.Proofs.Xml.Rendering
import DesktopSearch.Proofs.Xml.Tag
import DesktopSearch.Proofs.Xml.Tokens
import DesktopSearch.Proofs.Xml.Tree
import DesktopSearch.Proposal
import DesktopSearch.Query.Basic
import DesktopSearch.Query.Change
import DesktopSearch.Query.Markup
import DesktopSearch.Reading.Basic
import DesktopSearch.Reading.Date
import DesktopSearch.Reading.Kind
import DesktopSearch.Reading.Number
import DesktopSearch.Reading.Property
import DesktopSearch.Settings.Basic
import DesktopSearch.Settings.Document
import DesktopSearch.Settings.Path
import DesktopSearch.Settings.Reader
import DesktopSearch.Sparql.Compilation
import DesktopSearch.Sparql.Glob
import DesktopSearch.Sparql.Lowering
import DesktopSearch.Sparql.Pattern
import DesktopSearch.Sparql.Preparation
import DesktopSearch.Sparql.Squeeze
import DesktopSearch.Term.Basic
import DesktopSearch.Term.Comparison
import DesktopSearch.Term.Markup
import DesktopSearch.Term.Operators
import DesktopSearch.Term.Optimize
import DesktopSearch.Term.Span
import DesktopSearch.Text.Blank
import DesktopSearch.Text.Case
import DesktopSearch.Text.CaseTable
import DesktopSearch.Text.Digit
import DesktopSearch.Text.Escape
import DesktopSearch.Text.LetterTable
import DesktopSearch.Text.Replace
import DesktopSearch.Uri
import DesktopSearch.Vocabulary
import DesktopSearch.Xml.Escape
import DesktopSearch.Xml.Node
import DesktopSearch.Xml.Reader
