import TimePetri.Event
import TimePetri.Handle
import TimePetri.Interval.Basic
import TimePetri.Interval.Bound
import TimePetri.Json
import TimePetri.Marking.Basic
import TimePetri.Marking.Encoding
import TimePetri.Marking.Lemmas
import TimePetri.Net
import TimePetri.Output
import TimePetri.Pnml.Document
import TimePetri.Pnml.Export
import TimePetri.Pnml.Xml
import TimePetri.Priority
import TimePetri.Priority.InPlace
import TimePetri.Priority.Search
import TimePetri.Proofs.Checked
import TimePetri.Proofs.Interval.Stored
import TimePetri.Proofs.Marking.Counts
import TimePetri.Proofs.Marking.Sum
import TimePetri.Proofs.Net.Arcs
import TimePetri.Proofs.Net.Cells
import TimePetri.Proofs.Net.Declared
import TimePetri.Proofs.Net.Firing
import TimePetri.Proofs.Net.Names
import TimePetri.Proofs.Net.Numbering
import TimePetri.Proofs.Net.Priorities
import TimePetri.Proofs.Net.Row
import TimePetri.Proofs.Net.Sound
import TimePetri.Proofs.Net.WellFormed
import TimePetri.Proofs.Print.Applied
import TimePetri.Proofs.Print.Arcs
import TimePetri.Proofs.Print.Fault
import TimePetri.Proofs.Print.Feeds
import TimePetri.Proofs.Print.Flow
import TimePetri.Proofs.Print.Lines
import TimePetri.Proofs.Print.Reading
import TimePetri.Proofs.Print.Rebuild
import TimePetri.Proofs.Print.RoundTrip
import TimePetri.Proofs.Print.Texts
import TimePetri.Proofs.Priority.Closure
import TimePetri.Proofs.Priority.Descent
import TimePetri.Proofs.Priority.Failure
import TimePetri.Proofs.Priority.InPlace
import TimePetri.Proofs.Priority.Increasing
import TimePetri.Proofs.Priority.Outcome
import TimePetri.Proofs.Priority.Transitive
import TimePetri.Proofs.Reader.Run
import TimePetri.Proofs.Reader.Tokens
import TimePetri.Proofs.Script.Admissible
import TimePetri.Proofs.Script.Declarations
import TimePetri.Proofs.Script.Declared
import TimePetri.Proofs.Script.Drafts
import TimePetri.Proofs.Script.Edges
import TimePetri.Proofs.Script.Forms
import TimePetri.Proofs.Script.Glyphs
import TimePetri.Proofs.Script.Intervals
import TimePetri.Proofs.Script.Lines
import TimePetri.Proofs.Script.Numbers
import TimePetri.Proofs.Script.Spelling
import TimePetri.Proofs.Script.Spells
import TimePetri.Proofs.Script.Stream
import TimePetri.Proofs.Script.Unambiguous
import TimePetri.Proofs.Script.Unplaced
import TimePetri.Reader.Basic
import TimePetri.Reader.InPlace
import TimePetri.Reader.Weight
import TimePetri.Script.Clause
import TimePetri.Script.Declaration
import TimePetri.Script.Grammar
import TimePetri.Script.Lexeme
import TimePetri.Script.LexemeSource
import TimePetri.Script.Number
import TimePetri.Script.Parse
import TimePetri.Script.ParseError
import TimePetri.Script.Print
import TimePetri.Script.Token
import TimePetri.Script.Tokens
import TimePetri.Text.Hidden
import TimePetri.Text.Quoted
import TimePetri.Word
import TimePetri.Proofs.Reader.Effects
import TimePetri.Proofs.Reader.Parts
import TimePetri.Proofs.Reader.Priorities
import TimePetri.Proofs.Reader.Declarations
import TimePetri.Proofs.Net.Overflow
import TimePetri.Proofs.Reader.Safe
import TimePetri.Proofs.Pnml.Export
import TimePetri.Proofs.Pnml.Behaviour
import TimePetri.Proofs.Net.Strict
import TimePetri.Proofs.Script.Phrases
import TimePetri.Proofs.Script.Viable
import TimePetri.Proofs.Net.Accepted
import TimePetri.Marking.InPlace
import TimePetri.Proofs.Marking.Search
import TimePetri.Proofs.Marking.InPlace
import TimePetri.Proofs.Marking.Conversion
import TimePetri.Proofs.Marking.Encoding
import TimePetri.Proofs.Marking.Built
import TimePetri.Handle.InPlace
import TimePetri.Proofs.Handle.InPlace
import TimePetri.Proofs.Handle.Interned
import TimePetri.Proofs.Interval.Times
import TimePetri.Proofs.Net.Time
import TimePetri.Proofs.Net.Timing
import TimePetri.Proofs.Net.Permuted
import TimePetri.Interval.InPlace
import TimePetri.Proofs.Interval.Intersection
import TimePetri.Proofs.Marking.Encodable
import TimePetri.Pnml.Tree
import TimePetri.Proofs.Pnml.Markup
import TimePetri.Proofs.Pnml.Tree
import TimePetri.Proofs.Pnml.Lossless
import TimePetri.Proofs.Pnml.Ids
import TimePetri.Proofs.Marking.Algebra
import TimePetri.Proofs.Marking.Collected
import TimePetri.Proofs.Script.Numerals
import TimePetri.Proofs.Script.Notes
import TimePetri.Proofs.Script.Brackets
import TimePetri.Proofs.Net.Bracketed
import TimePetri.Proofs.Priority.Passes
import TimePetri.Script.Conversion
import TimePetri.Proofs.Script.Conversion
import TimePetri.Proofs.Net.Ranking
import TimePetri.Proofs.Script.Cursor
import TimePetri.Proofs.Script.Places
import TimePetri.Proofs.Net.Located
import TimePetri.Proofs.Interval.Arithmetic
import TimePetri.Proofs.Interval.Order
import TimePetri.Proofs.Net.StateEquation
import TimePetri.Proofs.Net.Displayed
import TimePetri.Proofs.Script.Written
import TimePetri.Proofs.Net.Counted
import TimePetri.Proofs.Script.Spaced
import TimePetri.Proofs.Net.Spaced
