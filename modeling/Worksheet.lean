import Worksheet.Proofs.Reference.Order
import Worksheet.Store.LabelStore
import Worksheet.Store.RangeStore
import Worksheet.Stored.Formula
import Worksheet.Stored.Pattern
import Worksheet.Text.Cursor
import Worksheet.Proofs.Store.CornerIndex
import Worksheet.Proofs.Store.Holders
import Worksheet.Proofs.Store.Values
import Worksheet.Proofs.Store.Ledger
import Worksheet.Proofs.Store.Run
import Worksheet.Proofs.Store.Agreement
import Worksheet.Proofs.Store.Simulation
import Worksheet.Proofs.Store.Lookup
import Worksheet.Proofs.Store.Calls
import Worksheet.Proofs.Store.Replacement
import Worksheet.Proofs.Store.Notices
import Worksheet.Proofs.Store.Definitions
import Worksheet.Proofs.Store.Chains
import Worksheet.Proofs.Store.Coverage
import Worksheet.Proofs.Reference.RoundTrip
import Worksheet.Proofs.Formula.Scanning
import Worksheet.Proofs.Formula.Rendering
import Worksheet.Proofs.Formula.Lexing
import Worksheet.Proofs.Formula.Climbing
import Worksheet.Proofs.Formula.RoundTrip
import Worksheet.Proofs.Number.Nearest
import Worksheet.Proofs.Number.Rounding
import Worksheet.Proofs.Number.Double
import Worksheet.Proofs.Number.Reading
import Worksheet.Proofs.Number.Shortest
import Worksheet.Proofs.Number.PlainText
import Worksheet.Proofs.Formula.Literals
import Worksheet.Proofs.Formula.Reading
import Worksheet.Proofs.Formula.Grammar
import Worksheet.Proofs.Formula.Covering
import Worksheet.Proofs.Formula.Precedence
import Worksheet.Proofs.Number.Size
import Worksheet.Proofs.Formula.Legible
import Worksheet.Proofs.Formula.Rereading
import Worksheet.Proofs.Formula.Operations
import Worksheet.Proofs.Formula.Freshness
import Worksheet.Proofs.Text.Case
import Worksheet.Proofs.Pattern.Heads
import Worksheet.Proofs.Pattern.Derivation
import Worksheet.Proofs.Pattern.Spelling
import Worksheet.Proofs.Pattern.Depth
import Worksheet.Proofs.Pattern.Front
import Worksheet.Proofs.Pattern.Greedy
import Worksheet.Proofs.Pattern.Completeness
import Worksheet.Proofs.Pattern.Sections
import Worksheet.Proofs.Pattern.Semicolon
import Worksheet.Proofs.Pattern.Separated
import Worksheet.Proofs.Pattern.Joined
import Worksheet.Proofs.Read.Alternatives
import Worksheet.Proofs.Number.Unsigned
import Worksheet.Proofs.Pattern.Digits
import Worksheet.Proofs.Format.DigitPattern
import Worksheet.Proofs.Format.Printed
import Worksheet.Proofs.Read.Places
import Worksheet.Proofs.Read.Printed
import Worksheet.Proofs.Pattern.Components
import Worksheet.Proofs.Read.Fields
import Worksheet.Proofs.Read.Moment
import Worksheet.Proofs.Calendar.Parts
import Worksheet.Proofs.Calendar.Iso
import Worksheet.Proofs.Stored.Values
import Worksheet.Proofs.Stored.Nodes
import Worksheet.Proofs.Stored.Patterns
import Worksheet.Proofs.Stored.Formulas
import Worksheet.Proofs.Stored.RoundTrip
import Worksheet.Proofs.Convert.Compiled
import Worksheet.Proofs.Convert.RoundTrip
import Worksheet.Proofs.Reference.Selections
import Worksheet.Proofs.Ebnf.Layout
import Worksheet.Proofs.Ebnf.Reading
import Worksheet.Proofs.Ebnf.Names
import Worksheet.Proofs.Ebnf.Source
import Worksheet.Proofs.Ebnf.Printing
import Worksheet.Proofs.Pattern.Standard
import Worksheet.Proofs.Number.Powers
import Worksheet.Proofs.Number.Range
import Worksheet.Proofs.Number.Order
import Worksheet.Proofs.Format.General
import Worksheet.Proofs.Read.General
import Worksheet.Proofs.Convert.Numbers
import Worksheet.Proofs.Formula.Evaluation
import Worksheet.Proofs.Formula.Queries
import Worksheet.Proofs.Formula.Failure
import Worksheet.Proofs.Number.Nan
import Worksheet.Proofs.Number.Rank
import Worksheet.Proofs.Calendar.Serial
import Worksheet.Proofs.Formula.Comparing
import Worksheet.Proofs.Read.Sizes
import Worksheet.Proofs.Formula.Overflow
import Worksheet.Proofs.Formula.Reduction
import Worksheet.Proofs.Formula.Lookahead
import Worksheet.Proofs.Formula.Stopping
import Worksheet.Proofs.Formula.Positions
import Worksheet.Proofs.Format.Glyphs
import Worksheet.Proofs.Format.Pieces
import Worksheet.Proofs.Format.Spelled
import Worksheet.Proofs.Number.Scaling
import Worksheet.Proofs.Pattern.Boundary
import Worksheet.Proofs.Format.Compiling
import Worksheet.Proofs.Format.Choosing
import Worksheet.Proofs.Format.Finite
import Worksheet.Proofs.Number.Exact
import Worksheet.Proofs.Calendar.Days
import Worksheet.Proofs.Calendar.Serials
import Worksheet.Proofs.Pattern.LeafKinds
import Worksheet.Proofs.Format.BestFraction
import Worksheet.Proofs.Pattern.Termination
import Worksheet.Proofs.Reference.Letters
import Worksheet.Proofs.Reference.Spelling
import Worksheet.Proofs.Reference.Recognition
import Worksheet.Proofs.Reference.Rectangles
import Worksheet.Proofs.Stored.Loading
import Worksheet.Proofs.Reference.Frontier
import Worksheet.Proofs.Number.Equality
import Worksheet.Proofs.Value.Equality
import Worksheet.Proofs.Text.Bytes
import Worksheet.Proofs.Text.Cuts
import Worksheet.Proofs.Read.Offsets
import Worksheet.Proofs.Formula.Progress
import Worksheet.Proofs.Ebnf.Arena
import Worksheet.Proofs.Ebnf.ArenaReading
import Worksheet.Proofs.Ebnf.ArenaExpressions
import Worksheet.Proofs.Ebnf.ArenaGrammars
import Worksheet.Proofs.Ebnf.ArenaWalks
