import MarkupTidy.Main
import MarkupTidy.Markup.Edit
import MarkupTidy.Markup.Iteration
import MarkupTidy.Number.DecimalText
import MarkupTidy.Pass.Builtin
import MarkupTidy.Plan.SettingsFile
import MarkupTidy.Run.Bus
import MarkupTidy.Run.File
import MarkupTidy.Run.Pipeline
import MarkupTidy.Sheet.Merge
import MarkupTidy.Sheet.Printer
import MarkupTidy.Text.Blank
import MarkupTidy.Text.Digit
import MarkupTidy.Text.LetterCase
import MarkupTidy.Text.Printable
import MarkupTidy.Text.WordChar
import MarkupTidy.Proofs.Chunk.Components
import MarkupTidy.Proofs.Chunk.Delivery
import MarkupTidy.Proofs.Chunk.Name
import MarkupTidy.Proofs.Command.FatalErrors
import MarkupTidy.Proofs.File.Tree
import MarkupTidy.Proofs.Markup.Built
import MarkupTidy.Proofs.Markup.Grammar
import MarkupTidy.Proofs.Markup.Invariant
import MarkupTidy.Proofs.Markup.Layout
import MarkupTidy.Proofs.Markup.Legible
import MarkupTidy.Proofs.Markup.Marks
import MarkupTidy.Proofs.Markup.Mismatch
import MarkupTidy.Proofs.Markup.Necessity
import MarkupTidy.Proofs.Markup.Place
import MarkupTidy.Proofs.Markup.Reading
import MarkupTidy.Proofs.Markup.Rendered
import MarkupTidy.Proofs.Markup.RoundTrip
import MarkupTidy.Proofs.Markup.StyleParts
import MarkupTidy.Proofs.Markup.StyleRoundTrip
import MarkupTidy.Proofs.Markup.Tiling
import MarkupTidy.Proofs.Markup.Written
import MarkupTidy.Proofs.Number.Equality
import MarkupTidy.Proofs.Number.Reader
import MarkupTidy.Proofs.Number.Rounding
import MarkupTidy.Proofs.Number.Shortest
import MarkupTidy.Proofs.Number.Written
import MarkupTidy.Proofs.Pass.Cleanup
import MarkupTidy.Proofs.Pass.Completion
import MarkupTidy.Proofs.Pass.Composites
import MarkupTidy.Proofs.Pass.Corrections
import MarkupTidy.Proofs.Pass.Edits
import MarkupTidy.Proofs.Pass.Flattening
import MarkupTidy.Proofs.Pass.Frame
import MarkupTidy.Proofs.Pass.GeneratedClasses
import MarkupTidy.Proofs.Pass.Graphics
import MarkupTidy.Proofs.Pass.Iteration
import MarkupTidy.Proofs.Pass.Nesting
import MarkupTidy.Proofs.Pass.Overflow
import MarkupTidy.Proofs.Pass.Reoptimizing
import MarkupTidy.Proofs.Pass.Reported
import MarkupTidy.Proofs.Pass.Resolving
import MarkupTidy.Proofs.Pass.SweepAgreement
import MarkupTidy.Proofs.Pass.Telling
import MarkupTidy.Proofs.Pass.Typefaces
import MarkupTidy.Proofs.Pass.Walk
import MarkupTidy.Proofs.Pass.WrittenTokens
import MarkupTidy.Proofs.Plan.Order
import MarkupTidy.Proofs.Plan.Planned
import MarkupTidy.Proofs.Run.Acceptance
import MarkupTidy.Proofs.Run.ClassTable
import MarkupTidy.Proofs.Run.Completion
import MarkupTidy.Proofs.Run.Counters
import MarkupTidy.Proofs.Run.GeneratedClasses
import MarkupTidy.Proofs.Run.Isolation
import MarkupTidy.Proofs.Run.Passes
import MarkupTidy.Proofs.Run.Repetition
import MarkupTidy.Proofs.Run.Schedule
import MarkupTidy.Proofs.Run.Trace
import MarkupTidy.Proofs.Sheet.Built
import MarkupTidy.Proofs.Sheet.ClassRules
import MarkupTidy.Proofs.Sheet.Declarations
import MarkupTidy.Proofs.Sheet.FontImport
import MarkupTidy.Proofs.Sheet.Merging
import MarkupTidy.Proofs.Sheet.Parts
import MarkupTidy.Proofs.Sheet.Printing
import MarkupTidy.Proofs.Sheet.RoundTrip
import MarkupTidy.Proofs.Text.LetterCase
import MarkupTidy.Proofs.Text.Search
import MarkupTidy.Proofs.Text.Utf8
import MarkupTidy.Proofs.Text.Words
import MarkupTidy.Proofs.Url.Form
import MarkupTidy.Proofs.Utility.Absorbed
import MarkupTidy.Proofs.Utility.ClassAnswers
import MarkupTidy.Proofs.Utility.ClassRequests
import MarkupTidy.Proofs.Utility.ClassTokens
import MarkupTidy.Proofs.Utility.GeneratedNames
import MarkupTidy.Proofs.Utility.Gradient
import MarkupTidy.Proofs.Utility.Identifiers
import MarkupTidy.Proofs.Utility.InertToken
import MarkupTidy.Proofs.Utility.NormalReferences
import MarkupTidy.Proofs.Utility.Radius
import MarkupTidy.Proofs.Utility.Sizes
import MarkupTidy.Proofs.Utility.SweepResidue
import MarkupTidy.Proofs.Utility.SweptValues
import MarkupTidy.Proofs.Variable.Declared
import MarkupTidy.Proofs.Variable.Loading
import MarkupTidy.Proofs.Variable.Spelling
