import BlockMarkup.Main
import BlockMarkup.Grammar.Production
import BlockMarkup.Proofs.Checked
import BlockMarkup.Proofs.Block.Reading
import BlockMarkup.Proofs.Block.SourceText
import BlockMarkup.Proofs.File.Scanning
import BlockMarkup.Proofs.File.Tiling
import BlockMarkup.Proofs.Position.Placement
import BlockMarkup.Proofs.Text.Cut
import BlockMarkup.Proofs.Grammar.Interpolation
import BlockMarkup.Proofs.Document.Location
import BlockMarkup.Proofs.Document.LineIndex
import BlockMarkup.Proofs.Document.Slice
import BlockMarkup.Proofs.Document.SubDocument
import BlockMarkup.Proofs.Document.SubRange
import BlockMarkup.Proofs.Variable.Naming
import BlockMarkup.Proofs.File.Acceptance
import BlockMarkup.Proofs.File.References
import BlockMarkup.Proofs.Position.LineNumbers
import BlockMarkup.Proofs.Document.WholeLines
import BlockMarkup.Proofs.Document.SharedLines
import BlockMarkup.Proofs.Block.LineNumbers
import BlockMarkup.Proofs.Variable.Placement
import BlockMarkup.Proofs.Block.Locality
import BlockMarkup.Proofs.Block.Placement
import BlockMarkup.Proofs.File.Outside
import BlockMarkup.Proofs.File.Composition
import BlockMarkup.Proofs.Document.LineRanges
import BlockMarkup.Proofs.File.Excerpt
import BlockMarkup.Proofs.Variable.LineByLine
import BlockMarkup.Proofs.Document.LineBreaks
import BlockMarkup.Proofs.File.LineBreaks
import BlockMarkup.Proofs.File.RoundTrip
import BlockMarkup.Proofs.File.Headers
import BlockMarkup.Proofs.File.Lookup
import BlockMarkup.Proofs.Cli.ReferenceAt
import BlockMarkup.Proofs.Guarded.LineTable
import BlockMarkup.Proofs.Guarded.Grammar
import BlockMarkup.Proofs.Guarded.Content
import BlockMarkup.Proofs.Guarded.File
import BlockMarkup.Proofs.Document.Conversion
import BlockMarkup.Proofs.Document.UniqueSplit
import BlockMarkup.Proofs.Document.Walk
import BlockMarkup.Proofs.Block.LookAhead
import BlockMarkup.Proofs.Block.FieldChange
import BlockMarkup.Proofs.Text.Trim
import BlockMarkup.Proofs.Grammar.Field
import BlockMarkup.Proofs.Grammar.Header
import BlockMarkup.Proofs.Grammar.Entry
import BlockMarkup.Proofs.Grammar.Production
import BlockMarkup.Proofs.Block.ArrayLines
import BlockMarkup.Proofs.Variable.Occurrences
import BlockMarkup.Proofs.Block.TextLines
import BlockMarkup.Proofs.File.Nesting
import BlockMarkup.Proofs.File.Ownership
import BlockMarkup.Proofs.File.CodeMarks
import BlockMarkup.Proofs.Variable.Innermost
import BlockMarkup.Proofs.Script.Walk
import BlockMarkup.Proofs.Settings.Loading
import BlockMarkup.Proofs.Document.Additivity
import BlockMarkup.Proofs.Cli.PositionArgument
import BlockMarkup.Proofs.Position.HalfOpen
import BlockMarkup.Proofs.Position.Translation
import BlockMarkup.Proofs.Document.BreakCounts
