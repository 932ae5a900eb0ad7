import LetPrint.Text.Blank
import LetPrint.Text.Lines
import LetPrint.Text.Printable
import LetPrint.Text.Numeral
import LetPrint.Text.Quoted
import LetPrint.Text.Phrase
import LetPrint.Text.Utf8
import LetPrint.Text.Binary64
import LetPrint.Bindings
import LetPrint.Source.Excerpt
import LetPrint.Diagnostic
import LetPrint.Token.Dump
import LetPrint.Syntax.Node
import LetPrint.Syntax.Describe
import LetPrint.Syntax.Outline
import LetPrint.Parser.Grammar
import LetPrint.Code.Emission
import LetPrint.Code.Listing
import LetPrint.Machine.Run
import LetPrint.Evaluator
import LetPrint.Record
import LetPrint.CommandLine.Run
import LetPrint.Main
import LetPrint.Proofs.Translation
import LetPrint.Proofs.MachineSteps
import LetPrint.Proofs.Effects
import LetPrint.Proofs.PartialRuns
import LetPrint.Proofs.ExprRuns
import LetPrint.Proofs.Spelling
import LetPrint.Proofs.Scanning
import LetPrint.Proofs.Tokenization
import LetPrint.Proofs.Alphabet
import LetPrint.Proofs.Relexing
import LetPrint.Proofs.Numerals
import LetPrint.Proofs.Language
import LetPrint.Proofs.Derivation
import LetPrint.Proofs.Prediction
import LetPrint.Proofs.Progress
import LetPrint.Proofs.Following
import LetPrint.Proofs.Operands
import LetPrint.Proofs.Parsing
import LetPrint.Proofs.Acceptance
import LetPrint.Proofs.Reports
import LetPrint.Proofs.FirstFault
import LetPrint.Proofs.Reading
import LetPrint.Proofs.Backends
import LetPrint.Proofs.ListingLines
import LetPrint.Proofs.ListingCodec
import LetPrint.Proofs.Scopes
import LetPrint.Proofs.CompiledListing
import LetPrint.Proofs.ScopedRuns
import LetPrint.Proofs.Rejection
import LetPrint.Proofs.FailedSteps
import LetPrint.Proofs.StackHeight
import LetPrint.Proofs.Safety
import LetPrint.Proofs.Drawing
import LetPrint.Proofs.Dumps
import LetPrint.Proofs.LongLiterals
import LetPrint.Proofs.CommandRuns
import LetPrint.Proofs.StraightLine
import LetPrint.Proofs.SingleAssignment
import LetPrint.Proofs.Changes
import LetPrint.Proofs.Copies
import LetPrint.Proofs.RenamedRuns
import LetPrint.Proofs.Positions
import LetPrint.Proofs.Renaming
import LetPrint.Proofs.RunTimeErrors
import LetPrint.Proofs.StackByPosition
import LetPrint.Proofs.CallsByHand
import LetPrint.Proofs.Decompilation
import LetPrint.Proofs.Extents
import LetPrint.Proofs.SourceLines
import LetPrint.Proofs.Carets
import LetPrint.Proofs.Declarations
import LetPrint.Proofs.Pointing
import LetPrint.Proofs.JoinedListings
import LetPrint.Proofs.LineColumns
import LetPrint.Proofs.Underlining
import LetPrint.Proofs.TokenMarks
import LetPrint.Proofs.ParserRecords
import LetPrint.Proofs.ParserCalls
import LetPrint.Proofs.ExprInContext
import LetPrint.Proofs.Outlines
import LetPrint.Proofs.OutlinedPrograms
import LetPrint.Proofs.FaithfulDrawings
