import SqlReader.Main
import SqlReader.Proofs.Picture
import SqlReader.Proofs.Progress.Basic
import SqlReader.Proofs.Progress.Manipulation
import SqlReader.Proofs.Progress.Table
import SqlReader.Proofs.Progress.Schema
import SqlReader.Proofs.Progress
import SqlReader.Proofs.Admission
import SqlReader.Proofs.Storage
import SqlReader.Proofs.Matching
import SqlReader.Proofs.Scanning
import SqlReader.Proofs.Shape
import SqlReader.Proofs.Residual.Basic
import SqlReader.Proofs.Residual.Manipulation
import SqlReader.Proofs.Residual.Schema
import SqlReader.Proofs.Residual.Table
import SqlReader.Proofs.Residual
import SqlReader.Proofs.Validity
import SqlReader.Proofs.Acceptance
import SqlReader.Proofs.Reading
import SqlReader.Proofs.Spelling
import SqlReader.Proofs.Completion
import SqlReader.Proofs.History
import SqlReader.Proofs.Position
import SqlReader.Proofs.ErrorPosition
import SqlReader.Proofs.Validation
import SqlReader.Proofs.Edits
import SqlReader.Proofs.Coherence
import SqlReader.Proofs.Expressible
import SqlReader.Proofs.Writing.Basic
import SqlReader.Proofs.Writing.Taking
import SqlReader.Proofs.Writing.Condition
import SqlReader.Proofs.Writing.Manipulation
import SqlReader.Proofs.Writing.Clause
import SqlReader.Proofs.Writing.Table
import SqlReader.Proofs.Writing
import SqlReader.Proofs.Separation
import SqlReader.Proofs.Expressiveness
import SqlReader.Proofs.Stability
import SqlReader.Proofs.Trace
import SqlReader.Proofs.Verdict
import SqlReader.Proofs.Layout
import SqlReader.Proofs.Definition.Tree
import SqlReader.Proofs.Definition.Reading
import SqlReader.Proofs.Definition.Parsing
import SqlReader.Proofs.Definition.Placement
import SqlReader.Proofs.Definition.Checks
import SqlReader.Proofs.Naming
import SqlReader.Proofs.Precedence
import SqlReader.Proofs.Json.Text
import SqlReader.Proofs.Json.Layout
import SqlReader.Proofs.Json.Data
import SqlReader.Proofs.DataForm
import SqlReader.Proofs.Tokenization
import SqlReader.Proofs.Batch
import SqlReader.Proofs.Agreement.Tree
import SqlReader.Proofs.Agreement
import SqlReader.Proofs.WordLookup
import SqlReader.Proofs.Margins
import SqlReader.Proofs.ErrorReport
import SqlReader.Proofs.ViewQuery
import SqlReader.Proofs.Quotation
import SqlReader.Proofs.LetterCase
import SqlReader.Proofs.Checking
import SqlReader.Proofs.Toml.Text
import SqlReader.Proofs.Toml.Value
import SqlReader.Proofs.Toml.Document
import SqlReader.Proofs.ConfigFile
import SqlReader.Proofs.VocabularyOrder
import SqlReader.Proofs.Bytes.Text
import SqlReader.Proofs.Bytes.Scan
import SqlReader.Proofs.Bytes.Cursor
import SqlReader.Proofs.Bytes.Progress
