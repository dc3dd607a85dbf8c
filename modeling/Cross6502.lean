import Cross6502.Assembly.Definitions
import Cross6502.Assembly.Emission
import Cross6502.Assembly.Listing
import Cross6502.Assembly.Run
import Cross6502.Assembly.Statement
import Cross6502.Byte
import Cross6502.Command.Assemble
import Cross6502.Command.Console
import Cross6502.Command.Disassemble
import Cross6502.Command.Invocation
import Cross6502.Command.Link
import Cross6502.Command.Parameter
import Cross6502.Container.Cartridge
import Cross6502.Container.Flat
import Cross6502.Container.Format
import Cross6502.Container.Stored
import Cross6502.Diagnostic.Failure
import Cross6502.Diagnostic.Location
import Cross6502.Diagnostic.Report
import Cross6502.Diagnostic.SourceError
import Cross6502.Disassembly.Labels
import Cross6502.Disassembly.Line
import Cross6502.Disassembly.Walk
import Cross6502.Files.Directory
import Cross6502.Files.Load
import Cross6502.Files.Path
import Cross6502.Files.Save
import Cross6502.Index
import Cross6502.Instruction.Encoded
import Cross6502.Instruction.Mnemonic
import Cross6502.Instruction.Mode
import Cross6502.Instruction.Opcode
import Cross6502.Line.Basic
import Cross6502.Line.Mode
import Cross6502.Link.Image
import Cross6502.Link.Merge
import Cross6502.Link.Patch
import Cross6502.Literal
import Cross6502.Log
import Cross6502.Main
import Cross6502.Numeral
import Cross6502.Object.Basic
import Cross6502.Object.Directive
import Cross6502.Settings
import Cross6502.Sidecar.Attach
import Cross6502.Sidecar.Basic
import Cross6502.Sidecar.Reader
import Cross6502.Substitution.Arithmetic
import Cross6502.Substitution.Buffer
import Cross6502.Substitution.Names
import Cross6502.Substitution.Replacement
import Cross6502.Substitution.Token
import Cross6502.Symbol.Addition
import Cross6502.Symbol.Basic
import Cross6502.Symbol.Table
import Cross6502.Text.Alphanumeric
import Cross6502.Text.Basic
import Cross6502.Text.Blank
import Cross6502.Text.Cased
import Cross6502.Text.ControlSequence
import Cross6502.Text.Digit
import Cross6502.Text.LineBreak
import Cross6502.Text.Lowercase
import Cross6502.Text.Number
import Cross6502.Text.Quoted
import Cross6502.Text.Similarity
import Cross6502.Text.Utf8
import Cross6502.Proofs.Assembly.Account
import Cross6502.Proofs.Assembly.Buffers
import Cross6502.Proofs.Assembly.CompleteLiteral
import Cross6502.Proofs.Assembly.Drift
import Cross6502.Proofs.Assembly.FirstDefinition
import Cross6502.Proofs.Assembly.LightLine
import Cross6502.Proofs.Assembly.NamedLine
import Cross6502.Proofs.Assembly.OwnErrors
import Cross6502.Proofs.Assembly.Produced
import Cross6502.Proofs.Assembly.References
import Cross6502.Proofs.Assembly.Rewording
import Cross6502.Proofs.Assembly.Sizing
import Cross6502.Proofs.Assembly.SoleName
import Cross6502.Proofs.Assembly.Steps
import Cross6502.Proofs.Assembly.SumLine
import Cross6502.Proofs.Assembly.SymbolOrigin
import Cross6502.Proofs.Assembly.Target
import Cross6502.Proofs.Assembly.UnknownNames
import Cross6502.Proofs.Assembly.Unplaced
import Cross6502.Proofs.Assembly.Variables
import Cross6502.Proofs.Command.Artifacts
import Cross6502.Proofs.Command.Assemble
import Cross6502.Proofs.Command.Effect
import Cross6502.Proofs.Command.Link
import Cross6502.Proofs.Command.Words
import Cross6502.Proofs.Container.Cartridge
import Cross6502.Proofs.Container.ReadBack
import Cross6502.Proofs.Container.StoredSegment
import Cross6502.Proofs.Disassembly.Derivation
import Cross6502.Proofs.Disassembly.DerivedLabels
import Cross6502.Proofs.Disassembly.DistinctLabels
import Cross6502.Proofs.Disassembly.EncodedLine
import Cross6502.Proofs.Disassembly.Partition
import Cross6502.Proofs.Disassembly.Printed
import Cross6502.Proofs.Disassembly.Reading
import Cross6502.Proofs.Disassembly.Reassembly
import Cross6502.Proofs.Disassembly.Shown
import Cross6502.Proofs.Disassembly.Tiling
import Cross6502.Proofs.Files.Beside
import Cross6502.Proofs.Files.FirstSegment
import Cross6502.Proofs.Files.Writing
import Cross6502.Proofs.Instruction.Opcode
import Cross6502.Proofs.Line.Form
import Cross6502.Proofs.Line.Rewording
import Cross6502.Proofs.Link.Addend
import Cross6502.Proofs.Link.Concatenation
import Cross6502.Proofs.Link.Containment
import Cross6502.Proofs.Link.Deferral
import Cross6502.Proofs.Link.Merging
import Cross6502.Proofs.Link.Patching
import Cross6502.Proofs.Link.Placement
import Cross6502.Proofs.Link.Refusals
import Cross6502.Proofs.Link.Sites
import Cross6502.Proofs.Link.ThroughFiles
import Cross6502.Proofs.Link.Union
import Cross6502.Proofs.Literal.Width
import Cross6502.Proofs.Numeral.Written
import Cross6502.Proofs.Object.Segments
import Cross6502.Proofs.Outcome
import Cross6502.Proofs.Sidecar.Order
import Cross6502.Proofs.Sidecar.RoundTrip
import Cross6502.Proofs.Substitution.Bounded
import Cross6502.Proofs.Substitution.Bulk
import Cross6502.Proofs.Substitution.HeldPlaces
import Cross6502.Proofs.Substitution.Light
import Cross6502.Proofs.Substitution.LightSum
import Cross6502.Proofs.Substitution.PlainName
import Cross6502.Proofs.Substitution.Reported
import Cross6502.Proofs.Substitution.Search
import Cross6502.Proofs.Substitution.Simultaneous
import Cross6502.Proofs.Substitution.SingleName
import Cross6502.Proofs.Substitution.Sum
import Cross6502.Proofs.Substitution.Token
import Cross6502.Proofs.Symbol.History
import Cross6502.Proofs.Symbol.Ranking
import Cross6502.Proofs.Symbol.Table
import Cross6502.Proofs.Text.Case
import Cross6502.Proofs.Text.Cutting
import Cross6502.Proofs.Text.Digits
import Cross6502.Proofs.Text.Utf8
