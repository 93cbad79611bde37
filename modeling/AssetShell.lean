import AssetShell.Literal.Check
import AssetShell.Literal.Typed
import AssetShell.Json.Printer
import AssetShell.Json.Numeral
import AssetShell.Json.Outline
import AssetShell.Reference.Basic
import AssetShell.Interchange.Decoder
import AssetShell.Interchange.Reference
import AssetShell.Interchange.Tagged
import AssetShell.Text.Extending
import AssetShell.Text.Quoted
import AssetShell.Model.Attributes
import AssetShell.Model.Element
import AssetShell.Model.Identifiable
import AssetShell.Model.Validation
import AssetShell.Document
import AssetShell.Files.Entry
import AssetShell.Files.Path
import AssetShell.Files.Walk
import AssetShell.Model.Editing
import AssetShell.Report
import AssetShell.Number.Positional
import AssetShell.Toml.Basic
import AssetShell.Toml.Text
import AssetShell.Toml.Word
import AssetShell.Settings.Written
import AssetShell.Toml.Node
import AssetShell.Toml.Statement
import AssetShell.Ini
import AssetShell.Settings.Datum
import AssetShell.Settings.Path
import AssetShell.Settings.Merge
import AssetShell.Settings.Variables
import AssetShell.Json5
import AssetShell.Ron
import AssetShell.Text.Scan
import AssetShell.Yaml.Scalar
import AssetShell.Yaml.Line
import AssetShell.Yaml.Text
import AssetShell.Yaml.Lines
import AssetShell.Yaml.Cursor
import AssetShell.Yaml.Group
import AssetShell.Yaml.Block
import AssetShell.Yaml.Document
import AssetShell.Settings.Format
import AssetShell.Settings.Convert
import AssetShell.Settings.Load
import AssetShell.CommandLine.Argument
import AssetShell.CommandLine.Command
import AssetShell.CommandLine.Run
import AssetShell.Main
import AssetShell.Proofs.Reference.FirstFault
import AssetShell.Proofs.Literal.IntegerLiteral
import AssetShell.Proofs.Model.FirstViolation
import AssetShell.Proofs.Literal.TemporalGrammar
import AssetShell.Proofs.Literal.Agreement
import AssetShell.Proofs.Json.Canonical
import AssetShell.Proofs.Interchange.Codec
import AssetShell.Proofs.Interchange.Format
import AssetShell.Proofs.Interchange.FormatCodec
import AssetShell.Proofs.Interchange.ReferenceCodec
import AssetShell.Proofs.Model.References
import AssetShell.Proofs.Interchange.AttributeCodecs
import AssetShell.Proofs.Interchange.TaggedCodec
import AssetShell.Proofs.Interchange.ElementCodecs
import AssetShell.Proofs.Interchange.IdentifiableCodecs
import AssetShell.Proofs.Interchange.EntityRoundTrip
import AssetShell.Proofs.Interchange.ReferenceOrigins
import AssetShell.Proofs.Json.Path
import AssetShell.Proofs.Interchange.TypedExport
import AssetShell.Proofs.Json.PrintedTokens
import AssetShell.Proofs.Json.PrintedText
import AssetShell.Proofs.Interchange.DocumentRoundTrip
import AssetShell.Proofs.Model.ListPush
import AssetShell.Proofs.Literal.CalendarText
import AssetShell.Proofs.Literal.CanonicalTime
import AssetShell.Proofs.Json.OutlineValue
import AssetShell.Proofs.Interchange.Pattern
import AssetShell.Proofs.Interchange.Simulation
import AssetShell.Proofs.Interchange.Fits
import AssetShell.Proofs.Interchange.TaggedFits
import AssetShell.Proofs.Interchange.EntityFits
import AssetShell.Proofs.Interchange.CanonicalSimulation
import AssetShell.Proofs.Interchange.BatchAgreement
import AssetShell.Proofs.Interchange.Change
import AssetShell.Proofs.Interchange.Edit
import AssetShell.Proofs.Interchange.Respelling
import AssetShell.Proofs.Named
import AssetShell.Proofs.Files.Walk
import AssetShell.Proofs.Text.Span
import AssetShell.Proofs.Files.Chosen
import AssetShell.Proofs.Files.Reports
import AssetShell.Proofs.Settings.Setting
import AssetShell.Proofs.Settings.Merge
import AssetShell.Proofs.Settings.Source
import AssetShell.Proofs.Settings.Precedence
import AssetShell.Proofs.Text.Split
import AssetShell.Proofs.Settings.Scalar
import AssetShell.Proofs.Settings.ListVariables
import AssetShell.Proofs.Toml.PrintedString
import AssetShell.Proofs.Toml.PrintedText
import AssetShell.Proofs.Settings.Saved
import AssetShell.Proofs.Number.CanonicalInteger
import AssetShell.Proofs.Literal.TypedInteger
import AssetShell.Proofs.Literal.DecimalLiteral
import AssetShell.Proofs.CommandLine.Verdict
import AssetShell.Proofs.Interchange.TextDecoding
import AssetShell.Proofs.CommandLine.KeyArguments
import AssetShell.Proofs.CommandLine.ReferenceCommand
import AssetShell.Proofs.Literal.ClockArithmetic
import AssetShell.Proofs.Literal.DateLiteral
import AssetShell.Proofs.Literal.TimeLiteral
import AssetShell.Proofs.Literal.DateTimeLiteral
import AssetShell.Proofs.Literal.UriLiteral
import AssetShell.Proofs.Outcome
import AssetShell.Proofs.Text.ByteOrder
import AssetShell.Proofs.Literal.Base64Literal
import AssetShell.Proofs.Files.FirstFailure
import AssetShell.Proofs.Files.PathOrder
import AssetShell.Proofs.Json.InnerTokens
import AssetShell.Proofs.Json.ArrayText
import AssetShell.Proofs.Interchange.ArrayDocument
import AssetShell.Proofs.Reference.ChainExtension
import AssetShell.Proofs.Text.Trimmed
import AssetShell.Proofs.Reference.KeyText
import AssetShell.Proofs.Model.RequiredLiterals
import AssetShell.Proofs.Interchange.ReferenceWire
