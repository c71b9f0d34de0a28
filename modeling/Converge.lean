import Converge.Arguments
import Converge.Bindings
import Converge.CommandLine
import Converge.CommandLine.Option
import Converge.CommandLine.Word
import Converge.Config
import Converge.Config.Reader
import Converge.Config.Source
import Converge.Context
import Converge.Destinations
import Converge.Document.Basic
import Converge.Document.MergePatch
import Converge.Duration
import Converge.Failure
import Converge.Files
import Converge.Handle
import Converge.Handle.Kinds
import Converge.Handle.Shape
import Converge.Http.Address
import Converge.Http.Host
import Converge.Http.Message
import Converge.Http.Path
import Converge.Http.Percent
import Converge.Http.Store
import Converge.Http.Url
import Converge.Identity
import Converge.Json.Reader
import Converge.Json.Token
import Converge.Json.Writer
import Converge.Main
import Converge.Number
import Converge.Number.Binary64
import Converge.Number.Shortest
import Converge.Operation
import Converge.Orchestrator
import Converge.Plan
import Converge.Program
import Converge.Proofs.Arguments.Acceptance
import Converge.Proofs.Arguments.Order
import Converge.Proofs.Arguments.Timing
import Converge.Proofs.Bindings
import Converge.Proofs.Config.Kept
import Converge.Proofs.Config.Rereading
import Converge.Proofs.Context.Cancellation
import Converge.Proofs.Context.Descent
import Converge.Proofs.Document.Members
import Converge.Proofs.Document.Patching
import Converge.Proofs.Document.Path
import Converge.Proofs.Duration.Display
import Converge.Proofs.Duration.Literal
import Converge.Proofs.Duration.Scanning
import Converge.Proofs.Duration.Written
import Converge.Proofs.Except
import Converge.Proofs.Handle.Mismatch
import Converge.Proofs.Http.Addressing
import Converge.Proofs.Http.Distinct
import Converge.Proofs.Http.Joining
import Converge.Proofs.Http.Listing
import Converge.Proofs.Http.Percent
import Converge.Proofs.Identity
import Converge.Proofs.Identity.Written
import Converge.Proofs.Operation.Alone
import Converge.Proofs.Operation.Answers
import Converge.Proofs.Operation.Confirmation
import Converge.Proofs.Operation.Delivery
import Converge.Proofs.Operation.Editing
import Converge.Proofs.Operation.FailFast
import Converge.Proofs.Operation.HandleTypes
import Converge.Proofs.Operation.Handles
import Converge.Proofs.Operation.Immediate
import Converge.Proofs.Operation.PartialDelivery
import Converge.Proofs.Operation.Phases
import Converge.Proofs.Operation.Preparation
import Converge.Proofs.Operation.Results
import Converge.Proofs.Operation.Validation
import Converge.Proofs.Operation.Versions
import Converge.Proofs.Operation.Waiting
import Converge.Proofs.Pairing
import Converge.Proofs.Selector
import Converge.Proofs.Store.Calls
import Converge.Proofs.Store.History
import Converge.Proofs.Store.Lagging
import Converge.Proofs.Store.Lifetime
import Converge.Proofs.Store.Listing
import Converge.Proofs.Store.Patching
import Converge.Proofs.Store.Retrying
import Converge.Proofs.Store.Run
import Converge.Proofs.Store.Sound
import Converge.Proofs.Store.Stamp
import Converge.Proofs.Store.Transcript
import Converge.Proofs.Table
import Converge.Proofs.Template.Confinement
import Converge.Proofs.Template.Embedding
import Converge.Proofs.Template.Filling
import Converge.Proofs.Template.Flaws
import Converge.Proofs.Template.Lookup
import Converge.Proofs.Template.Numbering
import Converge.Proofs.Template.Offsets
import Converge.Proofs.Template.Reading
import Converge.Proofs.Template.Rejoining
import Converge.Proofs.Template.Rendering
import Converge.Proofs.Template.Segmentation
import Converge.Proofs.Template.Structure
import Converge.Proofs.Template.Whole
import Converge.Proofs.Text.Flush
import Converge.Proofs.Text.Lines
import Converge.Proofs.Text.Margin
import Converge.Proofs.Text.Numeral
import Converge.Proofs.Text.Occurrence
import Converge.Proofs.Text.Pattern
import Converge.Proofs.Text.Preview
import Converge.Proofs.Text.Slices
import Converge.Proofs.Text.Splitting
import Converge.Proofs.Text.Trimming
import Converge.Proofs.Version
import Converge.Proofs.Wait.Budget
import Converge.Proofs.Wait.Decision
import Converge.Proofs.Wait.Round
import Converge.Proofs.Wait.Seen
import Converge.Proofs.Yaml.Entries
import Converge.Proofs.Yaml.Ordered
import Converge.Proofs.Yaml.Words
import Converge.Selector
import Converge.Session
import Converge.Store.Basic
import Converge.Store.Memory
import Converge.Store.Scripted
import Converge.Table
import Converge.Template
import Converge.Template.Expression
import Converge.Template.Segments
import Converge.Text.Block
import Converge.Text.Chars
import Converge.Text.Preview
import Converge.Timestamp
import Converge.Version
import Converge.Wait
import Converge.Wire
import Converge.Yaml.Error
import Converge.Yaml.Node
import Converge.Yaml.Node.Grammar
import Converge.Yaml.Reader
import Converge.Yaml.Scalar
import Converge.Yaml.Token
import Converge.Yaml.Token.Block
import Converge.Yaml.Token.Fold
import Converge.Yaml.Token.Property
import Converge.Yaml.Token.Stream
import Converge.Yaml.Writer
import Converge.Yaml.Writer.Scalar
