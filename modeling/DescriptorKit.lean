import DescriptorKit.Annotation
import DescriptorKit.Build.Image
import DescriptorKit.Build.Link
import DescriptorKit.Build.Origins
import DescriptorKit.Build.Supply
import DescriptorKit.Bundled.Descriptor
import DescriptorKit.Bundled.Files
import DescriptorKit.Bundled.Shorthand
import DescriptorKit.Bytes
import DescriptorKit.Commit
import DescriptorKit.Declaration.Basic
import DescriptorKit.Declaration.OfMessage
import DescriptorKit.Declaration.ToMessage
import DescriptorKit.Declaration.Written
import DescriptorKit.Descriptor
import DescriptorKit.Descriptor.Modify
import DescriptorKit.Error
import DescriptorKit.Image.Basic
import DescriptorKit.Image.Decode
import DescriptorKit.Image.File
import DescriptorKit.Image.Merge
import DescriptorKit.Image.Narrow
import DescriptorKit.Image.Request
import DescriptorKit.Image.Storage
import DescriptorKit.Language.Comment
import DescriptorKit.Language.Constant
import DescriptorKit.Language.Fault
import DescriptorKit.Language.Lexer
import DescriptorKit.Language.Parser.Basic
import DescriptorKit.Language.Parser.Enum
import DescriptorKit.Language.Parser.Field
import DescriptorKit.Language.Parser.File
import DescriptorKit.Language.Parser.Message
import DescriptorKit.Language.Parser.Options
import DescriptorKit.Language.Parser.Range
import DescriptorKit.Language.Parser.Service
import DescriptorKit.Language.Span
import DescriptorKit.Managed.Config
import DescriptorKit.Managed.Modify
import DescriptorKit.Managed.Option
import DescriptorKit.Managed.Value
import DescriptorKit.Managed.Version
import DescriptorKit.Message.Basic
import DescriptorKit.Message.Decode
import DescriptorKit.Message.Encode
import DescriptorKit.ModuleName
import DescriptorKit.Path
import DescriptorKit.Pool.Basic
import DescriptorKit.Pool.Fault
import DescriptorKit.Pool.Names
import DescriptorKit.Pool.Options
import DescriptorKit.Pool.Resolve
import DescriptorKit.Proofs.Build.Ahead
import DescriptorKit.Proofs.Build.Labels
import DescriptorKit.Proofs.Build.Linked
import DescriptorKit.Proofs.Build.Missing
import DescriptorKit.Proofs.Build.Origins
import DescriptorKit.Proofs.Build.Provenance
import DescriptorKit.Proofs.Build.Stages
import DescriptorKit.Proofs.Build.Supplied
import DescriptorKit.Proofs.Build.Supply
import DescriptorKit.Proofs.Bundled
import DescriptorKit.Proofs.Bundled.Types
import DescriptorKit.Proofs.Descriptor
import DescriptorKit.Proofs.Descriptor.Current
import DescriptorKit.Proofs.Descriptor.Drafted
import DescriptorKit.Proofs.Descriptor.Faithful
import DescriptorKit.Proofs.Descriptor.Follow
import DescriptorKit.Proofs.Descriptor.Honest
import DescriptorKit.Proofs.Descriptor.JsType
import DescriptorKit.Proofs.Descriptor.Locations
import DescriptorKit.Proofs.Descriptor.Mirrored
import DescriptorKit.Proofs.Descriptor.Modify
import DescriptorKit.Proofs.Descriptor.Reached
import DescriptorKit.Proofs.Descriptor.Settable
import DescriptorKit.Proofs.Descriptor.Split
import DescriptorKit.Proofs.Descriptor.Stable
import DescriptorKit.Proofs.Descriptor.Unmarked
import DescriptorKit.Proofs.Except
import DescriptorKit.Proofs.Image.Amenable
import DescriptorKit.Proofs.Image.Arranged
import DescriptorKit.Proofs.Image.Batch
import DescriptorKit.Proofs.Image.Files
import DescriptorKit.Proofs.Image.Formed
import DescriptorKit.Proofs.Image.Narrow
import DescriptorKit.Proofs.Image.Narrowed
import DescriptorKit.Proofs.Image.Order
import DescriptorKit.Proofs.Image.Origin
import DescriptorKit.Proofs.Image.PlainSet
import DescriptorKit.Proofs.Image.Recount
import DescriptorKit.Proofs.Image.Recovered
import DescriptorKit.Proofs.Image.RequestTrip
import DescriptorKit.Proofs.Image.Requested
import DescriptorKit.Proofs.Image.Requests
import DescriptorKit.Proofs.Image.Run
import DescriptorKit.Proofs.Image.SplitMerge
import DescriptorKit.Proofs.Image.Stored
import DescriptorKit.Proofs.Image.Union
import DescriptorKit.Proofs.Image.Unmarked
import DescriptorKit.Proofs.Image.Views
import DescriptorKit.Proofs.Language.Named
import DescriptorKit.Proofs.Managed.Commute
import DescriptorKit.Proofs.Managed.Decided
import DescriptorKit.Proofs.Managed.File
import DescriptorKit.Proofs.Managed.Frame
import DescriptorKit.Proofs.Managed.Idempotent
import DescriptorKit.Proofs.Managed.Image
import DescriptorKit.Proofs.Managed.JsTypes
import DescriptorKit.Proofs.Managed.Left
import DescriptorKit.Proofs.Managed.Options
import DescriptorKit.Proofs.Managed.Precedence
import DescriptorKit.Proofs.Managed.Report
import DescriptorKit.Proofs.Managed.Retype
import DescriptorKit.Proofs.Managed.Run
import DescriptorKit.Proofs.Managed.Sites
import DescriptorKit.Proofs.Managed.Succeeds
import DescriptorKit.Proofs.Managed.Sweep
import DescriptorKit.Proofs.Managed.Version
import DescriptorKit.Proofs.Managed.Walk
import DescriptorKit.Proofs.Managed.WellTyped
import DescriptorKit.Proofs.Message.Again
import DescriptorKit.Proofs.Message.Change
import DescriptorKit.Proofs.Message.Cut
import DescriptorKit.Proofs.Message.Deeper
import DescriptorKit.Proofs.Message.Differs
import DescriptorKit.Proofs.Message.Drop
import DescriptorKit.Proofs.Message.Element
import DescriptorKit.Proofs.Message.Held
import DescriptorKit.Proofs.Message.Lacks
import DescriptorKit.Proofs.Message.Nested
import DescriptorKit.Proofs.Message.Nests
import DescriptorKit.Proofs.Message.Numbers
import DescriptorKit.Proofs.Message.Only
import DescriptorKit.Proofs.Message.Option
import DescriptorKit.Proofs.Message.Parsed
import DescriptorKit.Proofs.Message.Read
import DescriptorKit.Proofs.Message.Readable
import DescriptorKit.Proofs.Message.Records
import DescriptorKit.Proofs.Message.Required
import DescriptorKit.Proofs.Message.Returned
import DescriptorKit.Proofs.Message.Rewritten
import DescriptorKit.Proofs.Message.Shaped
import DescriptorKit.Proofs.Message.Slots
import DescriptorKit.Proofs.Message.Slotwise
import DescriptorKit.Proofs.Message.Stable
import DescriptorKit.Proofs.Message.Written
import DescriptorKit.Proofs.Mirror
import DescriptorKit.Proofs.Path
import DescriptorKit.Proofs.Path.Containment
import DescriptorKit.Proofs.Path.Normal
import DescriptorKit.Proofs.Pool
import DescriptorKit.Proofs.Pool.Names
import DescriptorKit.Proofs.Pool.Order
import DescriptorKit.Proofs.Pool.Reading
import DescriptorKit.Proofs.Pool.Types
import DescriptorKit.Proofs.Pool.Views
import DescriptorKit.Proofs.Reparse
import DescriptorKit.Proofs.Reparse.Incomplete
import DescriptorKit.Proofs.Scalar
import DescriptorKit.Proofs.Schema
import DescriptorKit.Proofs.Schema.Agree
import DescriptorKit.Proofs.Source.Dialect
import DescriptorKit.Proofs.Text.Encoding
import DescriptorKit.Proofs.Text.Span
import DescriptorKit.Proofs.Unused
import DescriptorKit.Proofs.Unused.Exact
import DescriptorKit.Proofs.Wire.Digits
import DescriptorKit.Proofs.Wire.Machine
import DescriptorKit.Proofs.Wire.Payload
import DescriptorKit.Proofs.Wire.Pieces
import DescriptorKit.Proofs.Wire.Reader
import DescriptorKit.Proofs.Wire.Repeat
import DescriptorKit.Reach
import DescriptorKit.Reparse
import DescriptorKit.Schema.Basic
import DescriptorKit.Schema.OfDeclaration
import DescriptorKit.Schema.Scalar
import DescriptorKit.Source.Bucket
import DescriptorKit.Source.Dialect
import DescriptorKit.Source.Disk
import DescriptorKit.Text.Decimal
import DescriptorKit.Text.Format
import DescriptorKit.Text.Format.Message
import DescriptorKit.Text.Format.Node
import DescriptorKit.Text.Format.Token
import DescriptorKit.Text.Literal
import DescriptorKit.Text.Lossy
import DescriptorKit.Text.Numeral
import DescriptorKit.Text.Property.Alphanumeric
import DescriptorKit.Text.Property.LetterCase
import DescriptorKit.Text.Property.Printable
import DescriptorKit.Text.Property.Range
import DescriptorKit.Text.Split
import DescriptorKit.Text.Words
import DescriptorKit.Unused
import DescriptorKit.Wire.Cursor
import DescriptorKit.Wire.Fault
import DescriptorKit.Wire.Payload
import DescriptorKit.Wire.Records
