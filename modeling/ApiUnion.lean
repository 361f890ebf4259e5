import ApiUnion.Access
import ApiUnion.Alternatives
import ApiUnion.Annotations
import ApiUnion.Archive.Bytes
import ApiUnion.Archive.Checksum
import ApiUnion.Archive.Directory
import ApiUnion.Archive.Entry
import ApiUnion.Archive.Extra
import ApiUnion.Archive.Name
import ApiUnion.Catalog.Availability
import ApiUnion.Catalog.Basic
import ApiUnion.Catalog.Sharded
import ApiUnion.ClassFile.Attribute
import ApiUnion.ClassFile.Basic
import ApiUnion.ClassFile.Binary
import ApiUnion.ClassFile.Bytes
import ApiUnion.ClassFile.ElementBytes
import ApiUnion.ClassFile.Error
import ApiUnion.ClassFile.Pool
import ApiUnion.ClassFile.PoolBuilder
import ApiUnion.CommandLine.Basic
import ApiUnion.CommandLine.Help
import ApiUnion.CommandLine.Parser
import ApiUnion.Descriptor
import ApiUnion.LogFilter.Basic
import ApiUnion.LogFilter.Directive
import ApiUnion.LogFilter.Field
import ApiUnion.LogFilter.Level
import ApiUnion.LogFilter.Pattern.Basic
import ApiUnion.LogFilter.Pattern.Set
import ApiUnion.LogFilter.Pattern.Validity
import ApiUnion.Main
import ApiUnion.Merge.Annotations
import ApiUnion.Merge.Classes
import ApiUnion.Merge.Conflict
import ApiUnion.Merge.Facets
import ApiUnion.Merge.Logged
import ApiUnion.Merge.Members
import ApiUnion.Merge.Payload
import ApiUnion.Merge.Signatures
import ApiUnion.Merge.Tally
import ApiUnion.Model.Basic
import ApiUnion.Model.Emission
import ApiUnion.Model.Listing
import ApiUnion.Model.Marks
import ApiUnion.Model.Snapshot
import ApiUnion.Run.Basic
import ApiUnion.Run.Discovery
import ApiUnion.Run.Disk
import ApiUnion.Run.Reading
import ApiUnion.Run.RootSpec
import ApiUnion.Run.Summary
import ApiUnion.Settings
import ApiUnion.Signature.Basic
import ApiUnion.Signature.ClassNames
import ApiUnion.Signature.Join
import ApiUnion.Signature.Parser
import ApiUnion.Signature.Printer
import ApiUnion.Signature.Variables
import ApiUnion.Splitting.Groups
import ApiUnion.Splitting.Renaming
import ApiUnion.Splitting.Splitter
import ApiUnion.Table
import ApiUnion.Text.Alphanumeric
import ApiUnion.Text.Blank
import ApiUnion.Text.Decimal
import ApiUnion.Text.Json
import ApiUnion.Text.ModifiedUtf8
import ApiUnion.Text.Printable
import ApiUnion.Text.Quoted
import ApiUnion.Text.ShortestDecimal
import ApiUnion.Text.Utf8
import ApiUnion.Toml.Document
import ApiUnion.Toml.Scalar
import ApiUnion.Toml.Value
import ApiUnion.Version
import ApiUnion.Proofs.ClassFile.Bytes
import ApiUnion.Proofs.Text.ModifiedUtf8
import ApiUnion.Proofs.ClassFile.Interning
import ApiUnion.Proofs.ClassFile.AsRead
import ApiUnion.Proofs.ClassFile.ElementBytes
import ApiUnion.Proofs.ClassFile.Attribute
import ApiUnion.Proofs.ClassFile.Members
import ApiUnion.Proofs.ClassFile.RoundTrip
import ApiUnion.Proofs.Catalog.Acceptance
import ApiUnion.Proofs.Version
import ApiUnion.Proofs.Merge.Members
import ApiUnion.Proofs.Catalog.Provenance
import ApiUnion.Proofs.Access
import ApiUnion.Proofs.Alternatives
import ApiUnion.Proofs.Merge.Facets
import ApiUnion.Proofs.Catalog.Alternation
import ApiUnion.Proofs.Splitting.Noting
import ApiUnion.Proofs.Splitting.Dividing
import ApiUnion.Proofs.Splitting.Settling
import ApiUnion.Proofs.Splitting.Symmetry
import ApiUnion.Proofs.Signature.Loosening
import ApiUnion.Proofs.Signature.Parsing
import ApiUnion.Proofs.Signature.Legible
import ApiUnion.Proofs.Signature.Reading
import ApiUnion.Proofs.Signature.Variables
import ApiUnion.Proofs.Signature.Joining
import ApiUnion.Proofs.Signature.Binding
import ApiUnion.Proofs.Merge.Signatures
import ApiUnion.Proofs.Signature.Shape
import ApiUnion.Proofs.Merge.Fitting
import ApiUnion.Proofs.Signature.ClassNames
import ApiUnion.Proofs.Catalog.Admission
import ApiUnion.Proofs.Splitting.Partition
import ApiUnion.Proofs.Splitting.Likeness
import ApiUnion.Proofs.Splitting.Rejoining
import ApiUnion.Proofs.Merge.Tally
import ApiUnion.Proofs.Catalog.Sharding
import ApiUnion.Proofs.ClassFile.Normal
import ApiUnion.Proofs.Model.Slots
import ApiUnion.Proofs.Model.Snapshot
import ApiUnion.Proofs.Model.Marks
import ApiUnion.Proofs.Model.Rereading
import ApiUnion.Proofs.Catalog.Emittable
import ApiUnion.Proofs.Literals
import ApiUnion.Proofs.Catalog.Emitted
import ApiUnion.Proofs.Catalog.Answers
import ApiUnion.Proofs.Catalog.Agreement
import ApiUnion.Proofs.Catalog.Tidying
import ApiUnion.Proofs.Merge.Repeating
import ApiUnion.Proofs.Catalog.Unchanged
import ApiUnion.Proofs.Merge.Gathering
import ApiUnion.Proofs.Catalog.Gathering
import ApiUnion.Proofs.Catalog.Arrival
import ApiUnion.Proofs.Merge.Refusing
import ApiUnion.Proofs.Catalog.Replaying
import ApiUnion.Proofs.Merge.Refusals
import ApiUnion.Proofs.Merge.Mismatch
import ApiUnion.Proofs.Catalog.Effects
import ApiUnion.Proofs.Merge.Balance
import ApiUnion.Proofs.Catalog.Accounting
import ApiUnion.Proofs.Model.Erasure
import ApiUnion.Proofs.Merge.Supertypes
import ApiUnion.Proofs.Catalog.Supertypes
import ApiUnion.Proofs.Signature.Nesting
import ApiUnion.Proofs.Splitting.Erasure
import ApiUnion.Proofs.Descriptor
import ApiUnion.Proofs.Signature.Unrenamed
import ApiUnion.Proofs.Splitting.Computed
import ApiUnion.Proofs.Splitting.Unsplit
import ApiUnion.Proofs.Run.Grouping
import ApiUnion.Proofs.Splitting.Members
import ApiUnion.Proofs.Splitting.Freshness
import ApiUnion.Proofs.Splitting.FirstFit
import ApiUnion.Proofs.Signature.MethodShape
import ApiUnion.Proofs.Merge.Separation
import ApiUnion.Proofs.Catalog.Separation
import ApiUnion.Proofs.ClassFile.Capacity
import ApiUnion.Proofs.ClassFile.Delimiting
import ApiUnion.Proofs.Merge.Offering
import ApiUnion.Proofs.Model.Duplicates
import ApiUnion.Proofs.Catalog.Mangling
import ApiUnion.Proofs.Model.Parameters
import ApiUnion.Proofs.Catalog.Origins
import ApiUnion.Proofs.Catalog.Ordering
import ApiUnion.Proofs.Annotations
import ApiUnion.Proofs.Merge.Annotations
import ApiUnion.Proofs.ClassFile.Limits
import ApiUnion.Proofs.ClassFile.Requests
import ApiUnion.Proofs.ClassFile.Numbering
import ApiUnion.Proofs.ClassFile.Resolving
import ApiUnion.Proofs.Run.Roots
import ApiUnion.Proofs.Catalog.Filing
