import EndpointDocs.Main
import EndpointDocs.Proofs.KeyMap
import EndpointDocs.Proofs.ReadTypes
import EndpointDocs.Proofs.ReadItems
import EndpointDocs.Proofs.Variant
import EndpointDocs.Proofs.TypeHeight
import EndpointDocs.Proofs.Registry.Component
import EndpointDocs.Proofs.Registry.Register
import EndpointDocs.Proofs.Registry.Calls
import EndpointDocs.Proofs.Registry.Depth
import EndpointDocs.Proofs.Registry.Answers
import EndpointDocs.Proofs.Registry.Reference
import EndpointDocs.Proofs.Registry.Leading
import EndpointDocs.Proofs.Registry.Ahead
import EndpointDocs.Proofs.Registry.Growth
import EndpointDocs.Proofs.Registry.Termination
import EndpointDocs.Proofs.Registry.Effects
import EndpointDocs.Proofs.Registry.Asking
import EndpointDocs.Proofs.Registry.Uses
import EndpointDocs.Proofs.Registry.Instances
import EndpointDocs.Proofs.Schema.References
import EndpointDocs.Proofs.Schema.Dependencies
import EndpointDocs.Proofs.Schema.Shapes
import EndpointDocs.Proofs.Schema.Widening
import EndpointDocs.Proofs.Schema.Unions
import EndpointDocs.Proofs.Comparison
import EndpointDocs.Proofs.Operation.References
import EndpointDocs.Proofs.Operation.Filling
import EndpointDocs.Proofs.Operation.WellFormed
import EndpointDocs.Proofs.Operation.Layering
import EndpointDocs.Proofs.Operation.Uses
import EndpointDocs.Proofs.Tags.Reading
import EndpointDocs.Proofs.Tags.Agreement
import EndpointDocs.Proofs.Tags.Effects
import EndpointDocs.Proofs.Tags.Uses
import EndpointDocs.Proofs.Tags.Unions
import EndpointDocs.Proofs.Generation.Building
import EndpointDocs.Proofs.Generation.Units
import EndpointDocs.Proofs.Generation.Finishing
import EndpointDocs.Proofs.Generation.References
import EndpointDocs.Proofs.Generation.Rejection
import EndpointDocs.Proofs.Generation.Correspondence
import EndpointDocs.Proofs.Generation.Unfinished
import EndpointDocs.Proofs.Generation.Independence
import EndpointDocs.Proofs.Generation.Order
import EndpointDocs.Proofs.Generation.Configuration
import EndpointDocs.Proofs.Generation.Asking
import EndpointDocs.Proofs.Generation.WellFormed
import EndpointDocs.Proofs.Generation.Uses
import EndpointDocs.Proofs.FileTree
import EndpointDocs.Proofs.FileSystem.Writing
import EndpointDocs.Proofs.FileSystem.Flat
import EndpointDocs.Proofs.CommandLine.Outputs
import EndpointDocs.Proofs.Source.Lexing
import EndpointDocs.Proofs.Source.WrittenTypes
import EndpointDocs.Proofs.Text.Percent
import EndpointDocs.Proofs.Url.Reading
import EndpointDocs.Proofs.EndpointPath
import EndpointDocs.Proofs.Generation.Faults
import EndpointDocs.Proofs.Json.Sorting
import EndpointDocs.Proofs.Schema.Fields
import EndpointDocs.Proofs.Schema.RoundTrip
import EndpointDocs.Proofs.RootedPath
import EndpointDocs.Proofs.Servers
import EndpointDocs.Proofs.Tags.Examples
import EndpointDocs.Proofs.Element.RoundTrip
import EndpointDocs.Proofs.Element.DocumentOrder
import EndpointDocs.Proofs.OperationId
import EndpointDocs.Proofs.Generation.Info
import EndpointDocs.Proofs.Registry.Worklist
import EndpointDocs.Proofs.Source.Declarations
import EndpointDocs.Proofs.SourceFiles
import EndpointDocs.Proofs.Source.Settings
