import ClientForge.Json.Lookup
import ClientForge.Main
import ClientForge.Schema.Steps
import ClientForge.Proofs.Outcome
import ClientForge.Proofs.Schema.Merge
import ClientForge.Proofs.Schema.Resolution
import ClientForge.Proofs.Schema.Refinement
import ClientForge.Proofs.Schema.Associativity
import ClientForge.Proofs.Schema.Linearisation
import ClientForge.Proofs.Schema.Expansion
import ClientForge.Proofs.Schema.Termination
import ClientForge.Proofs.Inference.Plan
import ClientForge.Proofs.Inference.Fuel
import ClientForge.Proofs.Inference.Calls
import ClientForge.Proofs.Inference.Extension
import ClientForge.Proofs.Inference.Void
import ClientForge.Proofs.Inference.Inheritance
import ClientForge.Proofs.Inference.Termination
import ClientForge.Proofs.Inference.Emission
import ClientForge.Proofs.Inference.Closed
import ClientForge.Proofs.Inference.Requirement
import ClientForge.Proofs.Inference.Reachability
import ClientForge.Proofs.Inference.Lineage
import ClientForge.Proofs.Inference.Initializer
import ClientForge.Proofs.Inference.Independence
import ClientForge.Proofs.Inference.Circularity
import ClientForge.Proofs.Inference.InPlace
import ClientForge.Proofs.Model.Equality
import ClientForge.Proofs.Json.Omission
import ClientForge.Proofs.Api.Distinct
import ClientForge.Proofs.Api.Representatives
import ClientForge.Proofs.Api.Starts
import ClientForge.Proofs.Api.Superclasses
import ClientForge.Proofs.Api.Namesakes
import ClientForge.Proofs.Audit.Findings
import ClientForge.Proofs.Inference.Formats
import ClientForge.Proofs.Document.Pointers
import ClientForge.Proofs.Api.Correspondence
import ClientForge.Proofs.Api.Descriptions
import ClientForge.Proofs.Api.Referenced
import ClientForge.Proofs.Api.Documentation
import ClientForge.Proofs.Target.Neutrality
import ClientForge.Proofs.Api.Order
import ClientForge.Proofs.Name.Empty
import ClientForge.Proofs.Name.Dots
import ClientForge.Proofs.Api.Operations
import ClientForge.Proofs.Api.Classes
import ClientForge.Proofs.Api.Scopes
import ClientForge.Proofs.Emit.NestedTypes
import ClientForge.Proofs.Emit.Files
import ClientForge.Proofs.File.Frame
import ClientForge.Proofs.Command.Run
import ClientForge.Proofs.Name.Spelling
import ClientForge.Proofs.Name.Humps
import ClientForge.Proofs.Inference.Cases
import ClientForge.Proofs.Document.Paths
import ClientForge.Proofs.Api.Subclasses
import ClientForge.Proofs.Url
import ClientForge.Proofs.Name.Matches
import ClientForge.Proofs.Name.Composition
import ClientForge.Proofs.Emit.Places
import ClientForge.Proofs.Emit.Literals
import ClientForge.Proofs.Emit.WireNames
import ClientForge.Proofs.Emit.Comments
import ClientForge.Proofs.Emit.Descriptions
import ClientForge.Proofs.Emit.ClientComments
