import BuildPlan.Axes.Json
import BuildPlan.Main
import BuildPlan.Manifest.Json
import BuildPlan.Proofs.Catalog
import BuildPlan.Proofs.Reach
import BuildPlan.Proofs.Reach.DepthFirst
import BuildPlan.Proofs.Reach.Search
import BuildPlan.Proofs.Graph.Edges
import BuildPlan.Proofs.Graph.Order
import BuildPlan.Proofs.Graph.Listing
import BuildPlan.Proofs.Graph.Waves
import BuildPlan.Proofs.Graph.Counting
import BuildPlan.Proofs.Graph.Depth
import BuildPlan.Proofs.Graph.Cycle
import BuildPlan.Proofs.Graph.Reachability
import BuildPlan.Proofs.Except
import BuildPlan.Proofs.Resolution.Local
import BuildPlan.Proofs.Resolution.Discovery
import BuildPlan.Proofs.Resolution.Assembly
import BuildPlan.Proofs.Resolution.Schedule
import BuildPlan.Proofs.Resolution.Outcome
import BuildPlan.Proofs.Resolution.Visibility
import BuildPlan.Proofs.Resolution.Order
import BuildPlan.Proofs.Plan
import BuildPlan.Proofs.Resolution.Independence
import BuildPlan.Proofs.Store
import BuildPlan.Proofs.Resolution.Publication
import BuildPlan.Proofs.Axes
import BuildPlan.Proofs.Axes.Expansion
import BuildPlan.Proofs.Token
import BuildPlan.Proofs.Token.Segmentation
import BuildPlan.Proofs.Plan.Isolation
import BuildPlan.Proofs.Plan.Interleaving
import BuildPlan.Proofs.Resolution.Conflicts
import BuildPlan.Proofs.Resolution.Dependencies
import BuildPlan.Proofs.Resolution.Reference
import BuildPlan.Proofs.Resolution.Inheritance
import BuildPlan.Proofs.Resolution.Privacy
import BuildPlan.Proofs.Resolution.Extension
import BuildPlan.Proofs.Plan.Coverage
import BuildPlan.Proofs.Plan.Failures
import BuildPlan.Proofs.Plan.Attribution
import BuildPlan.Proofs.Emission
import BuildPlan.Proofs.Command
import BuildPlan.Proofs.Plan.Selection
import BuildPlan.Proofs.Command.Selection
import BuildPlan.Proofs.Text.Digits
import BuildPlan.Proofs.Text.Path
import BuildPlan.Proofs.FileTree
import BuildPlan.Proofs.FileTree.Walk
import BuildPlan.Proofs.Manifest
import BuildPlan.Proofs.Loading.Steps
import BuildPlan.Proofs.Loading
import BuildPlan.Proofs.Json.Reader
import BuildPlan.Proofs.Json.Printer
import BuildPlan.Proofs.Json.Record
import BuildPlan.Proofs.Target.Json
import BuildPlan.Proofs.Target.Key
import BuildPlan.Proofs.Descriptor.Json
import BuildPlan.Proofs.Emission.Document
import BuildPlan.Proofs.Emission.Stream
import BuildPlan.Proofs.Catalog.Erase
import BuildPlan.Proofs.Rule.Registry
import BuildPlan.Proofs.Rule.Cycle
import BuildPlan.Proofs.Workspace.Steps
import BuildPlan.Proofs.Workspace.Replacement
import BuildPlan.Proofs.Workspace.Registration
import BuildPlan.Proofs.Resolution.ConflictReport
import BuildPlan.Proofs.Workspace.Refusal
import BuildPlan.Proofs.Emission.Check
import BuildPlan.Proofs.Emission.Fingerprint
import BuildPlan.Proofs.Settings.User
import BuildPlan.Proofs.Axes.Agreement
import BuildPlan.Proofs.Define
import BuildPlan.Proofs.Manifest.Validation
import BuildPlan.Proofs.Manifest.Registration
import BuildPlan.Proofs.Resolution.Symbols
import BuildPlan.Proofs.Emission.Dot
import BuildPlan.Proofs.Resolution.Policies
