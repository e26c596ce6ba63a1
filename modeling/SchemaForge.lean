import SchemaForge.Building
import SchemaForge.CommandLine
import SchemaForge.Configuration.Schema
import SchemaForge.Generation
import SchemaForge.Graph.Arrays
import SchemaForge.Main
import SchemaForge.Proofs.Building.Steps
import SchemaForge.Run
import SchemaForge.Snapshot
import SchemaForge.Yaml.Reader
import SchemaForge.Proofs.Building.Reference
import SchemaForge.Proofs.Building.Calls
import SchemaForge.Proofs.Building.Shows
import SchemaForge.Proofs.Path
import SchemaForge.Proofs.Canonical.Fields
import SchemaForge.Proofs.Canonical.Form
import SchemaForge.Proofs.Canonical.Schema
import SchemaForge.Proofs.RoundTrip
import SchemaForge.Proofs.Arrays
import SchemaForge.Proofs.Generation.Claimants
import SchemaForge.Proofs.Generation.Traversal
import SchemaForge.Proofs.Generation.Names
import SchemaForge.Proofs.Building.Roots
import SchemaForge.Proofs.Building.Aliases
import SchemaForge.Proofs.Building.Retry
import SchemaForge.Proofs.Go.HashReading
import SchemaForge.Proofs.Go.Ordering
import SchemaForge.Proofs.Go.Comparing
import SchemaForge.Proofs.Go.ClassNames
import SchemaForge.Proofs.Go.Builders
import SchemaForge.Proofs.Go.MapForm
import SchemaForge.Proofs.Go.ReadingMaps
import SchemaForge.Proofs.Go.Factories
import SchemaForge.Proofs.Go.MapRoundTrip
import SchemaForge.Proofs.Growth
import SchemaForge.Proofs.Building.Makes
import SchemaForge.Proofs.Places
import SchemaForge.Proofs.Agreement
import SchemaForge.Proofs.Generation.Agreement
import SchemaForge.Proofs.Building.Loads
import SchemaForge.Proofs.Building.Faithful
import SchemaForge.Proofs.Generation.LoadOrder
import SchemaForge.Proofs.Grafting
import SchemaForge.Proofs.Sites
import SchemaForge.Proofs.Documents
import SchemaForge.Proofs.Building.Leaves
import SchemaForge.Proofs.Generation.Sharing
import SchemaForge.Proofs.Building.Nesting
import SchemaForge.Proofs.Building.Reading
import SchemaForge.Proofs.Building.Referring
import SchemaForge.Proofs.Building.Covering
import SchemaForge.Proofs.Building.Transparency
import SchemaForge.Proofs.RegistryHistory
import SchemaForge.Proofs.Generation.Accounting
import SchemaForge.Proofs.Building.Authors
import SchemaForge.Proofs.Building.Shared
import SchemaForge.Proofs.Go.BuilderRuns
import SchemaForge.Proofs.Building.Faults
import SchemaForge.Proofs.Json.Rereading
import SchemaForge.Proofs.Building.Attribution
import SchemaForge.Proofs.Generation.ObjectNames
import SchemaForge.Proofs.Building.ObjectRecords
import SchemaForge.Proofs.Go.Emitted
import SchemaForge.Proofs.Go.Imports
import SchemaForge.Proofs.Go.Methods
import SchemaForge.Proofs.TypeScript.Identifiers
import SchemaForge.Proofs.TypeScript.Renaming
import SchemaForge.Proofs.TypeScript.Symbols
import SchemaForge.Proofs.TypeScript.Accepted
import SchemaForge.Proofs.TypeScript.Builders
import SchemaForge.Proofs.TypeScript.DeclaredNames
import SchemaForge.Proofs.Layout
import SchemaForge.Proofs.TypeScript.ListLoops
import SchemaForge.Proofs.Go.ListLoops
import SchemaForge.Proofs.Generation.Lists
import SchemaForge.Proofs.TypeScript.Modules
import SchemaForge.Proofs.Generation.Emission
import SchemaForge.Proofs.Go.Identifiers
import SchemaForge.Proofs.Go.FileNames
import SchemaForge.Proofs.Go.Literals
import SchemaForge.Proofs.Go.Formats
import SchemaForge.Proofs.Go.Messages
import SchemaForge.Proofs.TypeScript.Reflection
import SchemaForge.Proofs.CommandLine
import SchemaForge.Proofs.RegistryKeys
import SchemaForge.Proofs.Locating
import SchemaForge.Proofs.Coercion
import SchemaForge.Proofs.ConfigurationFlag
import SchemaForge.Proofs.Preorder
import SchemaForge.Proofs.Writer
import SchemaForge.Proofs.Generation.ArrayTypes
import SchemaForge.Proofs.NormalPaths
import SchemaForge.Proofs.FileStems
import SchemaForge.Proofs.Building.Chains
