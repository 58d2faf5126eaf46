import CheckedModels.Main
import CheckedModels.Conversion.Wording
import CheckedModels.Files.Folder
import CheckedModels.Session.Basic
import CheckedModels.Declaration.Decode
import CheckedModels.Value.Attribute
import CheckedModels.Value.Snapshot
import CheckedModels.Proofs.Entries
import CheckedModels.Proofs.Registry.FreshKey
import CheckedModels.Proofs.Registry.PrintedName
import CheckedModels.Proofs.Registry.Legible
import CheckedModels.Proofs.Registry.Summary
import CheckedModels.Proofs.Json.Strings
import CheckedModels.Proofs.Json.Writer
import CheckedModels.Proofs.Compile.Composition
import CheckedModels.Proofs.Compile.Linking
import CheckedModels.Proofs.Compile.Survey
import CheckedModels.Proofs.Compile.Tracking
import CheckedModels.Proofs.Compile.Descent
import CheckedModels.Proofs.Compile.Assembly
import CheckedModels.Proofs.Compile.Supply
import CheckedModels.Proofs.Conversion.Outcome
import CheckedModels.Proofs.Conversion.Validate
import CheckedModels.Proofs.Compile.Sharing
import CheckedModels.Proofs.Compile.Reached
import CheckedModels.Proofs.Compile.Order
import CheckedModels.Proofs.Compile.Closure
import CheckedModels.Proofs.Compile.Locality
import CheckedModels.Proofs.Value.AttributeName
import CheckedModels.Proofs.Conversion.Reload
import CheckedModels.Proofs.Conversion.Twins
import CheckedModels.Proofs.Declaration.Kinds
import CheckedModels.Proofs.Conformance.Relation
import CheckedModels.Proofs.Conformance.Fields
import CheckedModels.Proofs.Conformance.Compiled
import CheckedModels.Proofs.Conformance.Faithful
import CheckedModels.Proofs.Compile.Repeated
import CheckedModels.Proofs.Compile.Identifier
import CheckedModels.Proofs.Compile.Precedence
import CheckedModels.Proofs.Compile.Claimants
import CheckedModels.Proofs.Compile.Walk
import CheckedModels.Proofs.Compile.Inheritance
import CheckedModels.Proofs.Declaration.Matching
import CheckedModels.Proofs.Compile.Listing
import CheckedModels.Proofs.Declaration.Padded
import CheckedModels.Proofs.Compile.Dangling
import CheckedModels.Proofs.Sdl.Spelling
import CheckedModels.Proofs.Sdl.Grammar
import CheckedModels.Proofs.Sdl.Reading
import CheckedModels.Proofs.Sdl.Completeness
import CheckedModels.Proofs.Sdl.Plain
import CheckedModels.Proofs.Sdl.Rendering
import CheckedModels.Proofs.Conversion.Record
import CheckedModels.Proofs.Conversion.Collection
import CheckedModels.Proofs.Conformance.Choice
import CheckedModels.Proofs.Conversion.Union
import CheckedModels.Proofs.Conversion.Stable
import CheckedModels.Proofs.Config.Decode
import CheckedModels.Proofs.Session.Cached
import CheckedModels.Proofs.Session.Validate
import CheckedModels.Proofs.Session.Change
import CheckedModels.Proofs.Session.Lifecycle
import CheckedModels.Proofs.Sdl.Results
import CheckedModels.Proofs.Sdl.Soundness
import CheckedModels.Proofs.Descriptor.Layers
import CheckedModels.Proofs.Declaration.Resolution
import CheckedModels.Proofs.Conformance.Finished
import CheckedModels.Proofs.CommandLine.Stages
import CheckedModels.Proofs.CommandLine.Ending
import CheckedModels.Proofs.CommandLine.Verdict
import CheckedModels.Proofs.Conversion.Wrapped
import CheckedModels.Proofs.Declaration.PlainData
import CheckedModels.Proofs.Compile.Collecting
