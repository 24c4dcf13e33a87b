import ApiContract.Codegen.Projection
import ApiContract.Contract.Listing
import ApiContract.Import.Projection
import ApiContract.Main
import ApiContract.OpenApi.Projection
import ApiContract.Proofs.Schema.Projection
import ApiContract.Proofs.Import.Files
import ApiContract.Proofs.Import.Agreement
import ApiContract.Proofs.Files.Tree
import ApiContract.Session
import ApiContract.Value.Tagged
import ApiContract.Proofs.Drift.Sync
import ApiContract.Proofs.Import.Fixpoint
import ApiContract.Proofs.OpenApi.OperationIds
import ApiContract.Codegen.Generator
import ApiContract.Import.Batch
import ApiContract.Proofs.OpenApi.FailSoft
import ApiContract.Proofs.Codegen.Generator
import ApiContract.Proofs.Import.Batch
import ApiContract.Proofs.Export.Worklist
import ApiContract.Proofs.Export.Owned
import ApiContract.Proofs.Export.References
import ApiContract.Proofs.Export.Closed
import ApiContract.Proofs.Drift.Order
import ApiContract.Proofs.Drift.Specs
import ApiContract.Proofs.Import.Twice
import ApiContract.Proofs.Export.Validated
import ApiContract.Proofs.Drift.Alike
import ApiContract.Proofs.Drift.Ignored
import ApiContract.Proofs.Drift.Retyped
import ApiContract.Proofs.Source.Cache
import ApiContract.Proofs.Codegen.Regions
import ApiContract.Proofs.Codegen.Readable
import ApiContract.Proofs.Export.JsonText
import ApiContract.Proofs.Contract.Registry
import ApiContract.Proofs.Export.Registration
import ApiContract.Proofs.Drift.Mirrored
import ApiContract.Proofs.Drift.Located
import ApiContract.Proofs.Reference.Chain
import ApiContract.Proofs.Export.Followed
import ApiContract.Proofs.Schema.Kept
import ApiContract.Proofs.Codegen.Scope
import ApiContract.Proofs.Import.Bindings
import ApiContract.Proofs.Codegen.Optional
import ApiContract.Proofs.Drift.Identified
import ApiContract.Proofs.Import.Io
import ApiContract.Proofs.OpenApi.Parameters
import ApiContract.Proofs.Import.Input
import ApiContract.Proofs.Codegen.Literals
import ApiContract.Proofs.Naming.Names
import ApiContract.Proofs.Export.RegistryFile
import ApiContract.Proofs.Config.Setting
