import JigLedger.Abi.Resolve
import JigLedger.Package.Compiler
import JigLedger.Package.Content
import JigLedger.Wasm.Load

/-!
# Packages

A package is a resolved ABI and a guest module that goes with it: it exports a memory, an allocator
and the constructors of all classes. Its id is the digest of what it was built from.
-/

namespace JigLedger

/-- A package that is ready to be run. -/
structure Package where
  id : PackageId
  abi : Abi
  module : Wasm.Module
  entries : List String
  sources : Sources
  /-- The module as the compiler made it. -/
  wasm : Bytes

namespace Package

/-- Why a package cannot be built. -/
inductive BuildError where
  | content (fault : Wire.Fault)
  | abi (id : PackageId) (error : AbiError)
  | module (id : PackageId) (fault : Wasm.ModuleFault)
  | missingExport (id : PackageId) (name : String)

/-- The wording of a refusal. -/
def BuildError.message : BuildError → String
  | content fault => contentMessage fault
  | abi id e => s!"resolve abi of package {id.short}: {e.message}"
  | module id fault => s!"compile module of package {id.short}: {fault.message}"
  | missingExport id name => s!"package {id.short} does not export {name}"

/-- The name under which a module exports its memory. -/
def memoryExport : String := "memory"

/-- The name under which a module exports its allocator. -/
def allocExport : String := "__alloc"

/-- The names that the module of a package has to export. -/
def requiredExports (a : Abi) : List String :=
  [memoryExport, allocExport] ++ a.classes.map (·.constructor.exportName)

/-- Builds a package from what a compiler made of its sources. -/
def build (entries : List String) (sources : Sources) (artifacts : Artifacts) :
    Except BuildError Package := do
  let id ← (contentId entries sources).mapError .content
  let a ← (Abi.resolve id artifacts.document).mapError (.abi id)
  let module ← (Wasm.Module.load artifacts.wasm).mapError (.module id)
  match (requiredExports a).find? fun name => !module.hasExport name with
  | some name => .error (.missingExport id name)
  | none => return ⟨id, a, module, entries, sources, artifacts.wasm⟩

end Package

end JigLedger
