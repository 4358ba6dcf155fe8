import JigLedger.Abi.Json
import JigLedger.Sources
import JigLedger.Text.Base64
import JigLedger.Text.Blank

/-!
# Compilers

A compiler makes a module and an ABI from the entries and sources of a package. One takes modules
and ABIs that have been built already; the other one refuses everything.
-/

namespace JigLedger

/-- What a compiler makes: an ABI and a module, in binary form or as text. -/
structure Artifacts where
  document : Abi.Document
  wasm : Bytes

/-- Why a compiler refused sources. -/
inductive CompileError where
  | disabled
  | entryCount (actual : Nat)
  | noSource (entry : String)
  | base64 (fault : Base64.Fault)
  | unknownKind (entry : String)
  | noAbi (name : String)
  | badAbi
deriving DecidableEq, Repr

/-- The wording of a refusal. -/
def CompileError.message : CompileError → String
  | disabled => "Compilation is disabled. Configure a compiler with Vm::with_compiler()."
  | entryCount n => s!"expected exactly one entry, got {n}"
  | noSource entry => s!"entry {entry} has no source"
  | base64 fault => s!"Failed to decode wasm module from base64: {fault.message}"
  | unknownKind entry => s!"entry {entry} is neither .wat nor .wasm"
  | noAbi name => s!"missing abi source {name}"
  | badAbi => Abi.Document.parseMessage

/-- Makes a module and an ABI from entries and sources. -/
abbrev Compiler := List String → Sources → Except CompileError Artifacts

namespace Compiler

/-- The compiler where packages cannot be deployed. -/
def disabled : Compiler := fun _ _ => .error .disabled

/-- A text without an ending, if it has that ending. -/
def dropEnding? (ending text : String) : Option String :=
  let cs := text.toList
  let keep := cs.length - ending.length
  if ending.toList.isSuffixOf cs then some (String.ofList (cs.take keep)) else none

/-- The stem of an entry and the module that its source holds: text as it is, binary modules in
base64. -/
def moduleOf (entry source : String) : Except CompileError (String × Bytes) :=
  match dropEnding? ".wat" entry with
  | some stem => .ok (stem, utf8 source)
  | none =>
    match dropEnding? ".wasm" entry with
    | some stem => do
      let trimmed := String.ofList (Blank.trim source.toList)
      let wasm ← (Base64.decode (utf8 trimmed)).mapError .base64
      return (stem, wasm)
    | none => .error (.unknownKind entry)

/-- The compiler that takes what has been built already. The only entry names a source with a
module, and beside it stands a source with its ABI. -/
def prebuilt : Compiler
  | [entry], sources => do
    let some source := sources.get? entry | .error (.noSource entry)
    let (stem, wasm) ← moduleOf entry source
    let name := stem ++ ".abi.json"
    let some text := sources.get? name | .error (.noAbi name)
    let some document := Abi.Document.parse? text | .error .badAbi
    return ⟨document, wasm⟩
  | entries, _ => .error (.entryCount entries.length)

end Compiler

end JigLedger
