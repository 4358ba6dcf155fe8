import JigLedger.Wasm.Module

/-!
# What the engine offers to guests

Guests import functions from one module. They pass only words of 32 and 64 bits: a jig is the
address of its record, strings and argument blobs are addresses of buffers.
-/

namespace JigLedger.Engine

/-- A function that the engine offers. -/
inductive HostImport where
  /-- Constructs a jig of a class of the calling package. -/
  | constructorLocal
  /-- Constructs a jig of an imported class. -/
  | constructorRemote
  /-- Calls a method of a jig. -/
  | callMethod
  /-- Calls an imported function. -/
  | callFunction
  /-- Reads a field of a jig. -/
  | getProp
  /-- Replaces the lock of a jig. -/
  | jigLock
  /-- Asks what the lock of a jig permits. -/
  | jigAuthCheck
  /-- The jig on whose behalf the running code was called. -/
  | callerOrigin
  /-- Ends the transaction. -/
  | abort
  /-- Prints a text. -/
  | debugStr
deriving DecidableEq, Repr

namespace HostImport

/-- The name of the module from which guests import. -/
def moduleName : String := "vm"

/-- All functions with their names. -/
def table : List (String × HostImport) :=
  [("constructor_local", constructorLocal), ("constructor_remote", constructorRemote),
    ("call_method", callMethod), ("call_function", callFunction), ("get_prop", getProp),
    ("jig_lock", jigLock), ("jig_authcheck", jigAuthCheck), ("caller_origin", callerOrigin),
    ("abort", abort), ("debug_str", debugStr)]

/-- The function with a name. -/
def ofName? (name : String) : Option HostImport := table.lookup name

/-- The type of a function. -/
def type : HostImport → Wasm.FuncType
  | constructorLocal | constructorRemote | jigAuthCheck => ⟨[.i32, .i32], [.i32]⟩
  | callMethod => ⟨[.i32, .i32, .i32], [.i64]⟩
  | callFunction | getProp => ⟨[.i32, .i32], [.i64]⟩
  | jigLock => ⟨[.i32, .i32, .i32], []⟩
  | callerOrigin => ⟨[], [.i32]⟩
  | abort | debugStr => ⟨[.i32], []⟩

/-- Why a module cannot be linked. -/
inductive LinkError where
  | unknown (i : Wasm.Import)
  | incompatible (i : Wasm.Import)
deriving DecidableEq, Repr

/-- The wording of a refusal. -/
def LinkError.message : LinkError → String
  | unknown i => s!"unknown import: {i.module}::{i.name}"
  | incompatible i => s!"incompatible import type for {i.module}::{i.name}"

/-- The function that an import of a module asks for. -/
def link (i : Wasm.Import) : Except LinkError HostImport :=
  if i.module ≠ moduleName then .error (.unknown i)
  else
    match ofName? i.name with
    | none => .error (.unknown i)
    | some h => if i.type = .func h.type then .ok h else .error (.incompatible i)

end HostImport

end JigLedger.Engine
