import JigLedger.Engine.Session

/-!
# Guests

Starting the module of a package, calling its exports, and reading and writing its memory. Whatever
may run the code of a guest goes through `Host.invoke`.
-/

namespace JigLedger.Engine

open Wasm (Val NumType Thread)

/-- What the operations of the engine use: the transaction, and a way to run guests. -/
structure Host where
  context : Context
  /-- Runs a thread of a guest to its end; the results, the last one first. -/
  invoke : (guest : Nat) → Errand → Thread → Engine (List Val)

/-- The memory of a package that runs. -/
def memoryOf (home : Nat) : Engine LinearMemory := do
  return (← guestAt (← instanceAt home).guest).machine.memory

/-- Looks at the memory of a package that runs. -/
def look {α : Type} (home : Nat) (f : LinearMemory → Except MemoryError α) : Engine α := do
  orPlain MemoryError.message (f (← memoryOf home))

/-- Writes bytes to the memory of a package that runs. -/
def writeBytes (home : Nat) (address : UInt32) (bs : Bytes) : Engine Unit := do
  let idx := (← instanceAt home).guest
  let guest ← guestAt idx
  let memory ← orPlain MemoryError.message (guest.machine.memory.write address bs)
  setMachine idx { guest.machine with memory := memory }

/-- The word that a number is; floating point numbers are not passed. -/
def wordOf : Val → Engine UInt64
  | .i32 n => pure n.toUInt64
  | .i64 n => pure n
  | .f32 bits => failPlain s!"unsupported wasm result F32({bits.toNat})"
  | .f64 bits => failPlain s!"unsupported wasm result F64({bits.toNat})"

/-- A word as a parameter of a type. -/
def paramOf (t : Ty) (word : UInt64) : Val :=
  if t.isWide then .i64 word else .i32 word.toUInt32

/-- The word in a result of a call, or zero. -/
def resultWord (results : List Val) : Engine UInt64 :=
  match results with
  | n :: _ => wordOf n
  | [] => pure 0

namespace Host

variable (h : Host)

/-- Runs a thread of the module of a package. -/
def invokeAt (home : Nat) (errand : Errand) (thread : PackageInstance → Thread) :
    Engine (List Val) := do
  let inst ← instanceAt home
  h.invoke inst.guest errand (thread inst)

/-- Asks the allocator of a package for bytes. -/
def alloc (home : Nat) (errand : Errand) (size : UInt32) : Engine UInt32 := do
  let results ← h.invokeAt home errand fun inst => .calling inst.allocator [.i32 size] 1
  let address := (← resultWord results).toUInt32
  if address = 0 then failPlain (MemoryError.nullAllocation size.toNat).message
  else
    look home (·.checkRange address size.toNat)
    return address

/-- The memory of a package, for writing values. -/
def heap (home : Nat) (errand : Errand) : Heap Engine where
  alloc := h.alloc home errand
  write := writeBytes home
  fail e := failPlain e.message

/-- Fails unless a call with the given parameters fits an export. -/
def checkCall (name : String) (type : Wasm.FuncType) (params : List Val) (results : Nat) :
    Engine Unit := do
  if type.results.length ≠ results then
    failPlain s!"export {name} returns {type.results.length} values, expected {results}"
  else if type.params.length ≠ params.length then
    failPlain s!"expected {type.params.length} arguments, got {params.length}"
  else if type.params ≠ params.map Val.type then failPlain "argument type mismatch"
  else pure ()

/-- Calls an export of a package that runs; the word of the result, if there is one. -/
def callExport (home : Nat) (name : String) (params : List Val) (hasResult : Bool) :
    Engine (Option UInt64) := do
  let inst ← instanceAt home
  let module := inst.package.module
  match module.exportedFunc? name with
  | none => failPlain s!"package {inst.package.id.short} does not export {name}"
  | some idx =>
    let type := (module.funcTypes[idx]?).getD ⟨[], []⟩
    checkCall name type params (if hasResult then 1 else 0)
    match ← h.invokeAt home .call fun _ => .calling idx params type.results.length with
    | n :: _ => return some (← wordOf n)
    | [] => return none

/-! ### Starting a module -/

/-- Adds a guest to those that run. -/
def addGuest (guest : Guest) : Engine Nat := do
  let s ← get
  set (s.launched guest)
  return s.guests.length

/-- Adds a package to those that run; its index. -/
def addInstance (inst : PackageInstance) : Engine Nat := do
  let s ← get
  set (s.started inst)
  return s.instances.length

/-- The guest that a module becomes: its imports are linked and its memory is filled. -/
def linkedGuest (m : Wasm.Module) : Engine Guest := do
  let links ← orPlain HostImport.LinkError.message (m.imports.mapM HostImport.link)
  match m.allocate h.context.env.config.maxMemoryBytes with
  | none => failPlain "memory minimum size exceeds memory limits"
  | some machine =>
    match machine.writeSegments m.segments with
    | .error trap => throw (.ofTrap trap)
    | .ok machine => return ⟨machine, links⟩

/-- Runs the start function of a module, if it has one. -/
def runStart (m : Wasm.Module) (guest : Nat) : Engine Unit := do
  match m.start with
  | none => return ()
  | some f => let _ ← h.invoke guest .start (.calling f [] 0)

/-- The type of an allocator. -/
def allocType : Wasm.FuncType := ⟨[.i32], [.i32]⟩

/-- The index of the allocator of a package that exports a memory. -/
def allocatorOf (p : Package) : Engine Nat := do
  if !p.module.exportsMemory Package.memoryExport then
    failPlain s!"package {p.id.short} exports no memory"
  else
    match p.module.exportedFunc? Package.allocExport with
    | none => failPlain s!"failed to find function export {Package.allocExport}"
    | some idx =>
      if p.module.funcTypes[idx]? = some allocType then return idx
      else failPlain s!"failed to convert function {Package.allocExport} to its type"

/-- Adds a linked guest, runs its start function and adds its package to those that run. -/
def launch (p : Package) (targets : List (Option Nat)) (guest : Guest) : Engine Nat := do
  let idx ← addGuest guest
  inContext s!"instantiate package {p.id.short}" (h.runStart p.module idx)
  let allocator ← allocatorOf p
  addInstance ⟨p, idx, allocator, targets⟩

/-- Runs the module of a package; its index. -/
def instantiate (p : Package) (targets : List (Option Nat)) : Engine Nat := do
  let guest ← inContext s!"instantiate package {p.id.short}" (h.linkedGuest p.module)
  h.launch p targets guest

end Host

end JigLedger.Engine
