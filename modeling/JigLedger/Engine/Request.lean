import JigLedger.Engine.Call

/-!
# Requests of guests

What the functions do that guests import. A request is made by the code of the package on top of
the stack of frames, and its pointers are addresses in the memory of that package. Locks are asked
as for instructions of the transaction. A failure ends the transaction.
-/

namespace JigLedger.Engine

open Wasm (Val)

/-- The package whose code makes a request. -/
def callingHome : Engine Nat := do
  match (← get).frames with
  | frame :: _ => return frame.home
  | [] => fail (.broken "host call outside of a guest frame")

/-- The text at an address. -/
def guestText (home : Nat) (address : UInt32) : Engine String := do
  match ← look home fun m => Ty.string.readPointee m address with
  | .string s => return s
  | other => fail (.failed s!"expected a string, got {other.toText}")

/-- The origin of the jig whose record is at an address. -/
def guestJig (home : Nat) (address : UInt32) : Engine Pointer := do
  orError (fun e => .failed s!"bad jig reference: {MemoryError.message e}")
    (Ty.readOrigin (← memoryOf home) address)

/-- The arguments in a blob. -/
def guestArgs (c : Context) (home : Nat) (params : List Field) (blob : UInt32) :
    Engine (List Value) := do
  let values ← orError (fun e => .failed s!"bad arguments: {MemoryError.message e}")
    (Ty.readArgs (← memoryOf home) params blob)
  checkJigs c params values
  return values

/-- The import of a package with an index, of a kind. -/
def importOfKind (p : Package) (idx : Nat) (kind : Abi.ImportKind) : Engine Abi.Import := do
  let i ← orError (fun e => .failed (AbiError.message e)) (p.abi.importAt idx)
  if i.kind = kind then return i
  else fail (.failed s!"import {i.name} is a {i.kind.name}, not a {kind.name}")

/-- The address of a holder in the buffer at an address. -/
def guestAddress (home : Nat) (data : UInt32) : Engine Address := do
  match ← look home fun m => Ty.bytes.readPointee m data with
  | .bytes bs => orError (fun e => .failed (IdentifierError.message e)) (Address.ofBytes bs)
  | _ => fail (.failed "address lock needs a bytes buffer")

/-- The lock that gives a jig to the jig that is running. -/
def lockToCaller : Engine Lock := do
  match (← get).caller with
  | .jig owner => return .jig owner
  | .transaction => fail (.failed "jig lock requested outside of a jig")

/-- The lock that a guest asks for. -/
def requestedLock (home : Nat) (kind data : UInt32) : Engine Lock :=
  match kind with
  | 0 => fail (.missing "setting a none lock")
  | 1 => Lock.address <$> guestAddress home data
  | 2 => lockToCaller
  | 3 => return .everyone
  | 4 => return .frozen
  | other => fail (.failed s!"unknown lock kind {other.toNat}")

/-! ### Arguments -/

/-- Refuses a request with arguments that its function does not take. -/
def otherArguments {α : Type} : Engine α :=
  fail (.broken "a request with arguments of other types")

/-- Goes on if there are no arguments. -/
def withoutWords {α : Type} (f : Engine α) : List Val → Engine α
  | [] => f
  | _ => otherArguments

/-- Goes on with the only argument. -/
def withWord {α : Type} (f : UInt32 → Engine α) : List Val → Engine α
  | [.i32 a] => f a
  | _ => otherArguments

/-- Goes on with two arguments. -/
def withTwoWords {α : Type} (f : UInt32 → UInt32 → Engine α) : List Val → Engine α
  | [.i32 a, .i32 b] => f a b
  | _ => otherArguments

/-- Goes on with three arguments. -/
def withThreeWords {α : Type} (f : UInt32 → UInt32 → UInt32 → Engine α) : List Val → Engine α
  | [.i32 a, .i32 b, .i32 c] => f a b c
  | _ => otherArguments

/-! ### Functions -/

namespace Host

variable (h : Host)

/-- A result as a word for the package that asked; without a result it is zero. -/
def returnWord (home : Nat) (result : Option Ty) (value : Option Value) : Engine UInt64 :=
  match result, value with
  | some t, some v => t.lower (h.heap home .answer) v
  | _, _ => return 0

/-- The address of a record for a jig in the memory of a package. -/
def proxy (home : Nat) (origin : Pointer) : Engine UInt32 :=
  (Ty.jig .any).allocValue (h.heap home .answer) (.jig origin)

/-- The package that runs an import, and the export that the import leads to. -/
def importedExport (home : Nat) (idx : UInt32) (kind : Abi.ImportKind) : Engine (Nat × Nat) := do
  let inst ← instanceAt home
  let i ← importOfKind inst.package idx.toNat kind
  let target ← orMissing (.broken s!"import {i.name} was not resolved")
    (inst.targets[idx.toNat]?.join)
  return (← h.instanceFor i.package, target)

/-- Constructs a jig of a class of the calling package; its address. -/
def constructorLocal (classIdx args : UInt32) : Engine UInt32 := do
  let home ← callingHome
  let inst ← instanceAt home
  let cls ← orError (fun e => .failed (AbiError.message e))
    (inst.package.abi.classAt classIdx.toNat)
  let values ← guestArgs h.context home cls.constructor.params args
  let idx ← h.construct home classIdx.toNat values
  return (← jigAt idx).address

/-- Constructs a jig of an imported class; the address of a record for it. -/
def constructorRemote (importIdx args : UInt32) : Engine UInt32 := do
  let home ← callingHome
  let (target, exportIdx) ← h.importedExport home importIdx .ofClass
  let cls ← orPlain AbiError.message ((← instanceAt target).package.abi.classAt exportIdx)
  let values ← guestArgs h.context home cls.constructor.params args
  let idx ← h.construct target exportIdx values
  h.proxy home (← jigAt idx).origin

/-- Calls a method of a jig; the word of its result. -/
def requestMethod (jig methodIdx args : UInt32) : Engine UInt64 := do
  let home ← callingHome
  let origin ← guestJig home jig
  let idx ← h.resolve origin
  let cls ← classOfJig (← jigAt idx)
  let method ← methodAt cls methodIdx.toNat
  let values ← guestArgs h.context home method.params args
  let result ← h.callMethod idx method values
  h.returnWord home method.result result

/-- Calls an imported function; the word of its result. -/
def requestFunction (importIdx args : UInt32) : Engine UInt64 := do
  let home ← callingHome
  let (target, exportIdx) ← h.importedExport home importIdx .ofFunction
  let function ← orPlain AbiError.message
    ((← instanceAt target).package.abi.functionAt exportIdx)
  let values ← guestArgs h.context home function.params args
  let result ← h.callFunction target function values
  h.returnWord home function.result result

/-- Reads a field of a jig; the word of its value. -/
def getProp (jig fieldIdx : UInt32) : Engine UInt64 := do
  let home ← callingHome
  let origin ← guestJig home jig
  let idx ← h.resolve origin
  let touched ← jigAt idx
  let cls ← classOfJig touched
  let field ← orMissing (.failed s!"{cls.ref.toText} has no field {fieldIdx.toNat}")
    cls.fields[fieldIdx.toNat]?
  let value ← look touched.home fun m => field.ty.readValue m (touched.address + field.offset)
  h.returnWord home (some field.ty) (some value)

/-- Replaces the lock of a jig. -/
def jigLock (jig kind data : UInt32) : Engine Unit := do
  let home ← callingHome
  let origin ← guestJig home jig
  let lock ← requestedLock home kind data
  let idx ← h.resolve origin
  changeLock h.context idx lock

/-- Asks whether the lock of a jig permits calls, or may be replaced. -/
def jigAuthCheck (jig check : UInt32) : Engine Bool := do
  let home ← callingHome
  let origin ← guestJig home jig
  let idx ← h.resolve origin
  let touched ← jigAt idx
  let auth ← authority h.context
  match check with
  | 0 => return touched.lock.canReceiveCalls auth
  | 1 => return touched.lock.canBeChanged auth origin
  | other => fail (.failed s!"unknown auth check {other.toNat}")

/-- The address of a record for the jig on whose behalf the running code was called, or zero. -/
def callerOrigin : Engine UInt32 := do
  let home ← callingHome
  match (← get).outerCaller with
  | .transaction => return 0
  | .jig origin => h.proxy home origin

/-- Ends the transaction with a message; one that cannot be read is replaced. -/
def abort {α : Type} (message : UInt32) : Engine α := do
  let home ← callingHome
  let text ← tryCatch (guestText home message) fun _ => return "<unreadable message>"
  let error := ExecError.failed s!"guest aborted: {text}"
  match (← get).caller with
  | .jig origin => fail (error.withOrigin origin)
  | .transaction => fail error

/-- Prints a message, if what guests print is kept. -/
def debugStr (message : UInt32) : Engine Unit := do
  if h.context.env.config.logGuestOutput then
    let home ← callingHome
    let text ← guestText home message
    note (.printed (← get).caller text)
  else return ()

/-- Answers a request with arguments of the right types; the results, the last one first. -/
def answer : HostImport → List Val → Engine (List Val)
  | .constructorLocal => withTwoWords fun cls args => do
    return [.i32 (← h.constructorLocal cls args)]
  | .constructorRemote => withTwoWords fun idx args => do
    return [.i32 (← h.constructorRemote idx args)]
  | .callMethod => withThreeWords fun jig method args => do
    return [.i64 (← h.requestMethod jig method args)]
  | .callFunction => withTwoWords fun idx args => do
    return [.i64 (← h.requestFunction idx args)]
  | .getProp => withTwoWords fun jig field => do return [.i64 (← h.getProp jig field)]
  | .jigLock => withThreeWords fun jig kind data => do
    h.jigLock jig kind data
    return []
  | .jigAuthCheck => withTwoWords fun jig check => do
    return [Val.ofBool (← h.jigAuthCheck jig check)]
  | .callerOrigin => withoutWords do return [.i32 (← h.callerOrigin)]
  | .abort => withWord abort
  | .debugStr => withWord fun message => do
    h.debugStr message
    return []

/-- Answers a request of a guest. -/
def request (guest : Nat) (function : HostImport) (args : List Val) : Engine (List Val) := do
  note (.requested guest function (← get).frames.head?)
  h.answer function args

end Host

end JigLedger.Engine
