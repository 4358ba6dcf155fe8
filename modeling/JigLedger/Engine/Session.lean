import JigLedger.Config
import JigLedger.Engine.Import
import JigLedger.Lock.Basic
import JigLedger.Package.Registry
import JigLedger.Signature.Verifier
import JigLedger.Store
import JigLedger.Value.Layout
import JigLedger.Wasm.Machine

/-!
# The state of a running transaction

A transaction runs in a session: what its instructions have given so far, the packages that are
running, the jigs that have been touched, and the stack of calls between jigs. Jigs never own each
other; they hold origins, which are looked up among the touched jigs. Nothing outside of the
session changes before the result is committed.
-/

namespace JigLedger.Engine

open Wasm (Val Thread)

/-- Where transactions run: all of it stays as it is during a transaction. -/
structure Env where
  config : Config
  registry : Registry
  store : Store
  compiler : Compiler
  verifier : Verifier

/-- Which instructions a signature covers. -/
inductive Coverage where
  | whole
  /-- The instructions before the one with this index. -/
  | before (idx : Nat)
deriving DecidableEq, Repr

/-- A signature covers an instruction. -/
def Coverage.covers : Coverage → Nat → Bool
  | whole, _ => true
  | before idx, instruction => instruction < idx

/-- Somebody who has signed, and what. -/
structure Signer where
  address : Address
  coverage : Coverage
deriving DecidableEq, Repr

/-- What stays as it is while one transaction runs. -/
structure Context where
  env : Env
  txHash : Block 32
  signers : List Signer

/-- The result of one instruction. -/
inductive Statement where
  | package (id : PackageId)
  | jig (origin : Pointer)
  | value (ty : Ty) (v : Value)
  | nothing

/-- The statement for the result of a call. -/
def Statement.ofResult : Option Ty → Option Value → Statement
  | _, some (.jig origin) => jig origin
  | some ty, some v => value ty v
  | _, _ => nothing

/-- A module that is running, and the functions that its imports lead to. -/
structure Guest where
  machine : Wasm.Instance
  links : List HostImport

/-- A package whose module is running. -/
structure PackageInstance where
  package : Package
  /-- The index of its guest. -/
  guest : Nat
  /-- The index of its allocator among the functions of the module. -/
  allocator : Nat
  /-- The export that each import of the ABI leads to; none for interfaces. -/
  targets : List (Option Nat)

/-- A jig that the transaction has touched. -/
structure TouchedJig where
  origin : Pointer
  /-- Where it was loaded from; none for jigs of this transaction. -/
  previous : Option Pointer
  /-- The index of the package that runs it. -/
  home : Nat
  /-- The export index of its class. -/
  classIdx : Nat
  /-- Its address in the memory of its package. -/
  address : UInt32
  lock : Lock

/-- One level of the stack of calls. -/
structure Frame where
  /-- On whose behalf the code runs. -/
  identity : Caller
  /-- The index of the package whose code runs. -/
  home : Nat
deriving DecidableEq, Repr

/-- Why the code of a guest runs. -/
inductive Errand where
  /-- A constructor, method or function has been called. -/
  | call
  /-- Room is needed for the arguments of a call. -/
  | arguments
  /-- Room is needed for the answer to a request of the guest. -/
  | answer
  /-- Room is needed for the object of a stored jig. -/
  | object (home : Nat)
  /-- Room is needed for the origin of a jig that has been constructed. -/
  | origin (home : Nat)
  /-- The module starts. -/
  | start
deriving DecidableEq, Repr

/-- What is entered by a call. -/
inductive Entry where
  | constructor
  /-- A method of the touched jig with this index. -/
  | method (jig : Nat)
  | function
deriving DecidableEq, Repr

/-- Something that happened in a session. -/
inductive Event where
  /-- An instruction began. -/
  | began (instruction : Nat)
  /-- A guest printed a text. -/
  | printed (caller : Caller) (message : String)
  /-- A module was added to the guests. -/
  | launched (guest : Nat)
  /-- A package was added to those that run. -/
  | started (inst : PackageInstance)
  /-- The code of a guest was run. -/
  | invoked (guest : Nat) (errand : Errand)
  /-- The code that was run last came to its end. -/
  | finished
  /-- The code of a guest called the engine while a frame was on top of the stack. -/
  | requested (guest : Nat) (function : HostImport) (top : Option Frame)
  /-- A jig that had not been touched began to be made. -/
  | making (origin : Pointer)
  /-- The jig that was begun last was noted. -/
  | made (jig : TouchedJig)
  /-- A frame was put on the stack for a call. -/
  | entered (entry : Entry) (frame : Frame) (callee : Abi.Callable) (args : List Value)
  /-- The top frame was taken off the stack. -/
  | left
  /-- The lock of a touched jig was replaced. -/
  | relocked (jig : Nat) (lock : Lock)
  /-- A touched jig was spent as a coin. -/
  | spent (jig : Nat)

/-- The state of a running transaction. -/
structure Session where
  /-- The fuel that is left. -/
  fuel : Nat
  /-- The index of the instruction that is running. -/
  current : Nat
  statements : List Statement
  funded : Bool
  fundedAmount : UInt64
  guests : List Guest
  instances : List PackageInstance
  jigs : List TouchedJig
  /-- The stack of calls, the innermost first. -/
  frames : List Frame
  /-- The index of the next pointer that is made; the pointer keeps its low 32 bits. -/
  nextIndex : Nat
  /-- The packages that the transaction deploys, in their order. -/
  deploys : List Package
  /-- What happened, the latest first. -/
  journal : List Event

namespace Session

/-- The session before the first of so many instructions. -/
def start (fuel instructions : Nat) : Session where
  fuel := fuel
  current := 0
  statements := []
  funded := false
  fundedAmount := 0
  guests := []
  instances := []
  jigs := []
  frames := []
  nextIndex := instructions
  deploys := []
  journal := []

/-- On whose behalf code is running. -/
def caller (s : Session) : Caller :=
  match s.frames with
  | [] => .transaction
  | frame :: _ => frame.identity

/-- On whose behalf the code was called that is running. -/
def outerCaller (s : Session) : Caller :=
  match s.frames with
  | _ :: below :: _ => below.identity
  | _ => .transaction

/-- The index of the last item that satisfies a condition. -/
def lastIndex? {α : Type} (p : α → Bool) (items : List α) : Option Nat :=
  (items.reverse.findIdx? p).map fun n => items.length - 1 - n

/-- The index of the package with an id among those that run. -/
def instanceIndex? (s : Session) (id : PackageId) : Option Nat :=
  lastIndex? (fun i : PackageInstance => i.package.id = id) s.instances

/-- The index of the jig with an origin among those touched. -/
def jigIndex? (s : Session) (origin : Pointer) : Option Nat :=
  lastIndex? (fun j : TouchedJig => j.origin = origin) s.jigs

/-- What locks need to know about the code that is running. -/
def authority (s : Session) (c : Context) : Authority where
  caller := s.caller
  isSignedBy a := c.signers.any fun signer =>
    signer.address = a && signer.coverage.covers s.current

/-- The session with one more thing that happened. -/
def record (s : Session) (e : Event) : Session := { s with journal := e :: s.journal }

/-- A touched jig has a new lock; nothing else about it changes. -/
def withLock (s : Session) (idx : Nat) (lock : Lock) : Session :=
  { s with jigs := s.jigs.modify idx fun j => { j with lock := lock } }

/-- An instruction begins. -/
def began (s : Session) (idx : Nat) : Session := { s with current := idx }.record (.began idx)

/-- There is one more guest. -/
def launched (s : Session) (guest : Guest) : Session :=
  { s with guests := s.guests ++ [guest] }.record (.launched s.guests.length)

/-- One more package runs. -/
def started (s : Session) (inst : PackageInstance) : Session :=
  { s with instances := s.instances ++ [inst] }.record (.started inst)

/-- One more jig has been touched. -/
def made (s : Session) (jig : TouchedJig) : Session :=
  { s with jigs := s.jigs ++ [jig] }.record (.made jig)

/-- A call has a frame on the stack. -/
def entered (s : Session) (entry : Entry) (frame : Frame) (callee : Abi.Callable)
    (args : List Value) : Session :=
  { s with frames := frame :: s.frames }.record (.entered entry frame callee args)

/-- The top frame is off the stack. -/
def left (s : Session) : Session := { s with frames := s.frames.tail }.record .left

/-- The lock of a touched jig has been replaced. -/
def relocked (s : Session) (idx : Nat) (lock : Lock) : Session :=
  (s.withLock idx lock).record (.relocked idx lock)

/-- A touched jig has been spent as a coin of an amount. -/
def spent (s : Session) (idx : Nat) (amount : UInt64) : Session :=
  { s.withLock idx .frozen with
    funded := true
    fundedAmount := UInt64.ofNat (min (s.fundedAmount.toNat + amount.toNat) (UInt64.size - 1))
  }.record (.spent idx)

/-- What guests printed, in order. -/
def printed (s : Session) : List (Caller × String) :=
  s.journal.reverse.filterMap fun
    | .printed caller message => some (caller, message)
    | _ => none

end Session

end JigLedger.Engine

namespace JigLedger

/-- A computation in a session. What it did to the session stays, also when it fails. -/
abbrev Engine (α : Type) := ExceptT Failure (StateM Engine.Session) α

namespace Engine

/-- Runs a computation from a session on: its result, and the session afterwards. -/
def runFrom {α : Type} (s : Session) (m : Engine α) : Except Failure α × Session :=
  (ExceptT.run m).run s

/-- Fails with an execution error. -/
def fail {α : Type} (e : ExecError) : Engine α := throw (.ofError e)

/-- Fails with a message. -/
def failPlain {α : Type} (message : String) : Engine α := throw (.plain message)

/-- Goes on with a result, or fails with the message of what went wrong. -/
def orPlain {ε α : Type} (message : ε → String) : Except ε α → Engine α
  | .ok a => pure a
  | .error e => failPlain (message e)

/-- Goes on with a result, or fails with an execution error. -/
def orError {ε α : Type} (error : ε → ExecError) : Except ε α → Engine α
  | .ok a => pure a
  | .error e => fail (error e)

/-- Goes on with something that is there, or fails. -/
def orMissing {α : Type} (error : ExecError) : Option α → Engine α
  | some a => pure a
  | none => fail error

/-- Puts the failure of a computation into a context. -/
def inContext {α : Type} (context : String) (m : Engine α) : Engine α :=
  tryCatch m fun failure => throw (failure.within context)

/-- Notes something that happened. -/
def note (e : Event) : Engine Unit := modify (·.record e)

/-- What locks need to know about the code that is running. -/
def authority (c : Context) : Engine Authority := do return (← get).authority c

/-- The package with an index among those that run. -/
def instanceAt (idx : Nat) : Engine PackageInstance := do
  orMissing (.broken s!"no instance {idx}") (← get).instances[idx]?

/-- The touched jig with an index. -/
def jigAt (idx : Nat) : Engine TouchedJig := do
  orMissing (.broken s!"no jig {idx}") (← get).jigs[idx]?

/-- The guest with an index. -/
def guestAt (idx : Nat) : Engine Guest := do
  orMissing (.broken s!"no guest {idx}") (← get).guests[idx]?

/-- Replaces the machine of a guest. -/
def setMachine (idx : Nat) (machine : Wasm.Instance) : Engine Unit :=
  modify fun s => { s with guests := s.guests.modify idx fun g => { g with machine := machine } }

/-- The pointer of a jig that is made or emitted again. -/
def freshPointer (c : Context) : Engine Pointer := do
  let s ← get
  set { s with nextIndex := s.nextIndex + 1 }
  return ⟨c.txHash, UInt32.ofNat s.nextIndex⟩

/-- The statement with an index. -/
def statementAt (idx : UInt16) : Engine Statement := do
  let s ← get
  orMissing (.failed
    s!"statement {idx.toNat} out of bounds ({s.statements.length} available)")
    s.statements[idx.toNat]?

/-- The package that a statement gives. -/
def packageStatement (idx : UInt16) : Engine PackageId := do
  match ← statementAt idx with
  | .package id => return id
  | _ => fail (.failed s!"statement {idx.toNat} is not a package")

/-- The jig that a statement gives. -/
def jigStatement (idx : UInt16) : Engine Pointer := do
  match ← statementAt idx with
  | .jig origin => return origin
  | _ => fail (.failed s!"statement {idx.toNat} is not a jig")

end Engine

end JigLedger
