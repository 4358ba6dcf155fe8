import JigLedger.Identifier

/-!
# Failures

Whatever goes wrong while a transaction runs ends it. An `ExecError` says who is expected to act:
permission and execution errors are ordinary rejections, a broken invariant needs an operator, and
a path that is rejected on purpose says so. A `Failure` is a cause with the contexts in which it
arose; at the border of the engine every failure becomes an `ExecError`.
-/

namespace JigLedger

/-- On whose behalf code is running. -/
inductive Caller where
  /-- A top-level instruction, with no jig on the stack. -/
  | transaction
  /-- Code inside a method or constructor of the jig with this origin. -/
  | jig (origin : Pointer)
deriving DecidableEq, Repr

/-- The text of a caller. -/
def Caller.toText : Caller → String
  | transaction => "transaction"
  | jig origin => s!"jig {origin.toText}"

/-- Why a transaction was rejected. -/
inductive ExecError where
  /-- A lock refused an operation. -/
  | permission (message : String) (instruction : Option Nat) (origin : Option Pointer)
      (caller : Option Caller)
  /-- A trap, exhausted fuel, a bad argument or a failed precondition. -/
  | execution (message : String) (instruction : Option Nat) (origin : Option Pointer)
  /-- A state that should be impossible. -/
  | invariantBroken (message : String) (instruction : Option Nat)
  /-- A path that is rejected on purpose. -/
  | notImplemented (feature : String) (instruction : Option Nat)
deriving DecidableEq, Repr

namespace ExecError

/-- A permission error without details. -/
def refused (message : String) : ExecError := .permission message none none none

/-- An execution error without details. -/
def failed (message : String) : ExecError := .execution message none none

/-- A broken invariant without details. -/
def broken (message : String) : ExecError := .invariantBroken message none

/-- A path that is rejected on purpose, without details. -/
def missing (feature : String) : ExecError := .notImplemented feature none

/-- Names the failing instruction unless one is named already. -/
def withInstruction (index : Nat) : ExecError → ExecError
  | permission m i o c => permission m (i <|> some index) o c
  | execution m i o => execution m (i <|> some index) o
  | invariantBroken m i => invariantBroken m (i <|> some index)
  | notImplemented f i => notImplemented f (i <|> some index)

/-- Names the jig concerned unless one is named already. -/
def withOrigin (jig : Pointer) : ExecError → ExecError
  | permission m i o c => permission m i (o <|> some jig) c
  | execution m i o => execution m i (o <|> some jig)
  | e => e

/-- Names the caller refused unless one is named already. -/
def withCaller (who : Caller) : ExecError → ExecError
  | permission m i o c => permission m i o (c <|> some who)
  | e => e

/-- The instruction that failed. -/
def instruction? : ExecError → Option Nat
  | permission _ i _ _ => i
  | execution _ i _ => i
  | invariantBroken _ i => i
  | notImplemented _ i => i

/-- The jig concerned. -/
def origin? : ExecError → Option Pointer
  | permission _ _ o _ => o
  | execution _ _ o => o
  | _ => none

/-- The caller refused. -/
def caller? : ExecError → Option Caller
  | permission _ _ _ c => c
  | _ => none

/-- A lock refused an operation. -/
def isPermission : ExecError → Bool
  | permission .. => true
  | _ => false

/-- The transaction is to blame. -/
def isExecution : ExecError → Bool
  | execution .. => true
  | _ => false

/-- A state was found that should be impossible. -/
def isInvariantBroken : ExecError → Bool
  | invariantBroken .. => true
  | _ => false

/-- The path is rejected on purpose. -/
def isNotImplemented : ExecError → Bool
  | notImplemented .. => true
  | _ => false

/-- Only broken invariants need a human. -/
def needsOperator (e : ExecError) : Bool := e.isInvariantBroken

/-- The text of an optional detail. -/
def detail {α : Type} (text : α → String) : Option α → String
  | none => ""
  | some a => text a

/-- The jig concerned, as a detail. -/
def originText (o : Option Pointer) : String := detail (fun p => s!" (jig {p.toText})") o

/-- The caller refused, as a detail. -/
def callerText (c : Option Caller) : String := detail (fun c => s!" (caller {c.toText})") c

/-- The failing instruction, as a detail. -/
def instructionText (i : Option Nat) : String := detail (fun i => s!" at instruction #{i}") i

/-- The text of an error with all its details. -/
def toText : ExecError → String
  | permission m i o c =>
    s!"PermissionError: {m}" ++ originText o ++ callerText c ++ instructionText i
  | execution m i o => s!"ExecutionError: {m}" ++ originText o ++ instructionText i
  | invariantBroken m i => s!"InvariantBroken [operator attention]: {m}" ++ instructionText i
  | notImplemented f i => s!"NotImplemented: {f}" ++ instructionText i

end ExecError

/-- Why a guest machine stopped in the middle of its code. -/
inductive Trap where
  | outOfFuel
  | unreachable
  | divisionByZero
  | integerOverflow
  | memoryOutOfBounds
  | stackOverflow
deriving DecidableEq, Repr

/-- The wording of a trap. -/
def Trap.message : Trap → String
  | outOfFuel => "wasm trap: all fuel consumed by WebAssembly"
  | unreachable => "wasm trap: wasm `unreachable` instruction executed"
  | divisionByZero => "wasm trap: integer divide by zero"
  | integerOverflow => "wasm trap: integer overflow"
  | memoryOutOfBounds => "wasm trap: out of bounds memory access"
  | stackOverflow => "wasm trap: call stack exhausted"

/-- The cause of a failure. -/
inductive Cause where
  | exec (error : ExecError)
  | trap (trap : Trap)
  | plain (message : String)
deriving DecidableEq, Repr

/-- The text of a cause. -/
def Cause.toText : Cause → String
  | exec e => e.toText
  | trap t => t.message
  | plain m => m

/-- A cause with the contexts in which it arose, the outermost first. -/
structure Failure where
  cause : Cause
  contexts : List String
deriving DecidableEq, Repr

namespace Failure

/-- A failure that is no more than a message. -/
def plain (message : String) : Failure := ⟨.plain message, []⟩

/-- A failure with an execution error as its cause. -/
def ofError (e : ExecError) : Failure := ⟨.exec e, []⟩

/-- A trap. -/
def ofTrap (t : Trap) : Failure := ⟨.trap t, []⟩

/-- The failure seen from a wider context. -/
def within (context : String) (f : Failure) : Failure :=
  { f with contexts := context :: f.contexts }

/-- The contexts and the cause, the outermost first. -/
def toText (f : Failure) : String := ": ".intercalate (f.contexts ++ [f.cause.toText])

/-- The execution error that a failure amounts to. Contexts are kept only in the message of a
failure whose cause is neither an execution error nor a trap. -/
def toError (f : Failure) : ExecError :=
  match f.cause with
  | .exec e => e
  | .trap .outOfFuel => .failed "fuel exhausted"
  | .trap t => .failed s!"guest trap: {t.message}"
  | .plain _ => .failed f.toText

end Failure

/-- Puts the failure of a computation into a context. -/
def within {α : Type} (context : String) : Except Failure α → Except Failure α :=
  Except.mapError (Failure.within context)

end JigLedger
