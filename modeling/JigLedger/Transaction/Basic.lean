import JigLedger.Identifier
import JigLedger.Sources

/-!
# Transactions

A transaction is a list of instructions. Each instruction appends one statement, and later
instructions name earlier statements by their index.
-/

namespace JigLedger

/-- The kinds of instructions. -/
inductive Opcode where
  | importPackage
  | load
  | loadByOrigin
  | new
  | exec
  | execFunction
  | fund
  | lock
  | deploy
  | sign
  | signTo
deriving DecidableEq, Repr

namespace Opcode

/-- The byte of a kind. -/
def byte : Opcode → UInt8
  | importPackage => 0xA1
  | load => 0xA2
  | loadByOrigin => 0xA3
  | new => 0xB1
  | exec => 0xB2
  | execFunction => 0xB4
  | fund => 0xC1
  | lock => 0xC2
  | deploy => 0xD1
  | sign => 0xE1
  | signTo => 0xE2

/-- The name of a kind. -/
def name : Opcode → String
  | importPackage => "IMPORT"
  | load => "LOAD"
  | loadByOrigin => "LOADBYORIGIN"
  | new => "NEW"
  | exec => "EXEC"
  | execFunction => "EXECFUNC"
  | fund => "FUND"
  | lock => "LOCK"
  | deploy => "DEPLOY"
  | sign => "SIGN"
  | signTo => "SIGNTO"

/-- The kinds that change state and need a funded transaction. -/
def requiresFunding : Opcode → Bool
  | new | exec | execFunction | lock | deploy => true
  | _ => false

end Opcode

/-- An argument of a call. -/
inductive Arg where
  /-- The encoding of a value without jigs. -/
  | value (bytes : Bytes)
  /-- The result of the instruction with this index. -/
  | ref (statement : UInt16)
deriving DecidableEq, Repr

/-- The lock that an instruction asks for. -/
inductive LockSpec where
  | address (a : Address)
  | everyone
  | frozen
  /-- Refused in a transaction. -/
  | jig (parent : Pointer)
deriving DecidableEq, Repr

/-- One step of a transaction. -/
inductive Instruction where
  /-- Makes a package available. -/
  | importPackage (id : PackageId)
  /-- Loads the jig that is at a place. -/
  | load (location : Pointer)
  /-- Loads the jig with an origin. -/
  | loadByOrigin (origin : Pointer)
  /-- Constructs a jig; the class is given by its export index. -/
  | new (package classIdx : UInt16) (args : List Arg)
  /-- Calls a method; it is given by its index in the method table of the class. -/
  | exec (jig method : UInt16) (args : List Arg)
  /-- Calls a function; it is given by its export index. -/
  | execFunction (package function : UInt16) (args : List Arg)
  /-- Spends a coin to pay for the transaction. -/
  | fund (coin : UInt16)
  /-- Replaces the lock of a jig. -/
  | lock (jig : UInt16) (lock : LockSpec)
  /-- Builds a package and makes it available. -/
  | deploy (entries : List String) (sources : Sources)
  /-- A signature over the whole transaction. -/
  | sign (signature publicKey : Bytes)
  /-- A signature over the instructions before this one. -/
  | signTo (signature publicKey : Bytes)
deriving DecidableEq, Repr

namespace Instruction

/-- The kind of an instruction. -/
def opcode : Instruction → Opcode
  | importPackage .. => .importPackage
  | load .. => .load
  | loadByOrigin .. => .loadByOrigin
  | new .. => .new
  | exec .. => .exec
  | execFunction .. => .execFunction
  | fund .. => .fund
  | lock .. => .lock
  | deploy .. => .deploy
  | sign .. => .sign
  | signTo .. => .signTo

/-- The instruction without the bytes of its signature. -/
def blanked : Instruction → Instruction
  | sign _ key => sign [] key
  | signTo _ key => signTo [] key
  | i => i

@[simp] theorem blanked_blanked (i : Instruction) : i.blanked.blanked = i.blanked := by
  cases i <;> rfl

@[simp] theorem opcode_blanked (i : Instruction) : i.blanked.opcode = i.opcode := by
  cases i <;> rfl

end Instruction

/-- A list of instructions. -/
structure Transaction where
  instructions : List Instruction
deriving DecidableEq, Repr

namespace Transaction

/-- The number of instructions. -/
def size (tx : Transaction) : Nat := tx.instructions.length

/-- There are no instructions. -/
def isEmpty (tx : Transaction) : Bool := tx.instructions.isEmpty

/-- The transaction with one more instruction. -/
def push (tx : Transaction) (i : Instruction) : Transaction := ⟨tx.instructions ++ [i]⟩

/-- The instructions before position `n`, without the bytes of their signatures: what a signature
at that position covers. -/
def covered (tx : Transaction) (n : Nat) : List Instruction :=
  (tx.instructions.take n).map Instruction.blanked

end Transaction

end JigLedger
