import JigLedger.Engine.Instruction
import JigLedger.Transaction.Wire

/-!
# Executing a transaction

All signatures are checked first. Then the instructions run one after the other; the first failure
ends the transaction and names the instruction. In the end every touched jig is written down: a
frozen jig is spent and leaves no output, and a jig that is still unlocked is an error.
-/

namespace JigLedger

/-- What a transaction has done, for whoever commits it. -/
structure ExecutionResult where
  txHash : Block 32
  /-- New and updated jigs, in the order in which they were touched first. -/
  outputs : List Output
  /-- The outputs that are consumed. -/
  spends : List Spend
  /-- The packages that are deployed. -/
  deploys : List Package
  /-- The fuel of each instruction. -/
  instructionFuel : List Nat
  /-- The sum of the coins that paid for the transaction. -/
  fundedAmount : UInt64

namespace ExecutionResult

/-- The origins of the outputs that are consumed. -/
def spentOrigins (r : ExecutionResult) : List Pointer := r.spends.map (·.origin)

/-- The ids of the packages that are deployed. -/
def deployIds (r : ExecutionResult) : List PackageId := r.deploys.map (·.id)

/-- The output of a jig. -/
def outputFor (r : ExecutionResult) (origin : Pointer) : Option Output :=
  r.outputs.find? (·.origin = origin)

/-- The encoding of what everybody has to agree on: outputs, consumed origins and packages. -/
def toBytes (r : ExecutionResult) : Except Wire.Fault Bytes :=
  let codec := (Wire.Codec.list Wire.Codec.output).pair
    ((Wire.Codec.list Wire.Codec.pointer).pair (Wire.Codec.list Wire.Codec.packageId))
  codec.write (r.outputs, r.spentOrigins, r.deployIds)

/-- The message of a fault in writing a result. -/
def encodeMessage (fault : Wire.Fault) : String := s!"encode execution result: {fault.message}"

end ExecutionResult

namespace Engine

/-- The signature in an instruction, its key, what it covers, and the position up to which it
signs; `size` is the number of instructions. -/
def signature? (size idx : Nat) : Instruction → Option (Bytes × Bytes × Coverage × Nat)
  | .sign signature key => some (signature, key, .whole, size)
  | .signTo signature key => some (signature, key, .before idx, idx)
  | _ => none

/-- Checks one signature; its signer. -/
def checkSignature (v : Verifier) (tx : Transaction) (idx : Nat) (signature key : Bytes)
    (coverage : Coverage) (position : Nat) : Except ExecError Signer := do
  let message ← (tx.signingHash position).mapError fun fault =>
    (ExecError.failed (Transaction.payloadMessage fault)).withInstruction idx
  if !v.verify signature message.bytes key then
    .error ((ExecError.refused "invalid signature").withInstruction idx)
  else
    let address ← (v.addressOf key).mapError fun reason =>
      (ExecError.refused reason).withInstruction idx
    return ⟨address, coverage⟩

/-- Checks the signatures in the instructions from index `idx` on, and returns their signers. -/
def signersFrom (v : Verifier) (tx : Transaction) : (idx : Nat) → List Instruction →
    Except ExecError (List Signer)
  | _, [] => .ok []
  | idx, i :: rest =>
    match signature? tx.size idx i with
    | none => signersFrom v tx (idx + 1) rest
    | some (signature, key, coverage, position) => do
      let signer ← checkSignature v tx idx signature key coverage position
      let signers ← signersFrom v tx (idx + 1) rest
      return signer :: signers

/-- Checks all signatures of a transaction, and returns their signers. -/
def signers (v : Verifier) (tx : Transaction) : Except ExecError (List Signer) :=
  signersFrom v tx 0 tx.instructions

/-- Runs the instruction with index `idx` and notes its statement; the fuel it took. -/
def step (h : Host) (idx : Nat) (i : Instruction) : Engine Nat := do
  let before := (← get).fuel
  modify (·.began idx)
  let statement ← h.instruction i
  modify fun s => { s with statements := s.statements ++ [statement] }
  return before - (← get).fuel

/-- Runs the instructions from index `idx` on; the fuel that each took. -/
def steps (h : Host) : (idx : Nat) → List Instruction → Engine (List Nat)
  | _, [] => return []
  | idx, i :: rest => do
    let fuel ← tryCatch (step h idx i) fun failure =>
      throw (.ofError (failure.toError.withInstruction idx))
    let more ← steps h (idx + 1) rest
    return fuel :: more

/-- What a touched jig leaves behind. -/
structure Leaving where
  spend : Option Spend
  output : Option Output

/-- Writes down a jig that is not frozen, at a location. -/
def outputOf (jig : TouchedJig) (lock : LockRecord) (cls : Abi.Class) (state : Bytes)
    (location : Pointer) : Output :=
  ⟨jig.origin, location, .ofExport cls.ref.package (UInt32.ofNat jig.classIdx), lock, state⟩

/-- The output of a jig that was loaded, or of a new one. -/
def spendOf (jig : TouchedJig) : Option Spend := jig.previous.map fun p => ⟨jig.origin, p⟩

/-- Writes down one touched jig. -/
def settle (c : Context) (jig : TouchedJig) : Engine Leaving := do
  let spend := spendOf jig
  if jig.lock.isFrozen then return ⟨spend, none⟩
  else
    let lock ← orError id (jig.lock.toRecord jig.origin)
    let cls ← Host.classOfJig jig
    let values ← look jig.home fun m => Ty.readFieldsAt m cls.fields jig.address
    let state ← orError (fun e => .failed s!"jig {jig.origin.toText}: {ValueError.message e}")
      (Ty.encodeState cls.fieldTypes values)
    let location ← match spend with
      | none => pure jig.origin
      | some _ => freshPointer c
    return ⟨spend, some (outputOf jig lock cls state location)⟩

/-- Writes down all touched jigs. -/
def finalize (c : Context) : Engine (List Output × List Spend) := do
  let leavings ← (← get).jigs.mapM (settle c)
  return (leavings.filterMap (·.output), leavings.filterMap (·.spend))

/-- Runs all instructions and writes down what they leave. -/
def transact (c : Context) (tx : Transaction) : Engine ExecutionResult := do
  let instructionFuel ← steps (host c) 0 tx.instructions
  let (outputs, spends) ← finalize c
  let s ← get
  return {
    txHash := c.txHash, outputs, spends, deploys := s.deploys, instructionFuel,
    fundedAmount := s.fundedAmount }

/-- The context of a transaction whose signatures are all valid. -/
def contextOf (env : Env) (tx : Transaction) : Except ExecError Context := do
  let txHash ← tx.hash.mapError fun fault => .failed (Transaction.encodeMessage fault)
  let signers ← signers env.verifier tx
  return ⟨env, txHash, signers⟩

/-- Runs a transaction in a session of its own: its result, and the session afterwards. -/
def runTransaction (c : Context) (tx : Transaction) : Except Failure ExecutionResult × Session :=
  runFrom (.start c.env.config.fuelLimit tx.size) (transact c tx)

/-- Executes a transaction: its result, and what guests printed. Nothing is changed. -/
def execute (env : Env) (tx : Transaction) :
    Except ExecError ExecutionResult × List (Caller × String) :=
  match contextOf env tx with
  | .error e => (.error e, [])
  | .ok c =>
    let (result, s) := runTransaction c tx
    (result.mapError Failure.toError, s.printed)

end Engine

end JigLedger
