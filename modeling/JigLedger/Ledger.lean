import JigLedger.Engine.Execution

/-!
# The ledger

The ledger is the registry of packages and the store of outputs. It changes only as a whole: by
deploying a package, by minting a coin, and by committing the result of a transaction. Transactions
are executed against it without changing it.
-/

namespace JigLedger

/-- All that is kept between transactions. -/
structure Ledger where
  registry : Registry
  store : Store

/-- How transactions are run and checked. -/
structure Policy where
  config : Config
  compiler : Compiler
  verifier : Verifier

/-- Why a coin could not be minted. -/
inductive MintError where
  | noCoinPackage
  | unknownPackage (id : PackageId)
  | noClass (id : PackageId) (name : String)
  | noAmount (cls : ClassRef)
  | noZero (ty : Ty)
  | encodeSeed (fault : Wire.Fault)
  | state (error : ValueError)
  | lock (error : ExecError)
  | store (error : StoreError)

/-- The wording of a refusal. -/
def MintError.message : MintError → String
  | noCoinPackage => "minting requires coin_package to be configured"
  | unknownPackage id => s!"coin package {id.toText} is not registered"
  | noClass id name => s!"package {id.toText} has no class {name}"
  | noAmount cls => s!"{cls.toText} has no u64 amount field"
  | noZero t => Ty.noZeroMessage t
  | encodeSeed fault => fault.message
  | state e => e.message
  | lock e => e.toText
  | store e => e.message

namespace Ledger

/-- The ledger with nothing in it. -/
def empty : Ledger := ⟨.empty, .empty⟩

instance : Inhabited Ledger := ⟨empty⟩

/-- Where transactions run. -/
def env (l : Ledger) (p : Policy) : Engine.Env :=
  ⟨p.config, l.registry, l.store, p.compiler, p.verifier⟩

/-! ### Deploying -/

/-- Builds a package and registers it. -/
def deploy (l : Ledger) (p : Policy) (entries : List String) (sources : Sources) :
    Except Failure (PackageId × Ledger) := do
  let artifacts ← (p.compiler entries sources).mapError fun e => .plain e.message
  let package ← (Package.build entries sources artifacts).mapError fun e => .plain e.message
  let registry ← (l.registry.add package).mapError fun e => .plain e.message
  return (package.id, { l with registry := registry })

/-! ### Minting -/

/-- The words in front of what the origin of a minted coin is made of. -/
def mintDomain : String := "jigvm-mint"

/-- The bytes whose digest is the id of the origin of a minted coin. -/
def mintPayload (owner : Address) (amount seed : UInt64) : Except Wire.Fault Bytes :=
  let codec := Wire.Codec.text.pair
    (Wire.Codec.address.pair (Wire.Codec.u64.pair Wire.Codec.u64))
  codec.write (mintDomain, owner, amount, seed)

/-- The class of coins. -/
def coinClass (l : Ledger) (config : Config) : Except MintError (PackageId × Abi.Class) := do
  let some id := config.coinPackage | .error .noCoinPackage
  let some package := l.registry.get? id | .error (.unknownPackage id)
  match package.abi.classNamed? config.coinClassName with
  | some cls => return (id, cls)
  | none => .error (.noClass id config.coinClassName)

/-- A field holds the amount of a coin. -/
def isAmount (f : Field) : Bool :=
  f.name = "amount" && match f.ty with
    | .u64 => true
    | _ => false

/-- The value of a field of a new coin: the amount, or zero. -/
def mintedValue (amount : UInt64) (f : Field) : Except MintError Value :=
  if f.name = "amount" then .ok (.u64 amount) else f.ty.zero.mapError .noZero

/-- The output of a coin that belongs to `owner`. Its origin is made of the owner, the amount and
the seed, so that the same coin is not minted twice. -/
def mintedOutput (l : Ledger) (config : Config) (owner : Address) (amount seed : UInt64) :
    Except MintError Output := do
  let (id, cls) ← l.coinClass config
  if !cls.fields.any isAmount then .error (.noAmount cls.ref)
  else
    let values ← cls.fields.mapM (mintedValue amount)
    let payload ← (mintPayload owner amount seed).mapError .encodeSeed
    let origin : Pointer := ⟨Sha256.digest payload, 0⟩
    let lock ← ((Lock.address owner).toRecord origin).mapError .lock
    let state ← (Ty.encodeState cls.fieldTypes values).mapError .state
    return ⟨origin, origin, .ofExport id (UInt32.ofNat cls.exportIdx), lock, state⟩

/-- Mints a coin. -/
def mint (l : Ledger) (config : Config) (owner : Address) (amount seed : UInt64) :
    Except MintError (Output × Ledger) := do
  let o ← l.mintedOutput config owner amount seed
  let store ← (l.store.insert o).mapError .store
  return (o, { l with store := store })

/-! ### Transactions -/

/-- Executes a transaction: its result, and what guests printed. -/
def execute (l : Ledger) (p : Policy) (tx : Transaction) :
    Except ExecError ExecutionResult × List (Caller × String) :=
  Engine.execute (l.env p) tx

/-- Registers packages one after the other. -/
def registerAll (r : Registry) (packages : List Package) : Except AlreadyRegistered Registry :=
  packages.foldlM Registry.add r

/-- Commits the result of a transaction: its spends are consumed, its outputs are added and its
packages are registered. -/
def commit (l : Ledger) (r : ExecutionResult) : Except Failure Ledger := do
  match r.deploys.find? fun p => l.registry.contains p.id with
  | some p => .error (.plain (AlreadyRegistered.mk p.id).message)
  | none =>
    let store ← (l.store.apply r.spends r.outputs).mapError fun e => .plain e.message
    let registry ← (registerAll l.registry r.deploys).mapError fun e => .plain e.message
    return ⟨registry, store⟩

/-- Executes a transaction and commits its result: the result, the ledger afterwards, and what
guests printed. -/
def runTransaction (l : Ledger) (p : Policy) (tx : Transaction) :
    Except Failure (ExecutionResult × Ledger) × List (Caller × String) :=
  let (result, printed) := l.execute p tx
  let committed := do
    let r ← result.mapError .ofError
    let after ← within "commit execution result" (l.commit r)
    return (r, after)
  (committed, printed)

/-- What running several transactions has come to. -/
structure Replay where
  /-- The ledger after the transactions that succeeded. -/
  ledger : Ledger
  /-- The results of all transactions, or the first failure. -/
  results : Except Failure (List ExecutionResult)
  printed : List (Caller × String)

/-- Runs the transactions from number `idx` on, each on the ledger that the ones before it have
left. The first failure ends the run; what was committed before it stays. -/
def replayFrom (p : Policy) : (idx : Nat) → Ledger → List Transaction → Replay
  | _, l, [] => ⟨l, .ok [], []⟩
  | idx, l, tx :: rest =>
    match l.runTransaction p tx with
    | (.error failure, printed) =>
      ⟨l, .error (failure.within s!"transaction {idx} failed"), printed⟩
    | (.ok (r, after), printed) =>
      let more := replayFrom p (idx + 1) after rest
      { more with results := more.results.map (r :: ·), printed := printed ++ more.printed }

/-- Runs transactions one after the other. -/
def replay (l : Ledger) (p : Policy) (txs : List Transaction) : Replay := replayFrom p 0 l txs

end Ledger

end JigLedger
