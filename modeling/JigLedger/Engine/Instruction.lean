import JigLedger.Engine.Run
import JigLedger.Transaction.Basic

/-!
# Instructions

Each instruction runs in the session that the ones before it have left, and gives a statement.
Instructions that change anything need a transaction that has been paid for.
-/

namespace JigLedger.Engine

/-- The value that an argument gives to a parameter. Bytes cannot hold jigs; those are passed as
references to statements. -/
def argValue (param : Field) : Arg → Engine Value
  | .value bytes =>
    if param.ty.containsJig then
      fail (.failed s!"argument {param.name} holds jigs and must be passed by reference")
    else
      orError (fun e => .failed s!"argument {param.name}: {ValueError.message e}")
        (param.ty.decode bytes)
  | .ref idx => do
    match ← statementAt idx with
    | .jig origin => return .jig origin
    | .value _ v => return v
    | .package _ | .nothing => fail (.failed s!"statement {idx.toNat} has no value")

/-- The values of arguments, each checked against the type of its parameter. -/
def argValues : List Field → List Arg → Engine (List Value)
  | param :: params, arg :: args => do
    let v ← argValue param arg
    orError (fun e => .failed s!"argument {param.name}: {ValueError.message e}") (param.ty.check v)
    let rest ← argValues params args
    return v :: rest
  | _, _ => return []

/-- The values of the arguments of a call. -/
def resolveArgs (params : List Field) (args : List Arg) : Engine (List Value) := do
  if params.length = args.length then argValues params args
  else fail (.failed s!"expected {params.length} arguments, got {args.length}")

/-- The values of the arguments of a call, all of which go into their slots. -/
def checkedArgs (c : Context) (params : List Field) (args : List Arg) : Engine (List Value) := do
  let values ← resolveArgs params args
  checkJigs c params values
  return values

/-- The place of the amount in the class of a coin. -/
def amountField? (cls : Abi.Class) : Option Field :=
  (cls.field? "amount").filter fun f => match f.ty with
    | .u64 => true
    | _ => false

/-- A class is that of coins. -/
def isCoin (config : Config) (cls : Abi.Class) : Bool :=
  cls.name = config.coinClassName && config.coinPackage.all (· = cls.ref.package)

/-- Pays for the transaction with a touched coin. -/
def pay (c : Context) (origin : Pointer) (idx : Nat) : Engine Unit := do
  let config := c.env.config
  let jig ← jigAt idx
  let cls ← Host.classOfJig jig
  if !isCoin config cls then fail (.failed s!"jig {origin.toText} is not a coin")
  else
    let field ← orMissing (.failed "coin class has no u64 amount field") (amountField? cls)
    let auth ← authority c
    orError (·.withOrigin origin) (jig.lock.assertOpen auth)
    let value ← look jig.home fun m => field.ty.readValue m (jig.address + field.offset)
    match value.asU64? with
    | none => failPlain "coin amount is not a u64"
    | some amount =>
      if amount < config.minFundAmount then
        fail (.failed
          s!"coin amount {amount.toNat} below minimum {config.minFundAmount.toNat}")
      else modify (·.spent idx amount)

namespace Host

variable (h : Host)

/-- Pays for the transaction with a coin. -/
def fund (coin : UInt16) : Engine Unit := do
  let origin ← jigStatement coin
  let idx ← h.resolve origin
  pay h.context origin idx

/-- Constructs a jig; its origin. -/
def new (package classIdx : UInt16) (args : List Arg) : Engine Pointer := do
  let id ← packageStatement package
  let home ← h.instanceFor id
  let cls ← orError (fun e => .failed (AbiError.message e))
    ((← instanceAt home).package.abi.classAt classIdx.toNat)
  let values ← checkedArgs h.context cls.constructor.params args
  let idx ← h.construct home classIdx.toNat values
  return (← jigAt idx).origin

/-- Calls a method; the statement of its result. -/
def exec (jig methodIdx : UInt16) (args : List Arg) : Engine Statement := do
  let origin ← jigStatement jig
  let idx ← h.resolve origin
  let cls ← classOfJig (← jigAt idx)
  let method ← methodAt cls methodIdx.toNat
  let values ← checkedArgs h.context method.params args
  return .ofResult method.result (← h.callMethod idx method values)

/-- Calls a function; the statement of its result. -/
def execFunction (package functionIdx : UInt16) (args : List Arg) : Engine Statement := do
  let id ← packageStatement package
  let home ← h.instanceFor id
  let function ← orError (fun e => .failed (AbiError.message e))
    ((← instanceAt home).package.abi.functionAt functionIdx.toNat)
  let values ← checkedArgs h.context function.params args
  return .ofResult function.result (← h.callFunction home function values)

/-- The lock that an instruction asks for. -/
def specifiedLock : LockSpec → Except ExecError Lock
  | .address a => .ok (.address a)
  | .everyone => .ok .everyone
  | .frozen => .ok .frozen
  | .jig _ => .error (.missing "locking a jig to another jig from the transaction")

/-- Replaces the lock of a jig. -/
def lock (jig : UInt16) (spec : LockSpec) : Engine Unit := do
  let origin ← jigStatement jig
  let idx ← h.resolve origin
  let lock ← orError id (specifiedLock spec)
  changeLock h.context idx lock

/-- Builds a package and makes it available to the rest of the transaction; its id. -/
def deploy (entries : List String) (sources : Sources) : Engine PackageId := do
  let id ← orPlain Package.contentMessage (Package.contentId entries sources)
  if (← package? h.context id).isSome then
    fail (.failed s!"package {id.toText} already deployed")
  else
    let artifacts ← orError (fun e => .failed s!"compile failed: {CompileError.message e}")
      (h.context.env.compiler entries sources)
    let p ← orError (fun e => .failed (Package.BuildError.message e))
      (Package.build entries sources artifacts)
    modify fun s => { s with deploys := s.deploys ++ [p] }
    return id

/-- Runs an instruction whose transaction has been paid for, if that is needed. -/
def perform : Instruction → Engine Statement
  | .importPackage id => do
    let _ ← h.instanceFor id
    return .package id
  | .load location => do return .jig (← h.loadByLocation location)
  | .loadByOrigin origin => do return .jig (← h.loadByOrigin origin)
  | .new package classIdx args => do return .jig (← h.new package classIdx args)
  | .exec jig method args => h.exec jig method args
  | .execFunction package function args => h.execFunction package function args
  | .fund coin => do
    h.fund coin
    return .nothing
  | .lock jig spec => do
    h.lock jig spec
    return .nothing
  | .deploy entries sources => do return .package (← h.deploy entries sources)
  | .sign _ _ | .signTo _ _ => return .nothing

/-- Runs an instruction. -/
def instruction (i : Instruction) : Engine Statement := do
  if i.opcode.requiresFunding && !(← get).funded then fail (.failed "not funded")
  else h.perform i

end Host

end JigLedger.Engine
