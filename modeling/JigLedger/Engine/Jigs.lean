import JigLedger.Engine.Guest

/-!
# Packages and jigs of a session

A package runs once it is needed, and a jig is loaded from the store when it is touched first. A
jig that has not been touched is judged by its stored output.
-/

namespace JigLedger.Engine

/-- The package with an id: one that this transaction deploys, or one that is registered. -/
def Session.package? (s : Session) (c : Context) (id : PackageId) : Option Package :=
  s.deploys.find? (·.id = id) <|> c.env.registry.get? id

/-- The package with an id, if there is one. -/
def package? (c : Context) (id : PackageId) : Engine (Option Package) := do
  return (← get).package? c id

/-- The package with an id, or a failure. -/
def packageOr (c : Context) (error : ExecError) (id : PackageId) : Engine Package := do
  orMissing error (← package? c id)

/-- Export `idx` of a package is what an import asks for. -/
def isTarget (kind : Abi.ImportKind) (a : Abi) (idx : Nat) : Bool :=
  match kind, a.exports[idx]? with
  | .ofClass, some (.ofClass _) => true
  | .ofFunction, some (.ofFunction _) => true
  | _, _ => false

/-- The export that an import leads to; an interface leads nowhere. -/
def importTarget (c : Context) (i : Abi.Import) : Engine (Option Nat) := do
  if i.kind = .ofInterface then return none
  else
    let p ← packageOr c (.failed s!"imported package {i.package.toText} is unknown") i.package
    match p.abi.exportIndex? i.name with
    | none => fail (.failed s!"package {i.package.toText} has no export {i.name}")
    | some idx =>
      if isTarget i.kind p.abi idx then return some idx
      else fail (.failed s!"export {i.name} of package {i.package.toText} is not a {i.kind.name}")

/-- The latest output of a jig. -/
def latestOutput (c : Context) (origin : Pointer) : Engine Output :=
  orMissing (.broken s!"jig {origin.toText} does not exist") (c.env.store.byOrigin origin)

/-- The error for an output whose package is not known. -/
def unregistered (id : PackageId) (origin : Pointer) : ExecError :=
  .broken s!"package {id.toText} of jig {origin.toText} is not registered"

/-- The package of the class of an output. -/
def packageOf (c : Context) (o : Output) : Engine Package := do
  let id : PackageId := ⟨o.classPtr.id⟩
  packageOr c (unregistered id o.origin) id

/-- Notes a touched jig; its index. -/
def register (jig : TouchedJig) : Engine Nat := do
  let s ← get
  set (s.made jig)
  return s.jigs.length

/-- Makes a jig unless it has been touched; its index. -/
def touch (origin : Pointer) (touched : Nat → Engine Nat) (make : Engine TouchedJig) :
    Engine Nat := do
  match (← get).jigIndex? origin with
  | some idx => touched idx
  | none =>
    note (.making origin)
    register (← make)

/-- Replaces the lock of a touched jig on behalf of the code that is running. -/
def changeLock (c : Context) (idx : Nat) (lock : Lock) : Engine Unit := do
  let jig ← jigAt idx
  let auth ← authority c
  if jig.lock.canBeChanged auth jig.origin then modify (·.relocked idx lock)
  else
    let error := ExecError.refused s!"cannot change {jig.lock.kindName} lock"
    fail ((error.withOrigin jig.origin).withCaller auth.caller)

/-- The class of a jig and the package that it belongs to: those it was loaded with, or those of
its latest output. -/
def classOf (c : Context) (origin : Pointer) : Engine Abi.Class := do
  match (← get).jigIndex? origin with
  | some idx =>
    let jig ← jigAt idx
    orPlain AbiError.message ((← instanceAt jig.home).package.abi.classAt jig.classIdx)
  | none =>
    let o ← latestOutput c origin
    orPlain AbiError.message ((← packageOf c o).abi.classAt o.classPtr.idx.toNat)

/-- A jig goes into a slot with a demand. -/
def conforms (c : Context) (origin : Pointer) (demand : JigTy) : Engine Bool := do
  if demand = .any then return true
  else return (← classOf c origin).conformsTo demand

/-- The jigs in a row of arguments, each with what its slot demands. -/
def jigsInArgs (params : List Field) (values : List Value) : List (Pointer × JigTy) :=
  Ty.jigsInFields params values

/-- Fails unless all jigs among the arguments go into their slots. -/
def checkJigs (c : Context) (params : List Field) (values : List Value) : Engine Unit :=
  (jigsInArgs params values).forM fun (origin, demand) => do
    if ← conforms c origin demand then pure ()
    else fail (.failed s!"jig {origin.toText} is not a {(Ty.jig demand).toText}")

namespace Host

variable (h : Host)

/-- Runs a package whose imports lead somewhere; its index. -/
def boot (p : Package) : Engine Nat := do
  let targets ← p.abi.imports.mapM (importTarget h.context)
  h.instantiate p targets

/-- The index of the package with an id among those that run; it starts when it is needed. -/
def instanceFor (id : PackageId) : Engine Nat := do
  match (← get).instanceIndex? id with
  | some idx => return idx
  | none =>
    let p ← packageOr h.context (.failed s!"unknown package {id.toText}") id
    h.boot p

/-- Builds the object of a stored jig in the memory of its package; its address. -/
def buildObject (home : Nat) (cls : Abi.Class) (origin : Pointer) (values : List Value) :
    Engine UInt32 := do
  let heap := h.heap home (.object home)
  let address ← heap.alloc cls.size
  Ty.writeOrigin heap address origin
  Ty.writeRecord heap cls.fields values address
  return address

/-- The lock that an output keeps a jig under. A frozen jig cannot be used any more. -/
def storedLock (o : Output) : Except ExecError Lock := do
  let lock ← Lock.ofRecord o.lock
  if lock.isFrozen then .error ((ExecError.refused "jig is frozen").withOrigin o.origin)
  else if o.lock.origin ≠ o.origin then
    .error (.broken s!"lock record of {o.origin.toText} names another jig")
  else .ok lock

/-- Brings the object of an output into the memory of a package that runs; the jig that it is. -/
def rehydrateIn (home : Nat) (o : Output) (lock : Lock) : Engine TouchedJig := do
  let origin := o.origin
  let inst ← instanceAt home
  let classIdx := o.classPtr.idx.toNat
  let cls ← orError (fun e => .broken s!"jig {origin.toText}: {e.message}")
    (inst.package.abi.classAt classIdx)
  let values ← orError (fun e => .broken s!"corrupt state of jig {origin.toText}: {e.message}")
    (Ty.decodeState cls.fieldTypes o.state)
  let address ← h.buildObject home cls origin values
  return ⟨origin, some o.location, home, classIdx, address, lock⟩

/-- Brings the object of an output into the memory of its package; the jig that it is. -/
def rehydrate (o : Output) : Engine TouchedJig := do
  let lock ← orError id (storedLock o)
  let _ ← packageOf h.context o
  let home ← h.instanceFor ⟨o.classPtr.id⟩
  h.rehydrateIn home o lock

/-- Fails because a jig that is to be loaded has been touched. -/
def resolvedTwice (origin : Pointer) (_ : Nat) : Engine Nat :=
  fail (.broken s!"jig {origin.toText} resolved twice")

/-- Loads the jig whose output is at a location; its origin. -/
def loadByLocation (location : Pointer) : Engine Pointer := do
  let o ← orMissing (.failed s!"no unspent output at {location.toText}")
    (h.context.env.store.byLocation location)
  let _ ← touch o.origin (resolvedTwice o.origin) (h.rehydrate o)
  return o.origin

/-- The index of the jig with an origin, whose latest output is loaded unless it has been touched. -/
def loadLatest (origin : Pointer) (touched : Nat → Engine Nat) : Engine Nat :=
  touch origin touched do h.rehydrate (← latestOutput h.context origin)

/-- Loads the jig with an origin. -/
def loadByOrigin (origin : Pointer) : Engine Pointer := do
  let _ ← h.loadLatest origin (resolvedTwice origin)
  return origin

/-- The index of a jig among those touched; it is loaded when it is needed. -/
def resolve (origin : Pointer) : Engine Nat := h.loadLatest origin pure

end Host

end JigLedger.Engine
