import JigLedger.Proofs.Engine.Built
import JigLedger.Proofs.Engine.Heap

/-!
# The operations of the engine are built

Every function that answers a guest or runs an instruction is built from the operations of the
engine. The functions are gone through from the innermost on, each with the ones it calls.
-/

namespace JigLedger.Engine

open Wasm (Val)

variable {pays locks : Prop} {inv : Invoker} {top : Option Nat} {α β : Type}

namespace BuiltWith

/-! ### Guests -/

theorem alloc (home : Nat) (errand : Errand) (size : UInt32) (fits : errand.Fits home top) :
    BuiltWith pays locks inv top fun c => (inv.host c).alloc home errand size := by
  unfold Host.alloc
  refine (invoke home errand _ fits).bind fun results => reading (.resultWord results) fun word => ?_
  dsimp only
  split
  · exact failPlain _
  · exact reading (.look _ _) fun _ => .pure _

/-- Using the memory of a package is built. -/
theorem heap (home : Nat) (errand : Errand) (fits : errand.Fits home top) :
    OfHeap (fun _ m => BuiltWith pays locks inv top m) fun c => (inv.host c).heap home errand where
  pure := .pure
  bind := .bind
  alloc size := alloc home errand size fits
  write _ _ := plain (.writeBytes _ _ _)
  fail _ := failPlain _

theorem callExport (home : Nat) (name : String) (params : List Val) (hasResult : Bool) :
    BuiltWith pays locks inv (some home) fun c =>
      (inv.host c).callExport home name params hasResult := by
  unfold Host.callExport
  refine reading (.instanceAt home) fun inst => ?_
  dsimp only
  cases inst.package.module.exportedFunc? name
  · exact failPlain _
  · dsimp only
    refine reading (.checkCall _ _ _ _) fun _ => (invoke home .call _ rfl).bind fun results => ?_
    cases results
    · exact .pure _
    · exact reading (.wordOf _) fun _ => .pure _

/-! ### Packages and jigs -/

theorem importTarget (i : Abi.Import) : BuiltWith pays locks inv top fun c => importTarget c i := by
  unfold Engine.importTarget
  split
  · exact .pure _
  refine (package _ _).bind fun p => ?_
  cases p.abi.exportIndex? i.name
  · exact fail _
  · dsimp only
    split
    · exact .pure _
    · exact fail _

theorem targets (p : Package) :
    BuiltWith pays locks inv top fun c => p.abi.imports.mapM (Engine.importTarget c) :=
  mapM importTarget p.abi.imports

theorem instanceFor (id : PackageId) :
    BuiltWith pays locks inv top fun c => (inv.host c).instanceFor id :=
  boot id targets

theorem buildObject (home : Nat) (cls : Abi.Class) (origin : Pointer) (values : List Value) :
    BuiltWith pays locks inv top fun c => (inv.host c).buildObject home cls origin values := by
  have h : OfHeap (fun _ m => BuiltWith pays locks inv top m) fun c =>
      (inv.host c).heap home (.object home) :=
    heap home _ rfl
  exact (h.alloc _).bind fun address => (h.writeOrigin _ _).bind fun _ =>
    (h.writeRecord _ _ _).bind fun _ => .pure address

theorem resolve (origin : Pointer) :
    BuiltWith pays locks inv top fun c => (inv.host c).resolve origin :=
  loadLatest origin _ (fun _ => (ReadsOnly.pure _).silently) targets buildObject

theorem loadByOrigin (origin : Pointer) :
    BuiltWith pays locks inv top fun c => (inv.host c).loadByOrigin origin :=
  (loadLatest origin _ (fun _ => (ReadsOnly.fail _).silently) targets buildObject).bind
    fun _ => .pure origin

theorem conforms (origin : Pointer) (demand : JigTy) :
    BuiltWith pays locks inv top fun c => conforms c origin demand := by
  unfold Engine.conforms
  split
  · exact .pure _
  · exact (judge origin).bind fun _ => .pure _

theorem checkJigs (params : List Field) (values : List Value) :
    BuiltWith pays locks inv top fun c => checkJigs c params values := by
  refine forM (fun item => ?_) (jigsInArgs params values)
  refine (conforms item.1 item.2).bind fun b => ?_
  split
  · exact .pure _
  · exact fail _

/-! ### Calls -/

theorem lowerArgs (home : Nat) : ∀ (fields : List Field) (values : List Value),
    BuiltWith pays locks inv (some home) fun c => (inv.host c).lowerArgs home fields values
  | [], _ => .pure _
  | _ :: _, [] => .pure _
  | f :: fields, v :: values =>
    ((heap home .arguments rfl).lower f.ty v).bind fun _ => (lowerArgs home fields values).bind
      fun _ => .pure _

theorem liftResult (home : Nat) (result : Option Ty) (word : Option UInt64) :
    BuiltWith pays locks inv top fun _ => Host.liftResult home result word := by
  cases result <;> cases word
  case some.some => exact reading (.look _ _) fun _ => .pure _
  all_goals exact .pure _

theorem callConstructor (home : Nat) (cls : Abi.Class) (args : List Value) :
    BuiltWith pays locks inv (some home) fun c => (inv.host c).callConstructor home cls args :=
  (lowerArgs home _ args).bind fun _ => callExport home _ _ _

theorem newJig (home classIdx : Nat) (cls : Abi.Class) (origin : Pointer) (word : Option UInt64) :
    BuiltWith pays locks inv top fun c => (inv.host c).newJig home classIdx cls origin word := by
  unfold Host.newJig
  dsimp only
  split
  · exact fail _
  · exact reading (.look _ _) fun _ => ((heap home (.origin home) rfl).writeOrigin _ _).bind
      fun _ => .pure _

theorem callWith (home : Nat) (callee : Abi.Callable) (receiver : List Val) (args : List Value) :
    BuiltWith pays locks inv (some home) fun c => (inv.host c).callWith home callee receiver args :=
  (lowerArgs home _ args).bind fun _ => (callExport home _ _ _).bind fun word =>
    liftResult home _ word

theorem constructJig (home classIdx : Nat) (args : List Value) :
    BuiltWith pays locks inv top fun c => (inv.host c).construct home classIdx args :=
  construct home classIdx args (fun cls => callConstructor home cls args)
    fun cls origin word => newJig home classIdx cls origin word

theorem callMethod (idx : Nat) (callee : Abi.Callable) (args : List Value) :
    BuiltWith pays locks inv top fun c => (inv.host c).callMethod idx callee args :=
  method idx callee args fun home _ => callWith home callee _ args

theorem callFunction (home : Nat) (callee : Abi.Callable) (args : List Value) :
    BuiltWith pays locks inv top fun c => (inv.host c).callFunction home callee args :=
  function home callee args (callWith home callee _ args)

/-! ### Requests -/

theorem guestArgs (home : Nat) (params : List Field) (blob : UInt32) :
    BuiltWith pays locks inv top fun c => guestArgs c home params blob :=
  reading (.memoryOf home) fun _ => reading (.orError _ _) fun values =>
    (checkJigs params values).bind fun _ => .pure values

theorem importOfKind (p : Package) (idx : Nat) (kind : Abi.ImportKind) :
    BuiltWith pays locks inv top fun _ => importOfKind p idx kind := by
  refine reading (.orError _ _) fun i => ?_
  split
  · exact .pure _
  · exact fail _

theorem guestAddress (home : Nat) (data : UInt32) :
    BuiltWith pays locks inv top fun _ => guestAddress home data := by
  refine reading (.look _ _) fun v => ?_
  cases v
  case bytes => exact reads (.orError _ _)
  all_goals exact fail _

theorem lockToCaller : BuiltWith pays locks inv top fun _ => lockToCaller := by
  refine reading .get fun s => ?_
  cases s.caller
  · exact fail _
  · exact .pure _

theorem requestedLock (home : Nat) (kind data : UInt32) :
    BuiltWith pays locks inv top fun _ => requestedLock home kind data := by
  unfold Engine.requestedLock
  split
  · exact fail _
  · exact (guestAddress home data).map _
  · exact lockToCaller
  · exact .pure _
  · exact .pure _
  · exact fail _

theorem returnWord (home : Nat) (result : Option Ty) (value : Option Value) :
    BuiltWith pays locks inv (some home) fun c => (inv.host c).returnWord home result value := by
  cases result <;> cases value
  case some.some t v => exact (heap home .answer rfl).lower t v
  all_goals exact .pure _

theorem proxy (home : Nat) (origin : Pointer) :
    BuiltWith pays locks inv (some home) fun c => (inv.host c).proxy home origin :=
  (heap home .answer rfl).allocValue _ _

theorem importedExport (home : Nat) (idx : UInt32) (kind : Abi.ImportKind) :
    BuiltWith pays locks inv top fun c => (inv.host c).importedExport home idx kind :=
  reading (.instanceAt home) fun _ => (importOfKind _ _ _).bind fun _ =>
    reading (.orMissing _ _) fun _ => (instanceFor _).bind fun _ => .pure _

theorem constructorLocal (classIdx args : UInt32) :
    BuiltWith pays locks inv top fun c => (inv.host c).constructorLocal classIdx args :=
  calling fun home => reading (.instanceAt home) fun _ => reading (.orError _ _) fun _ =>
    (guestArgs home _ _).bind fun values => (constructJig home _ values).bind fun idx =>
      reading (.jigAt idx) fun _ => .pure _

theorem constructorRemote (importIdx args : UInt32) :
    BuiltWith pays locks inv top fun c => (inv.host c).constructorRemote importIdx args :=
  calling fun home => (importedExport home _ _).bind fun found =>
    reading (.instanceAt found.1) fun _ => reading (.orPlain _ _) fun _ =>
      (guestArgs home _ _).bind fun values => (constructJig found.1 found.2 values).bind fun idx =>
        reading (.jigAt idx) fun _ => proxy home _

theorem requestMethod (jig methodIdx args : UInt32) :
    BuiltWith pays locks inv top fun c => (inv.host c).requestMethod jig methodIdx args :=
  calling fun home => reading (.guestJig home jig) fun origin => (resolve origin).bind fun idx =>
    reading (.jigAt idx) fun _ => reading (.classOfJig _) fun _ => reading (.orMissing _ _)
      fun callee => (guestArgs home _ _).bind fun values => (callMethod idx callee values).bind
        fun _ => returnWord home _ _

theorem requestFunction (importIdx args : UInt32) :
    BuiltWith pays locks inv top fun c => (inv.host c).requestFunction importIdx args :=
  calling fun home => (importedExport home _ _).bind fun found =>
    reading (.instanceAt found.1) fun _ => reading (.orPlain _ _) fun callee =>
      (guestArgs home _ _).bind fun values => (callFunction found.1 callee values).bind
        fun _ => returnWord home _ _

theorem getProp (jig fieldIdx : UInt32) :
    BuiltWith pays locks inv top fun c => (inv.host c).getProp jig fieldIdx :=
  calling fun home => reading (.guestJig home jig) fun origin => (resolve origin).bind fun idx =>
    reading (.jigAt idx) fun _ => reading (.classOfJig _) fun _ => reading (.orMissing _ _)
      fun _ => reading (.look _ _) fun _ => returnWord home _ _

theorem jigLock (jig kind data : UInt32) (may : locks) :
    BuiltWith pays locks inv top fun c => (inv.host c).jigLock jig kind data :=
  calling fun home => reading (.guestJig home jig) fun origin =>
    (requestedLock home kind data).bind fun lock => (resolve origin).bind fun idx =>
      changeLock idx lock may

/-- What locks see depends on the transaction, but not on the registry and the store. -/
theorem authority : BuiltWith pays locks inv top fun c => authority c :=
  silent (fun c => (ReadsOnly.authority c).silently) fun _ _ _ => rfl

theorem jigAuthCheck (jig check : UInt32) :
    BuiltWith pays locks inv top fun c => (inv.host c).jigAuthCheck jig check := by
  refine calling fun home => reading (.guestJig home jig) fun origin => (resolve origin).bind
    fun idx => reading (.jigAt idx) fun touched => authority.bind fun auth => ?_
  split
  · exact .pure _
  · exact .pure _
  · exact fail _

theorem callerOrigin : BuiltWith pays locks inv top fun c => (inv.host c).callerOrigin := by
  refine calling fun home => reading .get fun s => ?_
  cases s.outerCaller
  · exact .pure _
  · exact proxy home _

theorem abort (message : UInt32) :
    BuiltWith pays locks inv top fun _ => (Host.abort message : Engine α) := by
  refine reading .callingHome fun home => reading
    ((ReadsOnly.guestText home message).tryCatch fun _ => .pure _) fun text => reading .get fun s => ?_
  cases s.caller
  · exact fail _
  · exact fail _

theorem debugStr (message : UInt32) :
    BuiltWith pays locks inv top fun c => (inv.host c).debugStr message :=
  silent (fun _ => .debugStr _ message) fun _ _ _ => rfl

section Words

variable {α : Type}

theorem withoutWords {f : Context → Engine α} (h : BuiltWith pays locks inv top f)
    (args : List Val) : BuiltWith pays locks inv top fun c => withoutWords (f c) args := by
  unfold Engine.withoutWords
  split
  · exact h
  · exact fail _

theorem withWord {f : Context → UInt32 → Engine α}
    (h : ∀ a, BuiltWith pays locks inv top fun c => f c a) (args : List Val) :
    BuiltWith pays locks inv top fun c => withWord (f c) args := by
  unfold Engine.withWord
  split
  · exact h _
  · exact fail _

theorem withTwoWords {f : Context → UInt32 → UInt32 → Engine α}
    (h : ∀ a b, BuiltWith pays locks inv top fun c => f c a b) (args : List Val) :
    BuiltWith pays locks inv top fun c => withTwoWords (f c) args := by
  unfold Engine.withTwoWords
  split
  · exact h _ _
  · exact fail _

theorem withThreeWords {f : Context → UInt32 → UInt32 → UInt32 → Engine α}
    (h : ∀ a b d, BuiltWith pays locks inv top fun c => f c a b d) (args : List Val) :
    BuiltWith pays locks inv top fun c => withThreeWords (f c) args := by
  unfold Engine.withThreeWords
  split
  · exact h _ _ _
  · exact fail _

end Words

/-- Whatever a guest asks for, the answer is built. Only one request replaces locks. -/
theorem answer (function : HostImport) (args : List Val) (may : function = .jigLock → locks) :
    BuiltWith pays locks inv top fun c => (inv.host c).answer function args := by
  cases function
  case constructorLocal =>
    exact withTwoWords (fun _ _ => (constructorLocal _ _).bind fun _ => .pure _) args
  case constructorRemote =>
    exact withTwoWords (fun _ _ => (constructorRemote _ _).bind fun _ => .pure _) args
  case callMethod =>
    exact withThreeWords (fun _ _ _ => (requestMethod _ _ _).bind fun _ => .pure _) args
  case callFunction =>
    exact withTwoWords (fun _ _ => (requestFunction _ _).bind fun _ => .pure _) args
  case getProp => exact withTwoWords (fun _ _ => (getProp _ _).bind fun _ => .pure _) args
  case jigLock =>
    exact withThreeWords (fun _ _ _ => (jigLock _ _ _ (may rfl)).bind fun _ => .pure _) args
  case jigAuthCheck => exact withTwoWords (fun _ _ => (jigAuthCheck _ _).bind fun _ => .pure _) args
  case callerOrigin => exact withoutWords (callerOrigin.bind fun _ => .pure _) args
  case abort => exact withWord (fun _ => abort _) args
  case debugStr => exact withWord (fun _ => (debugStr _).bind fun _ => .pure _) args

/-! ### Instructions -/

theorem argValue (param : Field) (arg : Arg) :
    BuiltWith pays locks inv top fun _ => argValue param arg := by
  unfold Engine.argValue
  cases arg
  · dsimp only
    split
    · exact fail _
    · exact reads (.orError _ _)
  · refine reading (.statementAt _) fun statement => ?_
    cases statement
    · exact fail _
    · exact .pure _
    · exact .pure _
    · exact fail _

theorem argValues : ∀ (params : List Field) (args : List Arg),
    BuiltWith pays locks inv top fun _ => argValues params args
  | [], _ => .pure _
  | _ :: _, [] => .pure _
  | param :: params, arg :: args =>
    (argValue param arg).bind fun _ => reading (.orError _ _) fun _ =>
      (argValues params args).bind fun _ => .pure _

theorem checkedArgs (params : List Field) (args : List Arg) :
    BuiltWith pays locks inv top fun c => checkedArgs c params args := by
  have h : BuiltWith pays locks inv top fun _ => resolveArgs params args := by
    unfold resolveArgs
    split
    · exact argValues params args
    · exact fail _
  exact h.bind fun values => (checkJigs params values).bind fun _ => .pure values

theorem packageStatement (idx : UInt16) :
    BuiltWith pays locks inv top fun _ => packageStatement idx := by
  refine reading (.statementAt idx) fun statement => ?_
  cases statement
  case package => exact .pure _
  all_goals exact fail _

theorem jigStatement (idx : UInt16) : BuiltWith pays locks inv top fun _ => jigStatement idx := by
  refine reading (.statementAt idx) fun statement => ?_
  cases statement
  case jig => exact .pure _
  all_goals exact fail _

theorem fund (coin : UInt16) (may : pays) :
    BuiltWith pays locks inv top fun c => (inv.host c).fund coin :=
  (jigStatement coin).bind fun origin => (resolve origin).bind fun idx => pay origin idx may

theorem new (packageIdx classIdx : UInt16) (args : List Arg) :
    BuiltWith pays locks inv top fun c => (inv.host c).new packageIdx classIdx args :=
  (packageStatement packageIdx).bind fun id => (instanceFor id).bind fun home =>
    reading (.instanceAt home) fun _ => reading (.orError _ _) fun _ => (checkedArgs _ args).bind
      fun values => (constructJig home _ values).bind fun idx => reading (.jigAt idx) fun _ => .pure _

theorem exec (jig methodIdx : UInt16) (args : List Arg) :
    BuiltWith pays locks inv top fun c => (inv.host c).exec jig methodIdx args :=
  (jigStatement jig).bind fun origin => (resolve origin).bind fun idx => reading (.jigAt idx)
    fun _ => reading (.classOfJig _) fun _ => reading (.orMissing _ _) fun callee =>
      (checkedArgs _ args).bind fun values => (callMethod idx callee values).bind fun _ => .pure _

theorem execFunction (packageIdx functionIdx : UInt16) (args : List Arg) :
    BuiltWith pays locks inv top fun c => (inv.host c).execFunction packageIdx functionIdx args :=
  (packageStatement packageIdx).bind fun id => (instanceFor id).bind fun home =>
    reading (.instanceAt home) fun _ => reading (.orError _ _) fun callee =>
      (checkedArgs _ args).bind fun values => (callFunction home callee values).bind
        fun _ => .pure _

theorem lock (jig : UInt16) (spec : LockSpec) (may : locks) :
    BuiltWith pays locks inv top fun c => (inv.host c).lock jig spec :=
  (jigStatement jig).bind fun origin => (resolve origin).bind fun idx =>
    reading (.orError _ _) fun lock => changeLock idx lock may

theorem perform (i : Instruction) (may : i.opcode = .fund → pays)
    (change : i.opcode = .lock → locks) :
    BuiltWith pays locks inv top fun c => (inv.host c).perform i := by
  cases i
  case importPackage id => exact (instanceFor id).bind fun _ => .pure _
  case load location =>
    exact (loadByLocation location targets buildObject).bind fun _ => .pure _
  case loadByOrigin origin => exact (loadByOrigin origin).bind fun _ => .pure _
  case new => exact (new _ _ _).bind fun _ => .pure _
  case exec => exact exec _ _ _
  case execFunction => exact execFunction _ _ _
  case fund coin => exact (fund coin (may rfl)).bind fun _ => .pure _
  case lock => exact (lock _ _ (change rfl)).bind fun _ => .pure _
  case deploy => exact (deploy _ _).bind fun _ => .pure _
  case sign => exact .pure _
  case signTo => exact .pure _

/-- Whatever a transaction asks for, the instruction is built. Only an instruction that pays spends
coins, and only one that is about a lock replaces locks itself. -/
theorem instruction (i : Instruction) (may : i.opcode = .fund → pays)
    (change : i.opcode = .lock → locks) :
    BuiltWith pays locks inv top fun c => (inv.host c).instruction i := by
  refine reading .get fun s => ?_
  split
  · exact fail _
  · exact perform i may change

end BuiltWith

theorem Built.answer (function : HostImport) (args : List Val) :
    Built inv top fun c => (inv.host c).answer function args :=
  BuiltWith.answer function args fun _ => trivial

theorem Built.instruction (i : Instruction) :
    Built inv top fun c => (inv.host c).instruction i :=
  BuiltWith.instruction i (fun _ => trivial) fun _ => trivial

end JigLedger.Engine
