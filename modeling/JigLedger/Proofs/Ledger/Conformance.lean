import JigLedger.Proofs.Ledger.Classes

/-!
# Jigs among arguments

Wherever a jig is named in an argument, however deep, it is at a slot of the parameter, and its
class is one that the slot accepts. Whether it is does not depend on where the class is looked up. A
jig that has been touched is judged by the package that it was loaded into, and one that has not by
its latest output; both are the class of all its outputs, in the package that is registered.
-/

namespace JigLedger

namespace Engine

variable {c : Context} {s : Session} {o : Output} {p q : Package} {id : PackageId}
  {origin : Pointer}

/-! ### Where a class is looked up -/

/-- A package that is registered is found, since none with its id is deployed. -/
theorem Lawful.package?_eq (lawful : Lawful c s) (known : c.env.registry.get? id = some q) :
    s.package? c id = some q := by
  have none : s.deploys.find? (·.id = id) = none := by
    rw [List.find?_eq_none]
    intro p mem same
    have free := lawful.deploys.unregistered p mem
    rw [of_decide_eq_true same, known] at free
    cases free
  rw [Session.package?, none, known]
  rfl

/-- The class of a touched jig is looked up in the package that it is in. -/
theorem runFrom_classOf_touched {idx : Nat} {jig : TouchedJig} {inst : PackageInstance}
    (index : s.jigIndex? origin = some idx) (there : s.jigs[idx]? = some jig)
    (home : s.instances[jig.home]? = some inst) : runFrom s (classOf c origin) =
      runFrom s (orPlain AbiError.message (inst.package.abi.classAt jig.classIdx)) := by
  rw [classOf, runFrom_bind_of_ok (runFrom_get s)]
  simp only [index]
  rw [runFrom_bind_of_ok (runFrom_jigAt_eq_ok.2 ⟨there, rfl⟩),
    runFrom_bind_of_ok (runFrom_instanceAt_eq_ok.2 ⟨home, rfl⟩)]

/-- The class of a jig that has not been touched is looked up in the package of its latest
output. -/
theorem runFrom_classOf_stored (untouched : s.jigIndex? origin = none)
    (latest : c.env.store.byOrigin origin = some o)
    (known : s.package? c ⟨o.classPtr.id⟩ = some q) : runFrom s (classOf c origin) =
      runFrom s (orPlain AbiError.message (q.abi.classAt o.classPtr.idx.toNat)) := by
  have found : runFrom s (latestOutput c origin) = (.ok o, s) :=
    runFrom_orMissing_eq_ok.2 ⟨latest, rfl⟩
  have packaged : runFrom s (packageOf c o) = (.ok q, s) := runFrom_packageOr_eq_ok.2 ⟨known, rfl⟩
  rw [classOf, runFrom_bind_of_ok (runFrom_get s)]
  simp only [untouched]
  rw [runFrom_bind_of_ok found, runFrom_bind_of_ok packaged]

/-- What a slot with a demand says to the jigs of an export of a package. -/
def verdict (p : Package) (idx : Nat) (demand : JigTy) : Except Failure Bool :=
  if demand = .any then .ok true
  else match p.abi.classAt idx with
    | .ok cls => .ok (cls.conformsTo demand)
    | .error e => .error (.plain e.message)

/-- A jig is judged by its class. -/
theorem runFrom_conforms {idx : Nat} (looked : runFrom s (classOf c origin) =
    runFrom s (orPlain AbiError.message (p.abi.classAt idx))) (demand : JigTy) :
    runFrom s (conforms c origin demand) = (verdict p idx demand, s) := by
  unfold conforms verdict
  split
  case isTrue => rfl
  case isFalse =>
    rw [runFrom_bind, looked]
    cases p.abi.classAt idx <;> rfl

/-- The jig with an origin has not been touched, or it was loaded when it was. -/
def Session.Kept (s : Session) (origin : Pointer) : Prop :=
  ∀ idx jig, s.jigIndex? origin = some idx → s.jigs[idx]? = some jig → jig.previous ≠ none

end Engine

namespace Ledger

variable {p : Policy} {l : Ledger} {log : List Deed} {c : Engine.Context} {s : Engine.Session}
  {o : Output} {q : Package}

namespace Chronicle

section Verdict

variable (h : Chronicle p l log) (collisionless : Collisionless p log) (env : c.env = l.env p)

include h collisionless env

/-- The class of a jig that the store knows is that of any of its outputs, whether the jig has been
loaded or not. -/
theorem runFrom_classOf (placed : o ∈ log.flatMap Deed.outputs)
    (known : l.registry.get? ⟨o.classPtr.id⟩ = some q) (lawful : Engine.Lawful c s)
    (vetted : Engine.Vetted c s) (kept : s.Kept o.origin) :
    Engine.runFrom s (Engine.classOf c o.origin) = Engine.runFrom s
      (Engine.orPlain AbiError.message (q.abi.classAt o.classPtr.idx.toNat)) := by
  have store : c.env.store = l.store := congrArg Engine.Env.store env
  have registry : c.env.registry = l.registry := congrArg Engine.Env.registry env
  have coherent := h.coherent collisionless.numbers
  rcases index : s.jigIndex? o.origin with _ | idx
  · have found : (l.store.byOrigin o.origin).isSome := by
      rw [← coherent.toIndexed.knows_eq, h.knows_iff collisionless.numbers]
      exact List.mem_map_of_mem placed
    obtain ⟨latest, found⟩ := Option.isSome_iff_exists.1 found
    obtain ⟨last, placed', origin, cls⟩ := h.exists_of_byOrigin collisionless.numbers found
    have same : o.classPtr = latest.classPtr :=
      (h.classPtr_eq collisionless o placed last placed' origin.symm).trans cls
    rw [← registry, same] at known
    rw [same]
    exact Engine.runFrom_classOf_stored index (store ▸ found) (lawful.package?_eq known)
  · obtain ⟨jig, there, origin⟩ := Engine.Session.jigIndex?_eq_some index
    have mem : jig ∈ s.scene.jigs := by
      rw [lawful.shows.jigs]
      exact List.mem_of_getElem? there
    obtain ⟨last, lock, stored, loaded⟩ :=
      (lawful.sourced.jigs jig mem).resolve_left (kept idx jig index there)
    have placed' := h.placed_of_stored store stored loaded.lock coherent
    have same : o.classPtr = last.classPtr := h.classPtr_eq collisionless o placed last placed'
      (origin.symm.trans loaded.origin)
    obtain ⟨inst, home, isOf⟩ := loaded.home
    rw [lawful.shows.instances] at home
    rw [same, ← registry] at known
    have package : inst.package = q := lawful.package_eq vetted (registry ▸ h.sound_registry)
      known (List.mem_of_getElem? home) isOf
    have idx : jig.classIdx = last.classPtr.idx.toNat := loaded.cls
    rw [Engine.runFrom_classOf_touched index there home, package, idx, same]

/-- The verdict on a jig that the store knows is the same for all sessions that have loaded it or
have not touched it. -/
theorem exists_verdict {origin : Pointer} (known : l.store.knows origin = true) :
    ∃ verdict : JigTy → Except Failure Bool,
      (p.compiler.NumbersExports → ∀ demand, ∃ b, verdict demand = .ok b) ∧
      ∀ s, Engine.Lawful c s → Engine.Vetted c s → s.Kept origin → ∀ demand,
        Engine.runFrom s (Engine.conforms c origin demand) = (verdict demand, s) := by
  obtain ⟨o, placed, rfl⟩ := List.mem_map.1 ((h.knows_iff collisionless.numbers).1 known)
  have written := h.written o placed
  obtain ⟨q, registered⟩ := written.registered
  refine ⟨Engine.verdict q o.classPtr.idx.toNat, fun numbers demand => ?_,
    fun s lawful vetted kept => Engine.runFrom_conforms
      (h.runFrom_classOf collisionless env placed registered lawful vetted kept)⟩
  obtain ⟨package, cls, values, there, resolved, -⟩ := (written.loadable numbers).cls
  rw [registered] at there
  cases there
  unfold Engine.verdict
  split
  · exact ⟨true, rfl⟩
  · exact ⟨_, by rw [resolved]⟩

end Verdict

end Chronicle

end Ledger

namespace Engine

variable {c : Context} {tx : Transaction} {result : Except Failure ExecutionResult} {s : Session}

/-- Jigs among arguments conform. Whenever a constructor, a method or a function is entered in a
run, each place in its arguments where a jig is named is a slot of the parameter, and the slot
accepts the jig. Over a ledger that has come about under a policy, the verdict on a jig that is
stored is the same whether it has been loaded or not, and it is a verdict as long as the exports of
packages are numbered. In a run that succeeds, no other jigs are touched under origins that the
store knows. -/
theorem args_conform (run : runTransaction c tx = (result, s)) :
    (∀ (past : List Event) (entry : Entry) (frame : Frame) (callee : Abi.Callable)
      (args : List Value), .entered entry frame callee args :: past <:+ s.journal →
      ∀ (i : Nat) (v : Value) (path : List Value.Step) (origin : Pointer), args[i]? = some v →
      v.Names path origin →
      (∃ f demand, callee.params[i]? = some f ∧ f.ty.Slot v path origin demand) ∧
      ∀ f demand, callee.params[i]? = some f → f.ty.Slot v path origin demand →
        (Scene.of past).Accepts c s.deploys demand origin) ∧
    ∀ (p : Policy) (l : Ledger) (log : List Ledger.Deed), Ledger.Chronicle p l log →
      Ledger.Collisionless p log → contextOf (l.env p) tx = .ok c →
      (∀ origin, l.store.knows origin = true → ∃ verdict : JigTy → Except Failure Bool,
        (p.compiler.NumbersExports → ∀ demand, ∃ b, verdict demand = .ok b) ∧
        ∀ t, Lawful c t → Vetted c t → t.Kept origin → ∀ demand,
          runFrom t (conforms c origin demand) = (verdict demand, t)) ∧
      ∀ r, result = .ok r → Ledger.Collisionless p (.executed ⟨l, tx, r⟩ :: log) →
        ∀ origin, l.store.knows origin = true → s.Kept origin := by
  have vetted := vetted_of_run run
  refine ⟨fun past entry frame callee args hs i v path origin arg names => ?_,
    fun p l log h collisionless context => ⟨fun origin known =>
      h.exists_verdict collisionless (Ledger.env_of_contextOf context) known, ?_⟩⟩
  · have conforms : (Scene.of past).Conforms c s.deploys callee.params args :=
      Throughout.iff_suffix.1 vetted.vets _ past hs
    obtain ⟨f, param, slotted⟩ := conforms.slotted i v arg
    obtain ⟨demand, slot⟩ := slotted path origin names
    refine ⟨⟨f, demand, param, slot⟩, fun f demand param slot => ?_⟩
    exact conforms.accepted origin demand
      (Ty.mem_jigsInFields.2 ⟨i, f, v, param, arg, slot.mem_jigsIn⟩)
  · rintro r rfl apart origin known idx jig index there
    obtain ⟨found, here, same⟩ := Session.jigIndex?_eq_some index
    rw [there] at here
    cases here
    exact h.previous_of_known context run apart (List.mem_of_getElem? there) (same ▸ known)

end Engine

/-! ### A function that takes a coin -/

namespace Ledger

namespace Keeper

/-- Coins, and a function that takes one. -/
def document : Abi.Document :=
  { Till.document with exports := Till.document.exports ++
      [.ofFunction ⟨"keep", [⟨"coin", .mk "Coin" false []⟩], some (.mk "u32" false [])⟩] }

/-- The function takes coins only. -/
def keep : Abi.Callable :=
  ⟨"keep", "keep", [⟨"coin", .jig (.ofClass ⟨Till.packageId, "Coin"⟩), 0⟩], some .u32⟩

/-- A module like that of `Till`, the function of which is exported once more. -/
def wasm : Bytes :=
  Wasm.Binary.magic ++ [1, 0, 0, 0] ++
  [1, 6, 1, 0x60, 1, 0x7F, 1, 0x7F] ++ [3, 2, 1, 0] ++ [5, 3, 1, 0, 1] ++
  [7, 46, 4] ++ 6 :: utf8 "memory" ++ [2, 0] ++ 7 :: utf8 "__alloc" ++ [0, 0] ++
  16 :: utf8 "Coin_constructor" ++ [0, 0] ++ 4 :: utf8 "keep" ++ [0, 0] ++
  [10, 6, 1, 4, 0, 0x41, 8, 0x0B]

/-- The package of coins and the function. -/
def package : Package where
  id := Till.packageId
  abi := ⟨Till.packageId, document, [.ofClass Till.coin, .ofFunction keep], []⟩
  module := (Wasm.Module.load wasm).toOption.getD default
  entries := ["coin"]
  sources := .empty
  wasm := wasm

/-- Whatever is compiled is this package, and everybody has signed. -/
def policy : Policy :=
  { Till.policy with compiler := fun _ _ => .ok ⟨document, wasm⟩ }

theorem resolve_document : Abi.resolve Till.packageId document = .ok package.abi := by
  let s : Abi.Scope := ⟨Till.packageId, document.exports, []⟩
  have slot : s.typeWith s.object (.mk "Coin" false []) =
      .ok (.jig (.ofClass ⟨Till.packageId, "Coin"⟩)) := by
    simp [Abi.Scope.typeWith, Abi.Scope.baseWith, Abi.Scope.primitive?, Abi.Scope.checkArity,
      Abi.Scope.namedType, Abi.Scope.export?, s, document, Till.document, Abi.ExportDecl.name, bind,
      Except.bind, pure, Except.pure]
  have params : s.fieldsWith s.object [⟨"coin", .mk "Coin" false []⟩] =
      .ok [("coin", .jig (.ofClass ⟨Till.packageId, "Coin"⟩))] := by
    rw [Abi.Scope.fieldsWith, List.mapM_cons, slot]
    rfl
  have result : s.type (.mk "u32" false []) = .ok .u32 := Abi.Scope.typeWith_primitive rfl
  refine bind_eq_ok.2 ⟨s, rfl, bind_eq_ok.2 ⟨_, ?_, rfl⟩⟩
  refine bind_eq_ok.2 ⟨_, Till.resolveExport_coin _, bind_eq_ok.2 ⟨[.ofFunction keep], ?_, rfl⟩⟩
  refine bind_eq_ok.2 ⟨.ofFunction keep, bind_eq_ok.2 ⟨keep, ?_, rfl⟩, rfl⟩
  refine bind_eq_ok.2 ⟨_, params, ?_⟩
  dsimp only [Option.mapM]
  rw [result]
  rfl

theorem build_package : Package.build ["coin"] .empty ⟨document, wasm⟩ = .ok package := by
  have loaded : Wasm.Module.load wasm = .ok package.module :=
    eq_ok_getD default (by decide +kernel)
  exact Package.build_eq_ok Till.contentId_sources resolve_document loaded (by decide +kernel)

/-- The ledger that has only this package. -/
def opening : Ledger :=
  ⟨⟨(∅ : Std.ExtTreeMap PackageId Package compare).insert Till.packageId package⟩, .empty⟩

theorem deploy_package :
    Ledger.empty.deploy policy ["coin"] .empty = .ok (Till.packageId, opening) :=
  deploy_empty rfl build_package

/-- A coin pays for a transaction and is passed to the function. -/
def tx (coin : Pointer) : Transaction :=
  ⟨[.loadByOrigin coin, .fund 0, .importPackage Till.packageId, .execFunction 2 1 [.ref 0],
    .sign [] []]⟩

/-- A function is entered with a coin. -/
def isPassed (coin : Pointer) : Engine.Event → Bool
  | .entered .function _ ⟨_, _, [⟨_, .jig (.ofClass ref), _⟩], _⟩ [.jig origin] =>
    decide (ref = ⟨Till.packageId, "Coin"⟩) && decide (origin = coin)
  | _ => false

/-- What is to be seen of the transaction after a coin has been minted. -/
def isTold : Bool :=
  match opening.mint policy.config default 500 0 with
  | .error _ => false
  | .ok (o, l) =>
    match Engine.contextOf (l.env policy) (tx o.origin) with
    | .error _ => false
    | .ok c =>
      match Engine.runTransaction c (tx o.origin) with
      | (.error _, _) => false
      | (.ok r, s) => s.journal.any (isPassed o.origin) && l.store.knows o.origin &&
          (s.jigIndex? o.origin).isSome && decide (Unambiguous [.executed ⟨l, tx o.origin, r⟩,
            .minted default 500 0 o, .deployed Till.packageId])

theorem exists_run : ∃ o l c r s, opening.mint policy.config default 500 0 = .ok (o, l) ∧
    Engine.contextOf (l.env policy) (tx o.origin) = .ok c ∧
    Engine.runTransaction c (tx o.origin) = (.ok r, s) ∧
    s.journal.any (isPassed o.origin) = true ∧ l.store.knows o.origin = true ∧
    (s.jigIndex? o.origin).isSome = true ∧ Unambiguous [.executed ⟨l, tx o.origin, r⟩,
      .minted default 500 0 o, .deployed Till.packageId] := by
  have told : isTold = true := by decide +kernel
  unfold isTold at told
  split at told
  case h_1 => cases told
  case h_2 o l minted =>
    split at told
    case h_1 => cases told
    case h_2 c context =>
      split at told
      case h_1 => cases told
      case h_2 r s run =>
        simp only [Bool.and_eq_true, decide_eq_true_eq] at told
        obtain ⟨⟨⟨passed, known⟩, touched⟩, digests⟩ := told
        exact ⟨o, l, c, r, s, minted, context, run, passed, known, touched, digests⟩

/-- The event is a call of a function with the coin, and the parameter demands coins. -/
theorem of_isPassed {coin : Pointer} {e : Engine.Event} (passed : isPassed coin e = true) :
    ∃ frame name exportName param offset result, e = .entered .function frame
      ⟨name, exportName, [⟨param, .jig (.ofClass ⟨Till.packageId, "Coin"⟩), offset⟩], result⟩
      [.jig coin] := by
  unfold isPassed at passed
  split at passed
  case h_2 => cases passed
  case h_1 frame name exportName param ref offset result origin =>
    simp only [Bool.and_eq_true, decide_eq_true_eq] at passed
    obtain ⟨rfl, rfl⟩ := passed
    exact ⟨frame, name, exportName, param, offset, result, rfl⟩

end Keeper

end Ledger

namespace Engine

/-- The coin that is passed to the function is accepted, and the verdict is the same before it is
loaded. -/
theorem args_conform_of_coin :
    ∃ (p : Policy) (l : Ledger) (log : List Ledger.Deed) (c : Context) (tx : Transaction)
      (r : ExecutionResult) (s : Session) (past : List Event) (frame : Frame)
      (callee : Abi.Callable) (coin : Pointer) (ref : ClassRef),
      runTransaction c tx = (.ok r, s) ∧
      .entered .function frame callee [.jig coin] :: past <:+ s.journal ∧
      callee.params.map (·.ty) = [.jig (.ofClass ref)] ∧
      (Scene.of past).Accepts c s.deploys (.ofClass ref) coin ∧
      Ledger.Chronicle p l log ∧ Ledger.Collisionless p log ∧ contextOf (l.env p) tx = .ok c ∧
      l.store.knows coin = true ∧ (Session.start 100 5).jigIndex? coin = none ∧
      (s.jigIndex? coin).isSome = true ∧ ∃ b,
        runFrom (.start 100 5) (conforms c coin (.ofClass ref)) = (.ok b, .start 100 5) ∧
        runFrom s (conforms c coin (.ofClass ref)) = (.ok b, s) := by
  obtain ⟨o, l, c, r, s, minted, context, run, passed, known, touched, digests⟩ :=
    Ledger.Keeper.exists_run
  obtain ⟨e, mem, passed⟩ := List.any_eq_true.1 passed
  obtain ⟨frame, name, exportName, param, offset, result, rfl⟩ := Ledger.Keeper.of_isPassed passed
  obtain ⟨later, past, journal⟩ := List.append_of_mem mem
  have here := (⟨later, journal.symm⟩ : _ :: past <:+ s.journal)
  have before := (Ledger.Chronicle.empty.deploy Ledger.Keeper.deploy_package).mint minted
  have done := Ledger.execute_eq_ok.2 ⟨c, s, context, run⟩
  have apart : Ledger.Collisionless _ _ := ⟨digests, (before.execute done).numbered (by decide)⟩
  obtain ⟨entered, verdicts⟩ := args_conform run
  have accepts := (entered past _ frame _ _ here 0 _ [] o.origin rfl (.jig _)).2 _ _ rfl (.jig _ _)
  obtain ⟨same, kept⟩ := verdicts _ l _ before apart.tail context
  obtain ⟨verdict, sure, agree⟩ := same o.origin known
  have numbers : Ledger.Keeper.policy.compiler.NumbersExports := by
    rintro _ _ _ id - ⟨⟩
    decide
  obtain ⟨b, judged⟩ := sure numbers (.ofClass ⟨Ledger.Till.packageId, "Coin"⟩)
  have started := agree (.start 100 5) (lawful_start c 100 5) (vetted_start c 100 5) nofun
    (.ofClass ⟨Ledger.Till.packageId, "Coin"⟩)
  have loaded := agree s (lawful_of_run run) (vetted_of_run run) (kept r rfl apart o.origin known)
    (.ofClass ⟨Ledger.Till.packageId, "Coin"⟩)
  rw [judged] at started loaded
  exact ⟨_, l, _, c, _, r, s, past, frame, _, o.origin, _, run, here, rfl, accepts, before,
    apart.tail, context, known, rfl, touched, b, started, loaded⟩

end Engine

end JigLedger
