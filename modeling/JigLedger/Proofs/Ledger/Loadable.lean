import JigLedger.Proofs.Compiler
import JigLedger.Proofs.Engine.Placement
import JigLedger.Proofs.Engine.Vetting
import JigLedger.Proofs.Ledger.Frozen
import JigLedger.Proofs.Lock

/-!
# Stored jigs can be loaded

What is written down of a jig can be read again: its lock has a stored form, its class belongs to a
package that is registered when the result is committed, and its state is the encoding of a row of
values of this class. Registered packages stay, so this is true of every output that can be spent,
for as long as it is there. The checks that are made when a jig is loaded never fail then, but for
the one that refuses jigs that are frozen.
-/

namespace JigLedger

/-! ### What is compiled -/

namespace Package

variable {compiler : Compiler} {p : Package} {idx : Nat} {cls : Abi.Class}

/-- The index of a class fits into a pointer. -/
theorem IsMadeBy.toNat_ofNat (made : p.IsMadeBy compiler) (numbers : compiler.NumbersExports)
    (hc : p.abi.classAt idx = .ok cls) : (UInt32.ofNat idx).toNat = idx := by
  obtain ⟨entries, sources, artifacts, compiled, built⟩ := made
  obtain ⟨content, resolved, -⟩ := of_build built
  exact UInt32.toNat_ofNat_of_lt'
    (Nat.lt_of_lt_of_le (Abi.lt_of_classAt resolved hc) (numbers _ _ _ _ content compiled))

/-- A class of a package that was built knows its index. -/
theorem IsBuilt.exportIdx_eq (h : p.IsBuilt) (hc : p.abi.classAt idx = .ok cls) :
    cls.exportIdx = idx := by
  obtain ⟨entries, sources, artifacts, built⟩ := h
  exact Abi.exportIdx_of_resolve (of_build built).2.1 hc

/-- The state of a jig whose class belongs to a package that was built is decoded again, with its
maps in order. -/
theorem IsBuilt.decodeState_eq_ok (h : p.IsBuilt) (hc : p.abi.classAt idx = .ok cls)
    {values : List Value} {state : Bytes}
    (encoded : Ty.encodeState cls.fieldTypes values = .ok state) :
    Ty.decodeState cls.fieldTypes state = .ok (Ty.arrangeRow cls.fieldTypes values) := by
  obtain ⟨entries, sources, artifacts, built⟩ := h
  have canonical : ∀ t ∈ cls.fieldTypes, t.Canonical := by
    intro t mem
    obtain ⟨scope, e, typed⟩ := Abi.isResolved_fieldTypes (of_build built).2.1 hc t mem
    exact (Abi.Scope.proper_type typed).canonical
  have read := Ty.reads_row canonical (Ty.encodeState_eq_ok.1 encoded) []
  rw [List.append_nil] at read
  exact Ty.decodeState_eq_ok.2 read

end Package

/-! ### What is written down -/

/-- An output has been written down for a jig of a registered package: its class, its state and its
lock, which is not frozen. -/
structure Output.IsWritten (compiler : Compiler) (r : Registry) (o : Output) : Prop where
  cls : ∃ package idx cls values, r.get? package.id = some package ∧ package.IsMadeBy compiler ∧
    package.abi.classAt idx = .ok cls ∧ Ty.encodeState cls.fieldTypes values = .ok o.state ∧
    o.classPtr = .ofExport package.id (UInt32.ofNat idx)
  lock : ∃ lock : Lock, lock.toRecord o.origin = .ok o.lock ∧ lock ≠ .frozen

/-- An output can be loaded over a registry. Its lock is rebuilt, and the jig is neither unlocked
nor frozen; the record of the lock is that of the jig; the class of the jig is that of an export of
a registered package, and the state is read as that of a jig of this class. -/
structure Output.IsLoadable (r : Registry) (o : Output) : Prop where
  lock : ∃ lock, Lock.ofRecord o.lock = .ok lock ∧ lock ≠ .unlocked ∧ lock ≠ .frozen
  origin : o.lock.origin = o.origin
  cls : ∃ package cls values, r.get? ⟨o.classPtr.id⟩ = some package ∧
    package.abi.classAt o.classPtr.idx.toNat = .ok cls ∧
    Ty.decodeState cls.fieldTypes o.state = .ok values

namespace Output.IsWritten

variable {compiler : Compiler} {r r' : Registry} {o : Output}

theorem mono (h : o.IsWritten compiler r) (more : r.Extends r') : o.IsWritten compiler r' := by
  obtain ⟨package, idx, cls, values, known, rest⟩ := h.cls
  exact ⟨⟨package, idx, cls, values, more _ _ known, rest⟩, h.lock⟩

/-- The package of the class is registered. -/
theorem registered (h : o.IsWritten compiler r) :
    ∃ package, r.get? ⟨o.classPtr.id⟩ = some package := by
  obtain ⟨package, idx, cls, values, known, -, -, -, named⟩ := h.cls
  exact ⟨package, by rw [named]; exact known⟩

/-- What has been written down can be loaded. -/
theorem loadable (h : o.IsWritten compiler r) (numbers : compiler.NumbersExports) :
    o.IsLoadable r := by
  obtain ⟨package, idx, cls, values, known, made, hc, encoded, named⟩ := h.cls
  obtain ⟨lock, locked, thawed⟩ := h.lock
  refine ⟨⟨lock, Lock.ofRecord_of_toRecord locked, ?_, thawed⟩, Lock.origin_of_toRecord locked,
    package, cls, _, ?_, ?_, made.isBuilt.decodeState_eq_ok hc encoded⟩
  · rintro rfl
    cases locked
  · rw [named]
    exact known
  · rw [named, Pointer.ofExport, made.toNat_ofNat numbers hc, hc]

end Output.IsWritten

namespace Engine

variable {c : Context} {s t : Session}

/-! ### Results -/

/-- What a transaction writes down belongs to packages that are registered with its result. -/
theorem written_of_run {tx : Transaction} {r : ExecutionResult}
    (registry : c.env.registry.Holds (·.IsMadeBy c.env.compiler))
    (run : runTransaction c tx = (.ok r, s)) {o : Output} (ho : o ∈ r.outputs) {after : Registry}
    (more : c.env.registry.Extends after) (deployed : ∀ p ∈ r.deploys, after.get? p.id = some p) :
    o.IsWritten c.env.compiler after := by
  obtain ⟨jig, -, v, record, cls, state, location, same, thawed, recorded, rfl⟩ :=
    recorded_of_run run ho
  obtain ⟨inst, guest, values, home, hc, -, -, encoded⟩ := recorded.fields
  have vetted := vetted_of_run run
  -- The package of the jig is one that was registered, or one that is registered now.
  have known : after.get? inst.package.id = some inst.package ∧
      inst.package.IsMadeBy c.env.compiler := by
    obtain ⟨id, found | ⟨mem, -⟩⟩ := vetted.finds (List.mem_of_getElem? (same ▸ home))
    · obtain ⟨rfl, made⟩ := registry id _ found
      exact ⟨more _ _ found, made⟩
    · rw [(runTransaction_eq_ok run).1] at deployed
      exact ⟨deployed _ mem, vetted.made _ mem⟩
  refine ⟨⟨inst.package, jig.classIdx, cls, values, known.1, known.2, hc, encoded, ?_⟩,
    jig.lock, recorded.lock, ?_⟩
  · rw [← known.2.isBuilt.ref_package hc]
    rfl
  · intro frozen
    rw [frozen] at thawed
    cases thawed

/-! ### Loading -/

/-- Brings the object of an output into the memory of its package, without looking at anything but
the package; the jig that it is. -/
def Host.place (h : Host) (o : Output) (cls : Abi.Class) (lock : Lock) (values : List Value) :
    Engine TouchedJig := do
  let home ← h.instanceFor ⟨o.classPtr.id⟩
  let address ← h.buildObject home cls o.origin values
  return ⟨o.origin, some o.location, home, o.classPtr.idx.toNat, address, lock⟩

/-- A package that runs under an id that is registered is the registered one. -/
theorem Lawful.package_eq (lawful : Lawful c s) (vetted : Vetted c s)
    (registry : c.env.registry.Sound) {id : PackageId} {p : Package}
    (known : c.env.registry.get? id = some p) {inst : PackageInstance} (mem : inst ∈ s.instances)
    (isOf : inst.IsOf c id) : inst.package = p := by
  rcases isOf with named | registered
  · obtain ⟨id', found | ⟨deployed, -⟩⟩ := vetted.finds mem
    · obtain ⟨same, -⟩ := registry id' _ found
      rw [← same, named, known] at found
      exact (Option.some.inj found).symm
    · have missing := lawful.deploys.unregistered _ deployed
      rw [named, known] at missing
      cases missing
  · rw [known] at registered
    exact (Option.some.inj registered).symm

/-- When an output is loadable, loading it fails only as far as starting its package or allocating
its object does: all other checks are passed. -/
theorem runFrom_rehydrate_of_loadable {inv : Invoker} (hinv : inv.IsSafe c)
    (vetting : ∀ guest errand thread, Vetting c (inv c guest errand thread))
    (lawful : Lawful c s) (vetted : Vetted c s) (registry : c.env.registry.Sound) {o : Output}
    (loadable : o.IsLoadable c.env.registry) : ∃ lock package cls values,
      Host.storedLock o = .ok lock ∧ c.env.registry.get? ⟨o.classPtr.id⟩ = some package ∧
      package.abi.classAt o.classPtr.idx.toNat = .ok cls ∧
      Ty.decodeState cls.fieldTypes o.state = .ok values ∧
      runFrom s ((inv.host c).rehydrate o) =
        runFrom s ((inv.host c).place o cls lock values) := by
  obtain ⟨lock, rebuilt, -, thawed⟩ := loadable.lock
  obtain ⟨package, cls, values, known, hc, decoded⟩ := loadable.cls
  have stored := storedLock_of_thawed rebuilt thawed loadable.origin
  refine ⟨lock, package, cls, values, stored, known, hc, decoded, ?_⟩
  have packaged : ∃ p, runFrom s (packageOf (inv.host c).context o) = (.ok p, s) := by
    rcases hp : s.package? c ⟨o.classPtr.id⟩ with _ | p
    · have missing := (Session.package?_eq_none hp).2
      rw [known] at missing
      cases missing
    · exact ⟨p, runFrom_packageOr_eq_ok.2 ⟨hp, rfl⟩⟩
  obtain ⟨p, packaged⟩ := packaged
  have locked : runFrom s (orError id (Host.storedLock o)) = (.ok lock, s) :=
    runFrom_orError_eq_ok.2 ⟨stored, rfl⟩
  rw [Host.rehydrate, runFrom_bind_of_ok locked, runFrom_bind_of_ok packaged, Host.place,
    runFrom_bind, runFrom_bind]
  rcases run : runFrom s ((inv.host c).instanceFor ⟨o.classPtr.id⟩) with ⟨e | home, t⟩
  · rfl
  -- The package that has been started is the registered one, so its class and the state fit.
  obtain ⟨inst, there, isOf⟩ := lawful.instanceFor run
  have built : Built inv none fun c => (inv.host c).instanceFor ⟨o.classPtr.id⟩ := .instanceFor _
  have lawful' : Lawful c t := ((built.safe hinv s lawful (.none s)).of_ok run).1
  have vetted' : Vetted c t := by
    have onward := Vetting.instanceFor (h := inv.host c) vetting ⟨o.classPtr.id⟩ s vetted
    rw [run] at onward
    exact onward.vetted
  have same := lawful'.package_eq vetted' registry known (List.mem_of_getElem? there) isOf
  rw [← same] at hc
  dsimp only
  rw [Host.rehydrateIn, runFrom_bind_of_ok (runFrom_instanceAt_eq_ok.2 ⟨there, rfl⟩)]
  dsimp only
  rw [runFrom_bind_of_ok (runFrom_orError_eq_ok.2 ⟨hc, rfl⟩),
    runFrom_bind_of_ok (runFrom_orError_eq_ok.2 ⟨decoded, rfl⟩)]

end Engine

namespace Ledger

variable {p : Policy} {l l' : Ledger} {log : List Deed} {e : Execution} {o : Output}

/-! ### What the ledger has -/

/-- The class of coins is the class with the configured name in the configured package, which is
registered. -/
theorem exists_of_coinClass {config : Config} {id : PackageId} {cls : Abi.Class}
    (h : l.coinClass config = .ok (id, cls)) : config.coinPackage = some id ∧
      ∃ package idx, l.registry.get? id = some package ∧
        package.abi.exportIndex? config.coinClassName = some idx ∧
        package.abi.classAt idx = .ok cls := by
  unfold coinClass at h
  split at h
  case h_2 => cases h
  case h_1 configured same =>
    split at h
    case h_2 => cases h
    case h_1 package known =>
      split at h
      case h_2 => cases h
      case h_1 found named =>
        cases h
        obtain ⟨idx, exported, resolved⟩ := Option.bind_eq_some_iff.1 named
        exact ⟨same, package, idx, known, exported, toOption_eq_some.1 resolved⟩

/-- The output of a minted coin: a jig of the class of coins that belongs to the owner, whose fields
are zero but for the amount. -/
structure Minted (l : Ledger) (config : Config) (owner : Address) (amount : UInt64) (o : Output)
    (id : PackageId) (cls : Abi.Class) (values : List Value) : Prop where
  coin : l.coinClass config = .ok (id, cls)
  hasAmount : cls.fields.any isAmount = true
  each : List.Forall₂ (fun f v => mintedValue amount f = .ok v) cls.fields values
  lock : (Lock.address owner).toRecord o.origin = .ok o.lock
  state : Ty.encodeState cls.fieldTypes values = .ok o.state
  classPtr : o.classPtr = .ofExport id (UInt32.ofNat cls.exportIdx)

theorem exists_minted {config : Config} {owner : Address} {amount seed : UInt64}
    (done : l.mint config owner amount seed = .ok (o, l')) :
    ∃ id cls values, l.Minted config owner amount o id cls values := by
  simp only [mint, bind_eq_ok, mapError_eq_ok, pure, Except.pure, Except.ok.injEq,
    Prod.mk.injEq] at done
  obtain ⟨o, minted, store, -, rfl, -⟩ := done
  simp only [mintedOutput, bind_eq_ok] at minted
  obtain ⟨⟨id, cls⟩, coin, rest⟩ := minted
  split at rest
  case isTrue => cases rest
  case isFalse amounts =>
    simp only [bind_eq_ok, mapError_eq_ok, mapM_eq_ok, pure, Except.pure, Except.ok.injEq] at rest
    obtain ⟨values, given, payload, -, lock, locked, state, encoded, rfl⟩ := rest
    exact ⟨id, cls, values, coin, by simpa using amounts, given, locked, encoded, rfl⟩

/-- A minted coin is written down like any other jig. -/
theorem written_of_mint (registry : l.registry.Holds (·.IsMadeBy p.compiler)) {owner : Address}
    {amount seed : UInt64} (done : l.mint p.config owner amount seed = .ok (o, l')) :
    o.IsWritten p.compiler l.registry := by
  obtain ⟨id, cls, values, minted⟩ := exists_minted done
  obtain ⟨-, package, idx, known, -, hc⟩ := exists_of_coinClass minted.coin
  obtain ⟨rfl, made⟩ := registry id package known
  refine ⟨⟨package, idx, cls, values, known, made, hc, minted.state, ?_⟩, _, minted.lock, nofun⟩
  rw [minted.classPtr, made.isBuilt.exportIdx_eq hc]

namespace Chronicle

/-- What was executed was executed over packages that are still registered. -/
theorem extends_of_executed (h : Chronicle p l log) (mem : .executed e ∈ log) :
    e.ledger.registry.Extends l.registry := by
  induction h with
  | empty => cases mem
  | deploy _ done ih =>
    obtain ⟨package, registry, -, added, rfl⟩ := deploy_eq_ok done
    cases mem
    case tail mem => exact (ih mem).trans (Registry.extends_add added)
  | mint _ done ih =>
    obtain ⟨store, -, rfl⟩ := mint_eq_ok done
    cases mem
    case tail mem => exact ih mem
  | execute _ _ ih =>
    cases mem
    case head => exact .refl _
    case tail mem => exact ih mem
  | commit _ _ done ih =>
    cases mem
    case tail mem => exact (ih mem).trans (Registry.extends_foldlM_add (commit_eq_ok.1 done).2.2)

/-- What an execution deploys was made by the compiler of the ledger. -/
theorem made_of_executed (h : Chronicle p l log) (mem : .executed e ∈ log) :
    ∀ package ∈ e.result.deploys, package.IsMadeBy p.compiler := by
  obtain ⟨c, s, context, run⟩ := execute_eq_ok.1 (h.executed mem).1
  rw [(Engine.runTransaction_eq_ok run).1]
  have made := (Engine.vetted_of_run run).made
  rwa [env_of_contextOf context] at made

/-- All registered packages were made by the compiler of the ledger. -/
theorem made (h : Chronicle p l log) : l.registry.Holds (·.IsMadeBy p.compiler) := by
  induction h with
  | empty => exact Registry.holds_empty _
  | deploy _ done ih =>
    obtain ⟨package, registry, made, added, rfl⟩ := deploy_eq_ok done
    exact ih.add made added
  | mint _ done ih =>
    obtain ⟨store, -, rfl⟩ := mint_eq_ok done
    exact ih
  | execute _ _ ih => exact ih
  | commit before mem done ih =>
    exact ih.foldlM_add (before.made_of_executed mem) (commit_eq_ok.1 done).2.2

theorem sound_registry (h : Chronicle p l log) : l.registry.Sound := fun id package known =>
  (h.made id package known).imp_right Package.IsMadeBy.isBuilt

/-- What an execution writes down belongs to packages that are registered once it is committed. -/
theorem written_of_commit (h : Chronicle p l log) (mem : .executed e ∈ log)
    (done : l.commit e.result = .ok l') (ho : o ∈ e.result.outputs) :
    o.IsWritten p.compiler l'.registry := by
  obtain ⟨executed, earlier, -, before⟩ := h.executed mem
  obtain ⟨c, s, context, run⟩ := execute_eq_ok.1 executed
  obtain ⟨-, -, registered⟩ := commit_eq_ok.1 done
  have env := env_of_contextOf context
  have compiler : c.env.compiler = p.compiler := congrArg Engine.Env.compiler env
  rw [← compiler]
  refine Engine.written_of_run ?_ run ho ?_ (Registry.registered_foldlM_add registered)
  · rw [env]
    exact before.made
  · rw [env]
    exact (h.extends_of_executed mem).trans (Registry.extends_foldlM_add registered)

/-- All that has been put into the store was written down for jigs of packages that are registered
now. -/
theorem written (h : Chronicle p l log) :
    ∀ o ∈ log.flatMap Deed.outputs, o.IsWritten p.compiler l.registry := by
  induction h with
  | empty => exact nofun
  | deploy _ done ih =>
    obtain ⟨package, registry, -, added, rfl⟩ := deploy_eq_ok done
    exact fun o ho => (ih o ho).mono (Registry.extends_add added)
  | mint before done ih =>
    have new := written_of_mint before.made done
    obtain ⟨store, -, rfl⟩ := mint_eq_ok done
    exact List.forall_mem_cons.2 ⟨new, ih⟩
  | execute _ _ ih => exact ih
  | commit before mem done ih =>
    intro o ho
    rcases List.mem_append.1 ho with ho | ho
    · exact before.written_of_commit mem done ho
    · exact (ih o ho).mono (Registry.extends_foldlM_add (commit_eq_ok.1 done).2.2)

/-- Whatever can be spent can be loaded. -/
theorem loadable (h : Chronicle p l log) (numbers : p.compiler.NumbersExports) {location : Pointer}
    (found : l.store.live[location]? = some o) : o.IsLoadable l.registry :=
  (h.written o (h.placed_of_live found)).loadable numbers

/-- Whatever cannot be spent any more has become a tombstone. -/
theorem leaves (h : Chronicle p l log) :
    l.store.Leaves fun o => ∃ last origin, o = Store.tombstone last origin := by
  induction h with
  | empty => intro origin o left; simp [Ledger.empty, Store.empty] at left
  | deploy _ done ih =>
    obtain ⟨package, registry, -, -, rfl⟩ := deploy_eq_ok done
    exact ih
  | mint _ done ih =>
    obtain ⟨store, inserted, rfl⟩ := mint_eq_ok done
    exact ih.insert inserted
  | execute _ _ ih => exact ih
  | commit _ _ done ih =>
    exact ih.apply (fun last origin => ⟨last, origin, rfl⟩) (commit_eq_ok.1 done).2.1

/-- What the store gives out can be spent, or it is a tombstone. -/
theorem loadable_or_tombstone (h : Chronicle p l log) (numbers : p.compiler.NumbersExports)
    (given : (∃ origin, l.store.byOrigin origin = some o) ∨
      ∃ location, l.store.byLocation location = some o) :
    o.IsLoadable l.registry ∨ ∃ last origin, o = Store.tombstone last origin := by
  rcases given with ⟨origin, found⟩ | ⟨location, found⟩
  · rcases Store.live_or_destroyed_of_byOrigin found with ⟨location, there⟩ | left
    · exact .inl (h.loadable numbers there)
    · exact .inr (h.leaves origin o left)
  · exact .inl (h.loadable numbers found)

end Chronicle

/-- Everything that is stored can be loaded back, as long as the compiler numbers the exports of
packages with 32 bits. Every output that can be spent is loadable. When a running transaction loads
what the store gives out, by an origin or by a location, and finds a tombstone, it is refused
because the jig is frozen. Otherwise the lock, the package, the class and the state are there, and
loading the jig is the same as starting its package and building its object: no other check fails.
All that is needed of the session is what every operation of a transaction keeps. -/
theorem stored_loadable (numbers : p.compiler.NumbersExports) (h : Chronicle p l log) :
    (∀ (location : Pointer) (o : Output), l.store.live[location]? = some o →
      o.IsLoadable l.registry) ∧
    ∀ (c : Engine.Context) (room : Nat) (s : Engine.Session), c.env = l.env p →
      Engine.Lawful c s → Engine.Vetted c s → ∀ o : Output,
      ((∃ origin, l.store.byOrigin origin = some o) ∨
        ∃ location, l.store.byLocation location = some o) →
      let host : Engine.Host := ⟨c, Engine.onErrand (Engine.run c room)⟩
      (∃ last origin, o = Store.tombstone last origin ∧
        Engine.runFrom s (host.rehydrate o) =
          (.error (.ofError ((ExecError.refused "jig is frozen").withOrigin last.origin)), s)) ∨
      ∃ lock package cls values, Engine.Host.storedLock o = .ok lock ∧
        l.registry.get? ⟨o.classPtr.id⟩ = some package ∧
        package.abi.classAt o.classPtr.idx.toNat = .ok cls ∧
        Ty.decodeState cls.fieldTypes o.state = .ok values ∧
        Engine.runFrom s (host.rehydrate o) =
          Engine.runFrom s (host.place o cls lock values) := by
  refine ⟨fun _ _ found => h.loadable numbers found, fun c room s env lawful vetted o given => ?_⟩
  rcases h.loadable_or_tombstone numbers given with loadable | ⟨last, origin, rfl⟩
  · refine .inr ?_
    have registry : c.env.registry = l.registry := congrArg Engine.Env.registry env
    rw [← registry] at loadable ⊢
    exact Engine.runFrom_rehydrate_of_loadable
      (Engine.isSafe_onErrand (fun _ => room) (Engine.Safe.run _))
      (Engine.Vetting.onErrand (Engine.Vetting.run _)) lawful vetted (registry ▸ h.sound_registry)
      loadable
  · exact .inl ⟨last, origin, rfl, Engine.runFrom_rehydrate_tombstone _ s last⟩

/-- A coin that has been loaded and written down again can be loaded once more. -/
theorem stored_loadable_of_coin :
    ∃ (p : Policy) (l : Ledger) (log : List Deed) (c : Engine.Context) (s : Engine.Session)
      (location : Pointer) (o : Output), p.compiler.NumbersExports ∧ Chronicle p l log ∧
      c.env = l.env p ∧ Engine.Lawful c s ∧ Engine.Vetted c s ∧
      l.store.live[location]? = some o ∧ o.origin ≠ location ∧ o.IsLoadable l.registry ∧
      ∀ room, let host : Engine.Host := ⟨c, Engine.onErrand (Engine.run c room)⟩
        ∃ lock cls values, Engine.runFrom s (host.rehydrate o) =
          Engine.runFrom s (host.place o cls lock values) := by
  obtain ⟨l, log, chronicle, -, told⟩ := Till.exists_chronicle
    (fun coin => [⟨[.loadByOrigin coin]⟩])
    (fun l log => (log.flatMap Deed.outputs).any fun o => decide (o.origin ≠ o.location) &&
      (l.store.live[o.location]?).any fun o' => decide (o' = o)) (by decide +kernel)
  obtain ⟨o, -, told⟩ := List.any_eq_true.1 told
  obtain ⟨moved, told⟩ := Bool.and_eq_true_iff.1 told
  obtain ⟨o', found, same⟩ := (Option.any_eq_true _ _).1 told
  cases of_decide_eq_true same
  have numbers : Till.policy.compiler.NumbersExports := by
    rintro _ _ _ id - ⟨⟩
    decide
  let c : Engine.Context := ⟨l.env Till.policy, default, []⟩
  have lawful : Engine.Lawful c (.start 100 1) := Engine.lawful_start c 100 1
  have vetted : Engine.Vetted c (.start 100 1) := Engine.vetted_start c 100 1
  obtain ⟨live, loads⟩ := stored_loadable numbers chronicle
  have loadable := live _ _ found
  refine ⟨_, l, log, c, _, o.location, o, numbers, chronicle, rfl, lawful, vetted, found,
    of_decide_eq_true moved, loadable, fun room => ?_⟩
  rcases loads c room _ rfl lawful vetted o (.inr ⟨_, found⟩) with tomb | loaded
  · obtain ⟨last, origin, rfl, -⟩ := tomb
    obtain ⟨lock, rebuilt, -, thawed⟩ := loadable.lock
    cases rebuilt
    exact absurd rfl thawed
  · obtain ⟨lock, package, cls, values, -, -, -, -, same⟩ := loaded
    exact ⟨lock, cls, values, same⟩

end Ledger

end JigLedger
