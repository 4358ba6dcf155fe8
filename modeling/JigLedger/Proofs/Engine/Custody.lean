import JigLedger.Proofs.Engine.Allotment
import JigLedger.Proofs.Engine.Opening
import JigLedger.Proofs.Value.Memory
import Mathlib.Logic.Function.Basic

/-!
# Jigs in the memory of their packages

Between calls every package that runs has a guest of its own, and the engine only adds to what is in
the memory of a guest. So the fields of a jig that has been loaded stay what they were in its stored
output, whatever packages are started and whatever other jigs are loaded afterwards.
-/

namespace JigLedger.Engine

variable {c : Context} {s t u : Session} {areas areas' areas'' : Nat → Set Nat}

/-! ### Packages that can be relied on -/

/-- All packages of a registry were built, and their allocators can be relied on. -/
structure Env.Reliable (env : Env) : Prop where
  sound : env.registry.Sound
  /-- Offsets are 32-bit words: behind too many fields they would begin again. -/
  bounded : ∀ id p, env.registry.get? id = some p → p.abi.isBounded = true
  /-- What an allocator hands out is apart from all that it has handed out before. -/
  apart : ∀ id p, env.registry.get? id = some p → KeepsApart env.config p

/-- The classes of such a package are laid out. -/
theorem Env.Reliable.laid {env : Env} (h : env.Reliable) {id : PackageId} {p : Package}
    (found : env.registry.get? id = some p) {idx : Nat} {cls : Abi.Class}
    (hc : p.abi.classAt idx = .ok cls) : cls.Laid := by
  obtain ⟨-, entries, sources, artifacts, built⟩ := h.sound id p found
  exact Abi.laid_of_resolve (Package.of_build built).2.1 (h.bounded id p found) hc

/-- If there is a package with an id, it was checked and its allocator can be relied on. -/
def Env.Trusts (env : Env) (id : PackageId) : Prop :=
  ∀ p, env.registry.get? id = some p →
    p.id = id ∧ p.module.validate = .ok () ∧ KeepsApart env.config p

theorem Env.Reliable.trusts {env : Env} (h : env.Reliable) (id : PackageId) : env.Trusts id := by
  intro p found
  obtain ⟨same, built⟩ := h.sound id p found
  exact ⟨same, built.validate, h.apart id p found⟩

/-! ### Packages that run -/

/-- A package is registered and has the guest with its own index, whose allocator has returned the
bytes of an area. -/
structure Tenant (c : Context) (area : Set Nat) (s : Session) (home : Nat)
    (inst : PackageInstance) : Prop where
  guest : inst.guest = home
  registered : c.env.registry.get? inst.package.id = some inst.package
  leased : ∃ guest, s.guests[home]? = some guest ∧ Leased c inst guest area

/-- Each package that runs has a guest of its own. -/
structure Hosted (c : Context) (areas : Nat → Set Nat) (s : Session) : Prop where
  count : s.guests.length = s.instances.length
  tenants : ∀ home inst, s.instances[home]? = some inst → Tenant c (areas home) s home inst

theorem hosted_start (c : Context) (fuel start : Nat) : Hosted c areas (.start fuel start) :=
  ⟨rfl, nofun⟩

theorem Hosted.of_same (h : Hosted c areas s) (instances : t.instances = s.instances)
    (guests : t.guests = s.guests) : Hosted c areas t := by
  refine ⟨guests ▸ instances ▸ h.count, fun home inst found => ?_⟩
  obtain ⟨at', registered, guest, here, leased⟩ := h.tenants home inst (instances ▸ found)
  exact ⟨at', registered, guest, guests ▸ here, leased⟩

/-- All packages that were running still run, and the bytes that were in use are the same. -/
structure Carries (areas areas' : Nat → Set Nat) (s t : Session) : Prop where
  instances : ∀ {home : Nat} {inst : PackageInstance},
    s.instances[home]? = some inst → t.instances[home]? = some inst
  guests : ∀ {home : Nat} {guest : Guest}, s.guests[home]? = some guest →
    areas home ⊆ areas' home ∧
    ∃ guest', t.guests[home]? = some guest' ∧
      LinearMemory.AgreesOn (areas home) guest.machine.memory guest'.machine.memory

theorem Carries.of_same (areas : Nat → Set Nat) (instances : t.instances = s.instances)
    (guests : t.guests = s.guests) : Carries areas areas s t :=
  ⟨fun found => instances ▸ found, fun found => ⟨subset_rfl, _, guests ▸ found, Set.eqOn_refl _ _⟩⟩

theorem Carries.refl (areas : Nat → Set Nat) (s : Session) : Carries areas areas s s :=
  .of_same areas rfl rfl

theorem Carries.trans (h : Carries areas areas' s t) (h' : Carries areas' areas'' t u) :
    Carries areas areas'' s u := by
  refine ⟨fun found => h'.instances (h.instances found), fun found => ?_⟩
  obtain ⟨sub, guest', found', same⟩ := h.guests found
  obtain ⟨sub', guest'', found'', same'⟩ := h'.guests found'
  exact ⟨sub.trans sub', guest'', found'', same.trans (same'.mono sub)⟩

/-- Behind the end of a list there is one item more, and nothing else has changed. -/
theorem getElem?_concat_of_ne {α : Type} {items : List α} {a : α} {i : Nat}
    (other : i ≠ items.length) : (items ++ [a])[i]? = items[i]? := by
  obtain below | above := Nat.lt_or_gt_of_ne other
  · exact List.getElem?_append_left below
  · rw [List.getElem?_eq_none (Nat.le_of_lt above), List.getElem?_eq_none]
    rw [List.length_append]
    exact above

/-- No package has changed but the one with an index, which may be new. -/
structure OnlyHome (home : Nat) (s t : Session) : Prop where
  instances : ∀ i, i ≠ home → t.instances[i]? = s.instances[i]?
  guests : ∀ i, i ≠ home → t.guests[i]? = s.guests[i]?

section OnlyHome

variable {home : Nat} {area : Set Nat} (only : OnlyHome home s t)

include only

/-- All packages have guests of their own if that one has, given the bytes of its area. -/
theorem Hosted.update (h : Hosted c areas s) (count : t.guests.length = t.instances.length)
    (new : ∀ inst, t.instances[home]? = some inst → Tenant c area t home inst) :
    Hosted c (Function.update areas home area) t := by
  refine ⟨count, fun i inst found => ?_⟩
  by_cases other : i = home
  · subst other
    rw [Function.update_self]
    exact new inst found
  · rw [only.instances i other] at found
    obtain ⟨at', registered, guest, here, leased⟩ := h.tenants i inst found
    rw [Function.update_of_ne other]
    exact ⟨at', registered, guest, (only.guests i other).trans here, leased⟩

/-- All bytes that were in use are the same if those of that package are. -/
theorem Carries.update
    (inst : ∀ inst, s.instances[home]? = some inst → t.instances[home]? = some inst)
    (guest : ∀ guest, s.guests[home]? = some guest → areas home ⊆ area ∧
      ∃ guest', t.guests[home]? = some guest' ∧
        LinearMemory.AgreesOn (areas home) guest.machine.memory guest'.machine.memory) :
    Carries areas (Function.update areas home area) s t := by
  constructor <;> intro i x found <;> by_cases other : i = home
  · subst other
    exact inst x found
  · exact (only.instances i other).trans found
  · subst other
    rw [Function.update_self]
    exact guest x found
  · rw [Function.update_of_ne other]
    exact ⟨subset_rfl, x, (only.guests i other).trans found, Set.eqOn_refl _ _⟩

end OnlyHome

/-! ### Starting packages -/

/-- A guest that has been linked is the module of the package before its start function runs. -/
theorem runFrom_linkedGuest_eq_ok {m : Wasm.Module} {guest : Guest}
    (run : runFrom s ((host c).linkedGuest m) = (.ok guest, t)) :
    m.imports.mapM HostImport.link = .ok guest.links ∧ ∃ allocated,
      m.allocate c.env.config.maxMemoryBytes = some allocated ∧
      allocated.writeSegments m.segments = .ok guest.machine := by
  obtain ⟨links, _, linking, rest⟩ := runFrom_bind_eq_ok run
  obtain ⟨linked, rfl⟩ := runFrom_orPlain_eq_ok.1 linking
  split at rest
  case h_1 => cases rest
  case h_2 allocated found =>
    split at rest
    case h_1 => cases rest
    case h_2 machine filled =>
      cases rest
      exact ⟨linked, allocated, found, filled⟩

/-- The allocator of a package is what it exports under the name of the allocator. -/
theorem runFrom_allocatorOf_eq_ok {p : Package} {idx : Nat}
    (run : runFrom s (Host.allocatorOf p) = (.ok idx, t)) :
    t = s ∧ p.module.exportedFunc? Package.allocExport = some idx := by
  refine ⟨(ReadsOnly.allocatorOf p).of_ok run, ?_⟩
  unfold Host.allocatorOf at run
  split at run
  · cases run
  split at run
  case h_1 => cases run
  case h_2 found =>
    split at run
    · cases run
      exact found
    · cases run

/-- A package that is launched while no call is on the stack has run its start function by itself.
-/
theorem runFrom_launch_eq_ok {p : Package} {targets : List (Option Nat)} {guest : Guest}
    {home : Nat} (frameless : s.frames = [])
    (run : runFrom s ((host c).launch p targets guest) = (.ok home, t)) :
    home = s.instances.length ∧ ∃ inst machine, inst.package = p ∧
      inst.guest = s.guests.length ∧ t.instances = s.instances ++ [inst] ∧
      t.guests.length = s.guests.length + 1 ∧
      (∀ i, i ≠ s.guests.length → t.guests[i]? = s.guests[i]?) ∧
      t.guests[s.guests.length]? = some { guest with machine := machine } ∧
      p.module.exportedFunc? Package.allocExport = some inst.allocator ∧
      Begins c.env.config guest.links p.module guest.machine machine := by
  obtain ⟨idx, _, added, running⟩ := runFrom_bind_eq_ok run
  cases added
  have here : (s.launched guest).guests[s.guests.length]? = some guest := by
    simp [Session.launched, Session.record]
  obtain ⟨_, _, starting, finishing⟩ := runFrom_bind_eq_ok running
  have began := runFrom_rethrow_eq_ok.1 starting
  obtain ⟨allocator, u, looked, adding⟩ := runFrom_bind_eq_ok finishing
  obtain ⟨rfl, exported⟩ := runFrom_allocatorOf_eq_ok looked
  cases adding
  obtain ⟨only, machine, starts, there⟩ :=
    runFrom_runStart_eq_ok (by exact frameless) here began
  refine ⟨congrArg List.length only.instances, ⟨p, s.guests.length, allocator, targets⟩, machine,
    rfl, rfl, ?_, ?_, fun i other => ?_, there, exported, starts⟩
  · exact congrArg (· ++ [_]) only.instances
  · refine only.count.trans ?_
    simp [Session.launched, Session.record]
  · refine (only.others i other).trans ?_
    exact getElem?_concat_of_ne other

/-- A package that starts while no call is on the stack gets a guest of its own. -/
theorem hosted_instantiate {p : Package} {targets : List (Option Nat)} {home : Nat}
    (trusts : c.env.Trusts p.id) (registered : c.env.registry.get? p.id = some p)
    (hosted : Hosted c areas s) (frameless : s.frames = [])
    (run : runFrom s ((host c).instantiate p targets) = (.ok home, t)) :
    ∃ areas', Hosted c areas' t ∧ Carries areas areas' s t ∧
      ∃ inst, t.instances[home]? = some inst ∧ inst.package = p := by
  obtain ⟨guest, u, linking, launching⟩ := runFrom_bind_eq_ok run
  have linked := runFrom_rethrow_eq_ok.1 linking
  obtain rfl := ReadsOnly.of_ok (.linkedGuest (host c) p.module) linked
  obtain ⟨links, allocated, first, filled⟩ := runFrom_linkedGuest_eq_ok linked
  obtain ⟨rfl, inst, machine, rfl, at', instances, count, others, there, exported, started⟩ :=
    runFrom_launch_eq_ok frameless launching
  have leased : Leased c inst { guest with machine := machine } ∅ := by
    obtain ⟨-, valid, apart⟩ := trusts _ registered
    exact ⟨links, exported, .started ⟨allocated, guest.machine, first, filled, started⟩, valid,
      apart⟩
  have new : t.instances[u.instances.length]? = some inst := by simp [instances]
  have only : OnlyHome u.instances.length u t := by
    refine ⟨fun i other => ?_, fun i other => others i (hosted.count ▸ other)⟩
    rw [instances, getElem?_concat_of_ne other]
  refine ⟨Function.update areas u.instances.length ∅, hosted.update only ?_ fun j found => ?_,
    .update only ?_ ?_, inst, new, rfl⟩
  · rw [count, instances, List.length_append, hosted.count]
    rfl
  · obtain rfl : j = inst := Option.some.inj (found.symm.trans new)
    rw [← hosted.count]
    exact ⟨at', registered, _, there, leased⟩
  · intro j found
    rw [List.getElem?_eq_none (Nat.le_refl _)] at found
    cases found
  · intro g found
    rw [List.getElem?_eq_none (Nat.le_of_eq hosted.count)] at found
    cases found

/-- A package that is needed runs afterwards. -/
theorem hosted_instanceFor {id : PackageId} {home : Nat} (trusts : c.env.Trusts id)
    (hosted : Hosted c areas s) (frameless : s.frames = []) (undeployed : s.deploys = [])
    (run : runFrom s ((host c).instanceFor id) = (.ok home, t)) :
    ∃ areas', Hosted c areas' t ∧ Carries areas areas' s t ∧
      ∃ inst, t.instances[home]? = some inst ∧ inst.package.id = id := by
  obtain ⟨_, _, looked, rest⟩ := runFrom_bind_eq_ok run
  cases looked
  rcases hi : s.instanceIndex? id with _ | idx <;> simp only [hi] at rest
  · obtain ⟨p, _, found, booting⟩ := runFrom_bind_eq_ok rest
    obtain ⟨known, rfl⟩ := runFrom_packageOr_eq_ok.1 found
    obtain ⟨targets, u, targeting, starting⟩ := runFrom_bind_eq_ok booting
    obtain rfl := ReadsOnly.of_ok (.mapM (.importTarget c) p.abi.imports) targeting
    have registered : c.env.registry.get? id = some p := by
      rwa [Session.package?, undeployed, List.find?_nil] at known
    obtain rfl := (trusts p registered).1
    obtain ⟨areas', hosted', carries, inst, there, rfl⟩ :=
      hosted_instantiate trusts registered hosted frameless starting
    exact ⟨areas', hosted', carries, inst, there, rfl⟩
  · cases rest
    obtain ⟨inst, there, same⟩ := Session.instanceIndex?_eq_some hi
    exact ⟨areas, hosted, .refl _ _, inst, there, same⟩

/-! ### Objects of jigs -/

section Objects

variable {view : View} {h : Host} {home : Nat} (serves : Serves view (h.heap home (.object home)))
  {cls : Abi.Class} (laid : cls.Laid) {values : List Value} {bs : Bytes}
  (row : Ty.EncodesRow cls.fieldTypes values bs) (origin : Pointer)

include serves laid row

/-- The fields of an object that has been filled in are read back. -/
theorem fills_object {p : UInt32} (bounded : p.toNat + cls.size.toNat ≤ UInt32.size) :
    Fills view (span p.toNat cls.size.toNat)
      (do
        Ty.writeOrigin (h.heap home (.object home)) p origin
        Ty.writeRecord (h.heap home (.object home)) cls.fields values p
        return p)
      fun address mem => Ty.GivesEach mem cls.fields address values := by
  have header : Abi.Scope.jigHeaderSize.toNat = 4 := rfl
  have enough : 4 ≤ cls.size.toNat := laid.spaced.le
  have small : origin.toBytes.length + 4 < UInt32.size := by
    rw [Pointer.length_toBytes]
    decide
  have first : Fills view (span p.toNat 4) (Ty.writeOrigin (h.heap home (.object home)) p origin)
      fun _ _ => True := by
    refine (Ty.fills_writeBuffer serves small).bind (Set.empty_disjoint _)
      (by rw [Set.empty_union]) fun buffer _ _ => ?_
    exact (Fills.writeWord serves (covers_span p 4)).imp fun _ _ _ _ => trivial
  have sized : cls.fields.length = values.length := by
    simpa [Abi.Class.fieldTypes] using (Ty.encodesRow_iff.1 row).1
  have kept : ∀ f ∈ cls.fields, f.ty.Kept view (h.heap home (.object home)) := fun f mem =>
    (laid.types f mem).kept serves
  have second := Ty.fills_writeFieldsAt serves kept row laid.spaced bounded
  have behind : Set.Ico (p.toNat + Abi.Scope.jigHeaderSize.toNat) (p.toNat + cls.size.toNat) =
      span (p.toNat + 4) (cls.size.toNat - 4) := by
    rw [span, header, Nat.add_assoc, Nat.add_sub_of_le enough]
  have whole : span p.toNat 4 ∪ span (p.toNat + 4) (cls.size.toNat - 4) =
      span p.toNat cls.size.toNat := by
    rw [span_union_span, Nat.add_sub_of_le enough]
  rw [behind] at second
  refine first.bind (disjoint_span (Nat.le_refl _)) whole.subset fun _ _ _ => ?_
  rw [Ty.writeRecord, if_pos sized]
  exact second.bind_pure fun _ _ read _ => read

/-- The fields of an object that is built are read back. -/
theorem fills_buildObject :
    Fills view ∅ (h.buildObject home cls origin values) fun address mem =>
      Ty.GivesEach mem cls.fields address values := by
  refine .alloc_bind serves fun p _ bounded _ => ?_
  rw [Set.empty_union]
  exact fills_object serves laid row origin bounded

end Objects

/-- An object that is built stands in the memory of its package, and all others stay where they
are. -/
theorem hosted_buildObject {home : Nat} {inst : PackageInstance} {cls : Abi.Class}
    {values : List Value} {bs : Bytes} {origin : Pointer} {address : UInt32}
    (hosted : Hosted c areas s) (frameless : s.frames = [])
    (there : s.instances[home]? = some inst) (laid : cls.Laid)
    (row : Ty.EncodesRow cls.fieldTypes values bs)
    (run : runFrom s ((host c).buildObject home cls origin values) = (.ok address, t)) :
    ∃ areas', Hosted c areas' t ∧ Carries areas areas' s t ∧
      ∃ guest, t.guests[home]? = some guest ∧
        ∀ later, LinearMemory.AgreesOn (areas' home) guest.machine.memory later →
          Gives (Ty.readFieldsAt later cls.fields address) values := by
  obtain ⟨at', known, guest, here, leased⟩ := hosted.tenants home inst there
  have serves : Serves (yard c inst s) ((host c).heap home (.object home)) :=
    serves_heap frameless there
  have fills := fills_buildObject serves laid row origin
  obtain ⟨_, area, ⟨only, guest', here', rfl, leased'⟩, more, same, promise⟩ :=
    fills.leads ⟨.refl _ s, guest, at' ▸ here, rfl, leased⟩ (Set.empty_subset _) run
  rw [Set.sdiff_empty] at same
  rw [at'] at here' only
  have others : OnlyHome home s t :=
    ⟨fun i _ => congrArg (·[i]?) only.instances, only.others⟩
  refine ⟨Function.update areas home area, hosted.update others ?_ fun j found => ?_,
    .update others ?_ ?_, guest', here', fun later agrees => ?_⟩
  · rw [only.count, only.instances, hosted.count]
  · rw [only.instances] at found
    obtain rfl : j = inst := Option.some.inj (found.symm.trans there)
    exact ⟨at', known, guest', here', leased'⟩
  · intro j found
    rwa [only.instances]
  · intro g found
    obtain rfl : g = guest := Option.some.inj (found.symm.trans here)
    exact ⟨more, guest', here', same⟩
  · rw [Function.update_self] at agrees
    refine (promise later (agrees.mono ?_)).row
    rw [Set.empty_union]
    exact Set.sdiff_subset

/-! ### Stored jigs -/

/-- A touched jig is what a stored output says, and in the memory of its package it has the fields
that the output says. -/
structure Held (areas : Nat → Set Nat) (s : Session) (o : Output) (jig : TouchedJig) : Prop where
  origin : jig.origin = o.origin
  previous : jig.previous = some o.location
  lock : Host.storedLock o = .ok jig.lock
  classIdx : jig.classIdx = o.classPtr.idx.toNat
  object : ∃ inst guest cls values, s.instances[jig.home]? = some inst ∧
    s.guests[jig.home]? = some guest ∧ inst.package.id = ⟨o.classPtr.id⟩ ∧
    inst.package.abi.classAt jig.classIdx = .ok cls ∧
    Ty.EncodesRow cls.fieldTypes values o.state ∧
    ∀ later, LinearMemory.AgreesOn (areas jig.home) guest.machine.memory later →
      Gives (Ty.readFieldsAt later cls.fields jig.address) values

/-- It still is while the bytes in use stay the same. -/
theorem Held.carries {o : Output} {jig : TouchedJig} (h : Held areas s o jig)
    (carries : Carries areas areas' s t) : Held areas' t o jig := by
  obtain ⟨inst, guest, cls, values, there, here, id, classed, row, reads⟩ := h.object
  obtain ⟨more, guest', here', same⟩ := carries.guests here
  refine ⟨h.origin, h.previous, h.lock, h.classIdx, inst, guest', cls, values,
    carries.instances there, here', id, classed, row, fun later agrees => ?_⟩
  exact reads later (same.trans (agrees.mono more))

/-- A stored jig that is brought into memory is held, and so are all others. -/
theorem held_rehydrate {o : Output} {jig : TouchedJig} (reliable : c.env.Reliable)
    (hosted : Hosted c areas s) (frameless : s.frames = []) (undeployed : s.deploys = [])
    (run : runFrom s ((host c).rehydrate o) = (.ok jig, t)) :
    ∃ areas', Hosted c areas' t ∧ Carries areas areas' s t ∧ Held areas' t o jig := by
  obtain ⟨lock, _, locked, rest⟩ := runFrom_bind_eq_ok run
  obtain ⟨stored, rfl⟩ := runFrom_orError_eq_ok.1 locked
  obtain ⟨p, _, found, starting⟩ := runFrom_bind_eq_ok rest
  obtain ⟨-, rfl⟩ := runFrom_packageOr_eq_ok.1 found
  obtain ⟨home, u, started, reading⟩ := runFrom_bind_eq_ok starting
  have calm := Leads.calm_instanceFor c _ _ _ _ started frameless
  obtain ⟨areas₁, hosted₁, carries₁, inst, there, id⟩ :=
    hosted_instanceFor (reliable.trusts _) hosted frameless undeployed started
  obtain ⟨inst', _, looked, classing⟩ := runFrom_bind_eq_ok reading
  obtain ⟨there', rfl⟩ := runFrom_instanceAt_eq_ok.1 looked
  obtain rfl : inst' = inst := Option.some.inj (there'.symm.trans there)
  obtain ⟨cls, _, found, decoding⟩ := runFrom_bind_eq_ok classing
  obtain ⟨classed, rfl⟩ := runFrom_orError_eq_ok.1 found
  obtain ⟨values, _, read, building⟩ := runFrom_bind_eq_ok decoding
  obtain ⟨decoded, rfl⟩ := runFrom_orError_eq_ok.1 read
  obtain ⟨address, v, built, returned⟩ := runFrom_bind_eq_ok building
  cases returned
  obtain ⟨-, registered, -⟩ := hosted₁.tenants home inst' there
  obtain ⟨-, entries, sources, artifacts, build⟩ := reliable.sound _ _ registered
  have row := Ty.encodesRow_of_decodeState
    (Abi.isResolved_fieldTypes (Package.of_build build).2.1 classed) decoded
  obtain ⟨areas₂, hosted₂, carries₂, guest, here, reads⟩ := hosted_buildObject hosted₁
    (calm.frames.trans frameless) there (reliable.laid registered classed) row built
  refine ⟨areas₂, hosted₂, carries₁.trans carries₂, rfl, rfl, stored, rfl, ?_⟩
  exact ⟨inst', guest, cls, values, carries₂.instances there, here, id, classed, row, reads⟩

end JigLedger.Engine
