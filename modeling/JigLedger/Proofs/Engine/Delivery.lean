import JigLedger.Proofs.Value.Blank

/-!
# Loading blank jigs

The state of a stored jig is blank if all of it is zero but the scalars. When such a jig is loaded,
its package is started and its object is built, and whatever fails is one of these two: the package
does not start, or its allocator does not give the room that it is asked for. Once the jig is
loaded, each of its fields holds the stored value, at its place in the memory of the package.
-/

namespace JigLedger.Engine

variable {c : Context} {s t u : Session} {areas : Nat → Set Nat} {o : Output} {p : Package}
  {cls : Abi.Class} {values : List Value} {lock : Lock}

/-- The output of a blank jig, whose class belongs to a registered package that can be relied on. -/
structure Deliverable (c : Context) (o : Output) (p : Package) (cls : Abi.Class)
    (values : List Value) (lock : Lock) : Prop where
  lock : Host.storedLock o = .ok lock
  registered : c.env.registry.get? ⟨o.classPtr.id⟩ = some p
  trusts : c.env.Trusts ⟨o.classPtr.id⟩
  classed : p.abi.classAt o.classPtr.idx.toNat = .ok cls
  laid : cls.Laid
  decoded : Ty.decodeState cls.fieldTypes o.state = .ok values
  row : Ty.EncodesRow cls.fieldTypes values o.state
  blank : List.Forall₂ (fun f v => Ty.IsBlank f.ty v) cls.fields values

/-- A jig that has been loaded. Its object is within the memory of its package, and each field that
is read has the stored value. -/
structure Delivered (s : Session) (o : Output) (p : Package) (cls : Abi.Class)
    (values : List Value) (lock : Lock) (jig : TouchedJig) : Prop where
  origin : jig.origin = o.origin
  previous : jig.previous = some o.location
  lock : jig.lock = lock
  classIdx : jig.classIdx = o.classPtr.idx.toNat
  object : ∃ inst guest, s.instances[jig.home]? = some inst ∧ inst.package = p ∧
    s.guests[inst.guest]? = some guest ∧
    jig.address.toNat + cls.size.toNat ≤ guest.machine.memory.size ∧
    guest.machine.memory.size ≤ UInt32.size ∧
    Ty.GivesEach guest.machine.memory cls.fields jig.address values

/-- Other things that happen do not matter. -/
theorem Delivered.of_same {jig : TouchedJig} (h : Delivered s o p cls values lock jig)
    (instances : t.instances = s.instances) (guests : t.guests = s.guests) :
    Delivered t o p cls values lock jig := by
  obtain ⟨inst, guest, there, same, here, rest⟩ := h.object
  exact ⟨h.origin, h.previous, h.lock, h.classIdx, inst, guest, instances ▸ there, same,
    guests ▸ here, rest⟩

/-- From a session on, a package has failed to start, or it has started and then a request to its
allocator has failed. -/
inductive Shortage (c : Context) (id : PackageId) (s : Session) (failure : Failure) (t : Session) :
    Prop where
  | start (failed : runFrom s ((host c).instanceFor id) = (.error failure, t))
  | room {home : Nat} {inst : PackageInstance} {running : Session}
    (started : runFrom s ((host c).instanceFor id) = (.ok home, running))
    (there : running.instances[home]? = some inst)
    (withheld : Withholds c home inst running failure t)

/-- The object of a blank jig is built, or there is no room. -/
theorem runFrom_buildObject_blank {home : Nat} {inst : PackageInstance} {guest : Guest}
    {area : Set Nat} (frameless : s.frames = []) (there : s.instances[home]? = some inst)
    (here : s.guests[inst.guest]? = some guest) (leased : Leased c inst guest area)
    (laid : cls.Laid) {bs : Bytes} (row : Ty.EncodesRow cls.fieldTypes values bs)
    (blank : List.Forall₂ (fun f v => Ty.IsBlank f.ty v) cls.fields values) (origin : Pointer) :
    (∃ failure t, runFrom s ((host c).buildObject home cls origin values) = (.error failure, t) ∧
      Withholds c home inst s failure t) ∨
    ∃ address t guest',
      runFrom s ((host c).buildObject home cls origin values) = (.ok address, t) ∧
      t.instances = s.instances ∧ t.guests[inst.guest]? = some guest' ∧
      address.toNat + cls.size.toNat ≤ guest'.machine.memory.size ∧
      guest'.machine.memory.size ≤ UInt32.size ∧
      Ty.GivesEach guest'.machine.memory cls.fields address values := by
  have stands := withstands_heap (c := c) frameless there
  have shown : yard c inst s s guest.machine.memory area := ⟨.refl _ s, guest, here, rfl, leased⟩
  rcases built : runFrom s ((host c).buildObject home cls origin values) with ⟨failure | address, t⟩
  · have fails := failsOnly_buildObject stands laid row blank origin
    exact .inl ⟨failure, t, rfl, fails.leads shown (Set.empty_subset _) built⟩
  · obtain ⟨p, v, allocated, filling⟩ := runFrom_bind_eq_ok built
    obtain ⟨-, mem, shown', -, within, -⟩ := stands.alloc shown allocated
    have fills := fills_object stands.toServes laid row origin
      (within.trans (stands.size shown'))
    obtain ⟨_, A, last, more, -, promise⟩ := fills.leads shown' Set.subset_union_right filling
    obtain ⟨only, guest', here', rfl, -⟩ := id last
    -- The address that is returned is the one that was allocated.
    obtain rfl : p = address := by
      obtain ⟨_, _, -, recording⟩ := runFrom_bind_eq_ok filling
      obtain ⟨_, _, -, returned⟩ := runFrom_bind_eq_ok recording
      cases returned
      rfl
    have some : 0 < cls.size.toNat := Nat.lt_of_lt_of_le (by decide) laid.spaced.le
    have inside := reaches_span some (Set.subset_union_right.trans more) _ (stands.inside last)
    exact .inr ⟨p, t, guest', rfl, only.instances, here', inside, stands.size last,
      promise _ (Set.eqOn_refl _ _)⟩

/-- A blank jig is loaded, or there is a shortage. -/
theorem runFrom_rehydrate_blank (deliverable : Deliverable c o p cls values lock)
    (hosted : Hosted c areas s) (frameless : s.frames = []) (undeployed : s.deploys = []) :
    (∃ failure t, runFrom s ((host c).rehydrate o) = (.error failure, t) ∧
      Shortage c ⟨o.classPtr.id⟩ s failure t) ∨
    ∃ jig t, runFrom s ((host c).rehydrate o) = (.ok jig, t) ∧
      Delivered t o p cls values lock jig := by
  have locked : runFrom s (orError id (Host.storedLock o)) = (.ok lock, s) :=
    runFrom_orError_eq_ok.2 ⟨deliverable.lock, rfl⟩
  have packaged : runFrom s (packageOf (host c).context o) = (.ok p, s) := by
    refine runFrom_packageOr_eq_ok.2 ⟨?_, rfl⟩
    rw [Session.package?, undeployed, List.find?_nil]
    exact deliverable.registered
  rw [Host.rehydrate, runFrom_bind_of_ok locked, runFrom_bind_of_ok packaged, runFrom_bind]
  rcases started : runFrom s ((host c).instanceFor ⟨o.classPtr.id⟩) with ⟨failure | home, u⟩
  · exact .inl ⟨failure, u, rfl, .start started⟩
  have calm := Leads.calm_instanceFor c _ _ _ _ started frameless
  obtain ⟨areas', hosted', -, inst, there, named⟩ :=
    hosted_instanceFor deliverable.trusts hosted frameless undeployed started
  obtain ⟨at', known, guest, here, leased⟩ := hosted'.tenants home inst there
  obtain rfl : p = inst.package := by
    rw [named, deliverable.registered] at known
    exact Option.some.inj known
  dsimp only
  rw [Host.rehydrateIn, runFrom_bind_of_ok (runFrom_instanceAt_eq_ok.2 ⟨there, rfl⟩)]
  dsimp only
  rw [runFrom_bind_of_ok (runFrom_orError_eq_ok.2 ⟨deliverable.classed, rfl⟩),
    runFrom_bind_of_ok (runFrom_orError_eq_ok.2 ⟨deliverable.decoded, rfl⟩), runFrom_bind]
  obtain ⟨failure, t, built, withheld⟩ | ⟨address, t, guest', built, instances, here', object⟩ :=
    runFrom_buildObject_blank (calm.frames.trans frameless) there (at' ▸ here) leased
      deliverable.laid deliverable.row deliverable.blank o.origin
  · rw [built]
    exact .inl ⟨failure, t, rfl, .room started there withheld⟩
  · rw [built]
    exact .inr ⟨_, t, rfl, rfl, rfl, rfl, rfl, inst, guest', instances ▸ there, rfl, here', object⟩

end JigLedger.Engine
