import JigLedger.Proofs.Engine.Computation
import JigLedger.Proofs.Engine.Scene
import JigLedger.Proofs.Registry

/-!
# Lawful sessions

For each event there is something that has to hold when it happens: a method is entered only if
the lock of its jig permits that, a guest makes requests only while its code runs, and so on. A
session is lawful if its journal shows what the session is now, and every event in it was due. All
that is said about whole runs follows from this by inductions over the journal.
-/

namespace JigLedger.Engine

/-! ### Whose code runs -/

/-- The guest that runs for an errand is the one that the errand is for: a call and its arguments
and answers are for the package of the top frame. -/
def Scene.Suits (v : Scene) (a : Activity) : Prop :=
  match a.errand with
  | .call | .arguments | .answer =>
    ∃ frame, v.frames.head? = some frame ∧ v.guestOf? frame.home = some a.guest
  | .object home | .origin home => v.guestOf? home = some a.guest
  | .start => v.starting.head? = some a.guest

/-- The code of a guest runs, for an errand that suits it. -/
def Scene.Runs (v : Scene) (guest : Nat) : Prop :=
  ∃ errand, v.running.head? = some ⟨guest, errand⟩ ∧ v.Suits ⟨guest, errand⟩

/-! ### Where packages and jigs come from -/

/-- A package that a transaction can run: it is registered, or it has been built. -/
def Offered (c : Context) (p : Package) : Prop :=
  (∃ id, c.env.registry.get? id = some p) ∨ p.IsBuilt

/-- A package that runs is the one that an id stands for. -/
def PackageInstance.IsOf (c : Context) (id : PackageId) (inst : PackageInstance) : Prop :=
  inst.package.id = id ∨ c.env.registry.get? id = some inst.package

/-- A jig is what an output says, in one of the packages that run. -/
structure Loaded (c : Context) (o : Output) (instances : List PackageInstance)
    (jig : TouchedJig) : Prop where
  origin : jig.origin = o.origin
  previous : jig.previous = some o.location
  lock : Host.storedLock o = .ok jig.lock
  cls : jig.classIdx = o.classPtr.idx.toNat
  home : ∃ inst, instances[jig.home]? = some inst ∧ inst.IsOf c ⟨o.classPtr.id⟩

/-- What comes of making the jig with an origin: a new jig, or that of an output in the store. -/
inductive Made (c : Context) (instances : List PackageInstance) (asked : Pointer)
    (jig : TouchedJig) : Prop where
  | constructed (origin : jig.origin = asked) (previous : jig.previous = none)
  | latest (o : Output) (stored : c.env.store.byOrigin asked = some o)
      (loaded : Loaded c o instances jig)
  | located (o : Output) (location : Pointer) (stored : c.env.store.byLocation location = some o)
      (origin : o.origin = asked) (loaded : Loaded c o instances jig)

/-! ### What has to hold when something happens -/

/-- The frame of a call is that of what is entered, and whoever calls may do so. -/
def Scene.Admits (v : Scene) (c : Context) (frame : Frame) : Entry → Prop
  | .constructor => ∃ origin, v.making.head? = some origin ∧ frame.identity = .jig origin
  | .method idx => ∃ jig, v.jigs[idx]? = some jig ∧ frame = ⟨.jig jig.origin, jig.home⟩ ∧
      jig.lock.canReceiveCalls (v.authority c) = true
  | .function => frame.identity = v.caller

/-- What has to hold in a scene when an event happens. -/
def Due (c : Context) (v : Scene) : Event → Prop
  | .began _ => v.frames = [] ∧ v.making = [] ∧ v.starting = [] ∧ v.running = []
  | .printed _ _ => True
  | .launched guest => guest = v.guests
  | .started inst => v.starting.head? = some inst.guest ∧ Offered c inst.package
  | .invoked guest errand => v.Suits ⟨guest, errand⟩
  | .finished => v.running ≠ []
  | .requested guest _ top => top = v.frames.head? ∧ v.Runs guest
  | .making origin => ∀ jig ∈ v.jigs, jig.origin ≠ origin
  | .made jig => ∃ asked, v.making.head? = some asked ∧ Made c v.instances asked jig
  | .entered entry frame _ _ =>
    v.Admits c frame entry ∧ v.frames.length < c.env.config.maxCallDepth
  | .left => v.frames ≠ []
  | .relocked idx _ => ∃ jig, v.jigs[idx]? = some jig ∧
      jig.lock.canBeChanged (v.authority c) jig.origin = true
  | .spent idx => ∃ jig, v.jigs[idx]? = some jig ∧ jig.lock.isOpenTo (v.authority c) = true

/-- The scene that the journal of a session shows. -/
def Session.scene (s : Session) : Scene := .of s.journal

/-- Packages that a transaction may deploy: they have been built, and they are different from each
other and from those that are registered. -/
structure Deployable (c : Context) (packages : List Package) : Prop where
  built : ∀ p ∈ packages, p.IsBuilt
  unregistered : ∀ p ∈ packages, c.env.registry.get? p.id = none
  nodup : (packages.map (·.id)).Nodup

/-- A session whose journal shows it, and in which only happened what was due. -/
structure Lawful (c : Context) (s : Session) : Prop where
  shows : Shows s.scene s
  due : Throughout (Due c) s.journal
  deploys : Deployable c s.deploys

/-- A transaction starts lawfully. -/
theorem lawful_start (c : Context) (fuel instructions : Nat) :
    Lawful c (.start fuel instructions) where
  shows := ⟨rfl, rfl, rfl, rfl, rfl⟩
  due := trivial
  deploys := ⟨nofun, nofun, .nil⟩

/-! ### What a computation keeps -/

/-- A session has gone on from another one: things were added, and none was taken away. -/
structure Grown (s t : Session) : Prop where
  journal : s.journal <:+ t.journal
  instances : s.instances <+: t.instances
  deploys : s.deploys <+: t.deploys
  guests : s.guests.length ≤ t.guests.length
  /-- The jigs, but for their locks, which may have been replaced. -/
  jigs : (s.jigs.map fun j => (j.origin, j.previous)) <+: t.jigs.map fun j => (j.origin, j.previous)

theorem Grown.refl (s : Session) : Grown s s :=
  ⟨List.suffix_rfl, List.prefix_rfl, List.prefix_rfl, Nat.le_refl _, List.prefix_rfl⟩

theorem Grown.trans {s t u : Session} (h : Grown s t) (h' : Grown t u) : Grown s u :=
  ⟨h.journal.trans h'.journal, h.instances.trans h'.instances, h.deploys.trans h'.deploys,
    Nat.le_trans h.guests h'.guests, h.jigs.trans h'.jigs⟩

/-- A package that runs goes on running under its index. -/
theorem Grown.home {s t : Session} (h : Grown s t) {idx : Nat} {inst : PackageInstance}
    (hi : s.instances[idx]? = some inst) : t.instances[idx]? = some inst := by
  obtain ⟨more, hm⟩ := h.instances
  rw [← hm, List.getElem?_append_left (List.getElem?_eq_some_iff.1 hi).1, hi]

/-- A touched jig stays touched, with its origin and the place it came from. -/
theorem Grown.touched {s t : Session} (h : Grown s t) {jig : TouchedJig} (hj : jig ∈ s.jigs) :
    ∃ jig' ∈ t.jigs, jig'.origin = jig.origin ∧ jig'.previous = jig.previous := by
  have hm := h.jigs.subset (List.mem_map_of_mem hj)
  simpa using hm

/-- Everything that was begun in between is over again. -/
structure Restored (s t : Session) : Prop where
  current : t.scene.current = s.scene.current
  frames : t.scene.frames = s.scene.frames
  making : t.scene.making = s.scene.making
  starting : t.scene.starting = s.scene.starting
  running : t.scene.running = s.scene.running

theorem Restored.refl (s : Session) : Restored s s := ⟨rfl, rfl, rfl, rfl, rfl⟩

theorem Restored.trans {s t u : Session} (h : Restored s t) (h' : Restored t u) : Restored s u :=
  ⟨h'.current.trans h.current, h'.frames.trans h.frames, h'.making.trans h.making,
    h'.starting.trans h.starting, h'.running.trans h.running⟩

/-! ### What each event does -/

namespace Lawful

variable {c : Context} {s t : Session}

/-- An event that was due keeps a session lawful that it has changed accordingly. -/
theorem event (h : Lawful c s) {e : Event} (due : Due c s.scene e)
    (journal : t.journal = e :: s.journal) (shows : Shows (s.scene.after e) t)
    (deploys : t.deploys = s.deploys) : Lawful c t where
  shows := by rw [Session.scene, journal]; exact shows
  due := by rw [journal]; exact ⟨due, h.due⟩
  deploys := by rw [deploys]; exact h.deploys

/-- An event that changes nothing but what is in progress. -/
theorem record (h : Lawful c s) {e : Event} (due : Due c s.scene e)
    (shows : Shows (s.scene.after e) s) : Lawful c (s.record e) :=
  h.event due rfl ⟨shows.current, shows.frames, shows.jigs, shows.instances, shows.guests⟩ rfl

theorem began (h : Lawful c s) {idx : Nat} (due : Due c s.scene (.began idx)) :
    Lawful c (s.began idx) :=
  h.event due rfl ⟨rfl, h.shows.frames, h.shows.jigs, h.shows.instances, h.shows.guests⟩ rfl

theorem launched (h : Lawful c s) (guest : Guest) : Lawful c (s.launched guest) := by
  refine h.event (e := .launched _) h.shows.guests.symm rfl
    ⟨h.shows.current, h.shows.frames, h.shows.jigs, h.shows.instances, ?_⟩ rfl
  simpa [Session.launched, Session.record, Scene.after] using h.shows.guests

theorem started (h : Lawful c s) {inst : PackageInstance} (due : Due c s.scene (.started inst)) :
    Lawful c (s.started inst) :=
  h.event due rfl ⟨h.shows.current, h.shows.frames, h.shows.jigs,
    congrArg (· ++ [inst]) h.shows.instances, h.shows.guests⟩ rfl

theorem made (h : Lawful c s) {jig : TouchedJig} (due : Due c s.scene (.made jig)) :
    Lawful c (s.made jig) :=
  h.event due rfl ⟨h.shows.current, h.shows.frames, congrArg (· ++ [jig]) h.shows.jigs,
    h.shows.instances, h.shows.guests⟩ rfl

theorem entered (h : Lawful c s) {entry : Entry} {frame : Frame} {callee : Abi.Callable}
    {args : List Value} (due : Due c s.scene (.entered entry frame callee args)) :
    Lawful c (s.entered entry frame callee args) :=
  h.event due rfl ⟨h.shows.current, congrArg (frame :: ·) h.shows.frames, h.shows.jigs,
    h.shows.instances, h.shows.guests⟩ rfl

theorem left (h : Lawful c s) (due : Due c s.scene .left) : Lawful c s.left :=
  h.event due rfl ⟨h.shows.current, congrArg List.tail h.shows.frames, h.shows.jigs,
    h.shows.instances, h.shows.guests⟩ rfl

theorem relocked (h : Lawful c s) {idx : Nat} {lock : Lock}
    (due : Due c s.scene (.relocked idx lock)) : Lawful c (s.relocked idx lock) :=
  h.event due rfl ⟨h.shows.current, h.shows.frames, congrArg (List.modify · idx _) h.shows.jigs,
    h.shows.instances, h.shows.guests⟩ rfl

theorem spent (h : Lawful c s) {idx : Nat} (due : Due c s.scene (.spent idx)) (amount : UInt64) :
    Lawful c (s.spent idx amount) :=
  h.event due rfl ⟨h.shows.current, h.shows.frames, congrArg (List.modify · idx _) h.shows.jigs,
    h.shows.instances, h.shows.guests⟩ rfl

end Lawful

namespace Grown

variable (s : Session)

theorem record (e : Event) : Grown s (s.record e) :=
  { Grown.refl s with journal := ⟨[e], rfl⟩ }

theorem launched (guest : Guest) : Grown s (s.launched guest) :=
  { Grown.refl s with
    journal := ⟨[_], rfl⟩
    guests := by simp [Session.launched, Session.record] }

theorem started (inst : PackageInstance) : Grown s (s.started inst) :=
  { Grown.refl s with journal := ⟨[_], rfl⟩, instances := List.prefix_append _ _ }

theorem made (jig : TouchedJig) : Grown s (s.made jig) :=
  { Grown.refl s with
    journal := ⟨[_], rfl⟩
    jigs := by
      rw [Session.made, Session.record, List.map_append]
      exact List.prefix_append _ _ }

theorem entered (entry : Entry) (frame : Frame) (callee : Abi.Callable) (args : List Value) :
    Grown s (s.entered entry frame callee args) :=
  { Grown.refl s with journal := ⟨[_], rfl⟩ }

theorem left : Grown s s.left := { Grown.refl s with journal := ⟨[_], rfl⟩ }

/-- A new lock leaves the origin of a jig and the place it came from as they were. -/
theorem map_modify_lock (jigs : List TouchedJig) (idx : Nat) (lock : Lock) :
    (jigs.modify idx fun j => { j with lock := lock }).map (fun j => (j.origin, j.previous)) =
      jigs.map fun j => (j.origin, j.previous) := by
  induction jigs generalizing idx with
  | nil => cases idx <;> rfl
  | cons jig jigs ih =>
    cases idx with
    | zero => rfl
    | succ idx => simpa using ih idx

theorem relocked (idx : Nat) (lock : Lock) : Grown s (s.relocked idx lock) :=
  { Grown.refl s with
    journal := ⟨[_], rfl⟩
    jigs := (map_modify_lock s.jigs idx lock).symm ▸ List.prefix_rfl }

theorem spent (idx : Nat) (amount : UInt64) : Grown s (s.spent idx amount) :=
  { Grown.refl s with
    journal := ⟨[_], rfl⟩
    jigs := (map_modify_lock s.jigs idx .frozen).symm ▸ List.prefix_rfl }

end Grown

end JigLedger.Engine
