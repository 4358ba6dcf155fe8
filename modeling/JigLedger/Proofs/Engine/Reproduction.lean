import JigLedger.Proofs.Engine.Soundness
import JigLedger.Proofs.Store

/-!
# Running a transaction again

A transaction that has succeeded can be run again over another registry and another store. It comes
to the same result and the same session, as long as these give the same answers to what it asked:
the packages that it used are still there, those that it deploys are still missing, the outputs that
it loaded are where they were, and the class of no jig has changed. Most of what it asks about is
written down in its session. Only the classes of jigs that it did not touch are not, and neither are
the packages; these have to be the same for all of them.
-/

namespace JigLedger.Engine

open Wasm (Val Thread)

variable {c : Context} {registry : Registry} {store : Store} {s t u : Session} {α β : Type}

/-- A registry and a store to which those of a transaction may have come: no package is gone, and no
jig has another class. -/
structure Continues (c : Context) (registry : Registry) (store : Store) : Prop where
  consistent : c.env.store.Consistent
  packages : c.env.registry.Extends registry
  classes : c.env.store.Extends store

/-- A registry and a store agree with what a session has deployed and loaded. -/
structure Agrees (c : Context) (registry : Registry) (store : Store) (s : Session) : Prop where
  deploys : ∀ p ∈ s.deploys, registry.get? p.id = none
  latest : ∀ jig ∈ s.jigs, ∀ o, c.env.store.byOrigin jig.origin = some o →
    jig.previous = some o.location → (∃ lock, Host.storedLock o = .ok lock) →
    store.byOrigin jig.origin = some o
  located : ∀ jig ∈ s.jigs, ∀ location, jig.previous = some location →
    store.byLocation location = c.env.store.byLocation location

/-- What agrees in the end has agreed before. -/
theorem Agrees.of_grown (h : Agrees c registry store t) (grown : Grown s t) :
    Agrees c registry store s where
  deploys p hp := h.deploys p (grown.deploys.subset hp)
  latest jig hj o ho hp hl := by
    obtain ⟨jig', hj', same, previous⟩ := grown.touched hj
    rw [← same] at ho ⊢
    exact h.latest jig' hj' o ho (previous.trans hp) hl
  located jig hj location hp := by
    obtain ⟨jig', hj', -, previous⟩ := grown.touched hj
    exact h.located jig' hj' location (previous.trans hp)

/-- Whenever a computation succeeds in a session that another registry and another store agree with,
the other computation does the same. -/
def Reproduces (c : Context) (registry : Registry) (store : Store) (s : Session)
    (m m' : Engine α) : Prop :=
  ∀ a t, runFrom s m = (.ok a, t) → Agrees c registry store t → runFrom s m' = (.ok a, t)

namespace Reproduces

theorem refl (m : Engine α) : Reproduces c registry store s m m := fun _ _ run _ => run

/-- The second part of a computation only adds to the session. -/
theorem bind {m m' : Engine α} {f f' : α → Engine β} (first : Reproduces c registry store s m m')
    (rest : ∀ a t, runFrom s m = (.ok a, t) → Reproduces c registry store t (f a) (f' a))
    (grown : ∀ a t, runFrom s m = (.ok a, t) → Grown t (runFrom t (f a)).2) :
    Reproduces c registry store s (m >>= f) (m' >>= f') := by
  intro b u run agrees
  obtain ⟨a, t, run₁, run₂⟩ := runFrom_bind_eq_ok run
  have more := grown a t run₁
  rw [run₂] at more
  rw [runFrom_bind_of_ok (first a t run₁ (agrees.of_grown more))]
  exact rest a t run₁ b u run₂ agrees

/-- A first part that does the same without agreement leaves everything to the second one. -/
theorem after {m m' : Engine α} {f f' : α → Engine β}
    (same : ∀ a t, runFrom s m = (.ok a, t) → runFrom s m' = (.ok a, t))
    (rest : ∀ a t, runFrom s m = (.ok a, t) → Reproduces c registry store t (f a) (f' a)) :
    Reproduces c registry store s (m >>= f) (m' >>= f') := by
  intro b u run agrees
  obtain ⟨a, t, run₁, run₂⟩ := runFrom_bind_eq_ok run
  rw [runFrom_bind_of_ok (same a t run₁)]
  exact rest a t run₁ b u run₂ agrees

theorem rethrow {m m' : Engine α} {g : Failure → Failure} (h : Reproduces c registry store s m m') :
    Reproduces c registry store s (tryCatch m fun e => throw (g e))
      (tryCatch m' fun e => throw (g e)) := fun a t run agrees =>
  runFrom_rethrow_eq_ok.2 (h a t (runFrom_rethrow_eq_ok.1 run) agrees)

end Reproduces

/-! ### What is looked up -/

/-- A package that was found is found again. -/
theorem Continues.package (h : Continues c registry store) {id : PackageId} {p : Package}
    (hp : s.package? c id = some p) : s.package? (c.over registry store) id = some p := by
  rw [Session.package?, Option.orElse_eq_orElse, Option.orElse_eq_or, Option.or_eq_some_iff] at hp ⊢
  rcases hp with hp | ⟨missing, hp⟩
  · exact .inl hp
  · exact .inr ⟨missing, h.packages id p hp⟩

theorem Continues.packageOr (h : Continues c registry store) {error : ExecError} {id : PackageId}
    {p : Package} (run : runFrom s (packageOr c error id) = (.ok p, t)) :
    runFrom s (packageOr (c.over registry store) error id) = (.ok p, t) := by
  obtain ⟨hp, rfl⟩ := runFrom_packageOr_eq_ok.1 run
  exact runFrom_packageOr_eq_ok.2 ⟨h.package hp, rfl⟩

/-- A jig that was judged is judged in the same way: its class is what it was. -/
theorem Continues.classOf (h : Continues c registry store) {origin : Pointer} {cls : Abi.Class}
    (run : runFrom s (classOf c origin) = (.ok cls, t)) :
    runFrom s (classOf (c.over registry store) origin) = (.ok cls, t) := by
  unfold Engine.classOf at run ⊢
  rw [runFrom_bind_of_ok (runFrom_get s)] at run ⊢
  rcases hi : s.jigIndex? origin with _ | idx <;> simp only [hi] at run ⊢
  · obtain ⟨o, _, found, judging⟩ := runFrom_bind_eq_ok run
    obtain ⟨stored, rfl⟩ := runFrom_orMissing_eq_ok.1 found
    obtain ⟨latest, stored', same⟩ := h.classes origin o stored
    obtain ⟨p, u, looked, judged⟩ := runFrom_bind_eq_ok judging
    obtain ⟨hp, rfl⟩ := runFrom_packageOr_eq_ok.1 looked
    have found' : runFrom u (latestOutput (c.over registry store) origin) = (.ok latest, u) :=
      runFrom_orMissing_eq_ok.2 ⟨stored', rfl⟩
    have looked' : runFrom u (packageOf (c.over registry store) latest) = (.ok p, u) :=
      runFrom_packageOr_eq_ok.2 ⟨by rw [same]; exact h.package hp, rfl⟩
    refine (runFrom_bind_of_ok found').trans ((runFrom_bind_of_ok looked').trans ?_)
    rw [same]
    exact judged
  · exact run

/-! ### Operations -/

/-- A deployment that succeeds has found no package with its id, and adds the one it has built. -/
theorem runFrom_deploy_eq_ok {h : Host} {entries : List String} {sources : Sources}
    {id : PackageId} :
    runFrom s (h.deploy entries sources) = (.ok id, t) ↔ ∃ artifacts p,
      Package.contentId entries sources = .ok id ∧ s.package? h.context id = none ∧
      h.context.env.compiler entries sources = .ok artifacts ∧
      Package.build entries sources artifacts = .ok p ∧
      t = { s with deploys := s.deploys ++ [p] } := by
  constructor
  · intro run
    obtain ⟨own, _, named, checking⟩ := runFrom_bind_eq_ok run
    obtain ⟨content, rfl⟩ := runFrom_orPlain_eq_ok.1 named
    obtain ⟨known, _, looked, deciding⟩ := runFrom_bind_eq_ok checking
    cases looked
    split at deciding
    case isTrue => cases deciding
    case isFalse missing =>
      obtain ⟨artifacts, _, compiling, making⟩ := runFrom_bind_eq_ok deciding
      obtain ⟨compiled, rfl⟩ := runFrom_orError_eq_ok.1 compiling
      obtain ⟨p, _, building, adding⟩ := runFrom_bind_eq_ok making
      obtain ⟨built, rfl⟩ := runFrom_orError_eq_ok.1 building
      obtain ⟨_, _, added, returned⟩ := runFrom_bind_eq_ok adding
      cases added
      cases returned
      exact ⟨artifacts, p, content, by simpa using missing, compiled, built, rfl⟩
  · rintro ⟨artifacts, p, content, missing, compiled, built, rfl⟩
    rw [Host.deploy, runFrom_bind_of_ok (runFrom_orPlain_eq_ok.2 ⟨content, rfl⟩),
      runFrom_bind_of_ok (runFrom_package? h.context s id), missing,
      if_neg (by simp), runFrom_bind_of_ok (runFrom_orError_eq_ok.2 ⟨compiled, rfl⟩),
      runFrom_bind_of_ok (runFrom_orError_eq_ok.2 ⟨built, rfl⟩)]
    rfl

/-- A package that was not there is not there again. -/
theorem Reproduces.deploy (inv : Invoker) (entries : List String) (sources : Sources) :
    Reproduces c registry store s ((inv.host c).deploy entries sources)
      ((inv.host (c.over registry store)).deploy entries sources) := by
  intro id t run agrees
  obtain ⟨artifacts, p, hid, missing, compiled, built, rfl⟩ := runFrom_deploy_eq_ok.1 run
  refine runFrom_deploy_eq_ok.2 ⟨artifacts, p, hid, ?_, compiled, built, rfl⟩
  have same : p.id = id := by
    have h := (Package.of_build built).1
    rw [hid] at h
    cases h
    rfl
  have unregistered : registry.get? id = none :=
    same ▸ agrees.deploys p (List.mem_append_right _ (.head _))
  simp only [Session.package?, Option.orElse_eq_orElse, Option.orElse_eq_or,
    Option.or_eq_none_iff] at missing ⊢
  exact ⟨missing.1, unregistered⟩

/-- Guests are run again as they were. -/
def Invoker.IsReproduced (inv : Invoker) (c : Context) (registry : Registry) (store : Store) : Prop :=
  ∀ s guest errand thread, Lawful c s → s.scene.Suits ⟨guest, errand⟩ →
    Reproduces c registry store s (inv c guest errand thread)
      (inv (c.over registry store) guest errand thread)

section Starting

variable {inv : Invoker} (hinv : inv.IsSafe c) (hrep : inv.IsReproduced c registry store)

include hrep in
/-- A guest is launched again when it was launched. -/
theorem Reproduces.launch (lawful : Lawful c s) (p : Package) (targets : List (Option Nat))
    (guest : Guest) :
    Reproduces c registry store s ((inv.host c).launch p targets guest)
      ((inv.host (c.over registry store)).launch p targets guest) := by
  refine .after (fun _ _ run => run) fun idx t added => ?_
  cases added
  refine .bind (.rethrow ?_) (fun _ _ _ => .refl _) fun _ t _ => ?_
  · unfold Host.runStart
    cases p.module.start with
    | none => exact .refl _
    | some f =>
      exact .bind (hrep _ _ _ _ (lawful.launched guest) rfl) (fun _ _ _ => .refl _)
        fun _ _ _ => .refl _
  · rw [runFrom_bind]
    have same := ReadsOnly.allocatorOf p t
    rcases hr : runFrom t (Host.allocatorOf p) with ⟨e | allocator, u⟩ <;> rw [hr] at same <;>
      cases same
    · exact .refl _
    · exact .started _ _

include hinv hrep

/-- A package is started again when it was started. -/
theorem Reproduces.instanceFor (cont : Continues c registry store) (lawful : Lawful c s)
    (safe : ∀ (p : Package) t, Lawful c t → Safe c t t (p.abi.imports.mapM (importTarget c)))
    (targets : ∀ (p : Package) t, Lawful c t → Reproduces c registry store t
      (p.abi.imports.mapM (importTarget c)) (p.abi.imports.mapM (importTarget (c.over registry store))))
    (id : PackageId) :
    Reproduces c registry store s ((inv.host c).instanceFor id)
      ((inv.host (c.over registry store)).instanceFor id) := by
  refine .after (fun _ _ run => run) fun s' t looked => ?_
  cases looked
  cases s.instanceIndex? id with
  | some idx => exact .refl _
  | none =>
    refine .after (fun _ _ run => cont.packageOr run) fun p t found => ?_
    obtain ⟨hp, rfl⟩ := runFrom_packageOr_eq_ok.1 found
    refine .bind (targets p t lawful) (fun ts u run => ?_) fun ts u run => ?_
    · obtain ⟨lawful, -, -⟩ := (safe p t lawful).of_ok run
      refine .after (fun _ _ run => run) fun guest v linked => ?_
      obtain ⟨lawful, -, -⟩ :=
        (Safe.reads (.linkedGuest (inv.host c) p.module) lawful (.refl u)).rethrow.of_ok linked
      exact .launch hrep lawful p ts guest
    · obtain ⟨lawful₁, -, -⟩ := (safe p t lawful).of_ok run
      exact (Safe.instantiate hinv lawful₁ (lawful.offered hp).1 ts).grown

end Starting

/-! ### Jigs -/

/-- A jig is touched again when it was touched. What the store has to say about it is known once it
has been noted. -/
theorem Reproduces.touch (lawful : Lawful c s) {origin : Pointer} {touched : Nat → Engine Nat}
    {make make' : Engine TouchedJig}
    (again : ∀ t jig u, Lawful c t → t.scene.making.head? = some origin →
      runFrom t make = (.ok jig, u) → Agrees c registry store (u.made jig) →
      runFrom t make' = (.ok jig, u)) :
    Reproduces c registry store s (touch origin touched make) (touch origin touched make') := by
  refine .after (fun _ _ run => run) fun s' t looked => ?_
  cases looked
  rcases hi : s.jigIndex? origin with _ | idx
  · refine .after (fun _ _ run => run) fun _ t noted => ?_
    cases noted
    intro idx u run agrees
    obtain ⟨jig, v, made, registered⟩ := runFrom_bind_eq_ok run
    cases registered
    exact runFrom_bind_of_ok (again _ jig v (lawful.making hi) rfl made agrees)
  · exact .refl _

section Loading

variable {inv : Invoker} (cont : Continues c registry store)
  (hinv : inv.IsSafe c) (hrep : inv.IsReproduced c registry store)
  (safeTargets : ∀ (p : Package) t, Lawful c t → Safe c t t (p.abi.imports.mapM (importTarget c)))
  (targets : ∀ (p : Package) t, Lawful c t → Reproduces c registry store t
    (p.abi.imports.mapM (importTarget c)) (p.abi.imports.mapM (importTarget (c.over registry store))))
  (safeBuild : ∀ home cls origin values t, Lawful c t →
    Safe c t t ((inv.host c).buildObject home cls origin values))
  (build : ∀ home cls origin values t, Lawful c t → Reproduces c registry store t
    ((inv.host c).buildObject home cls origin values)
    ((inv.host (c.over registry store)).buildObject home cls origin values))

include cont hinv hrep safeTargets targets safeBuild build

/-- An output is brought into memory again when it was. -/
theorem Reproduces.rehydrate (lawful : Lawful c s) (o : Output) :
    Reproduces c registry store s ((inv.host c).rehydrate o)
      ((inv.host (c.over registry store)).rehydrate o) := by
  refine .after (fun _ _ run => run) fun lock t locked => ?_
  obtain ⟨-, rfl⟩ := runFrom_orError_eq_ok.1 locked
  refine .after (fun _ _ run => cont.packageOr run) fun _ t found => ?_
  obtain ⟨-, rfl⟩ := runFrom_packageOr_eq_ok.1 found
  refine .bind (.instanceFor hinv hrep cont lawful safeTargets targets _)
    (fun home u started => ?_) fun home u started => ?_
  · obtain ⟨lawful, -, -⟩ := (Safe.instanceFor hinv lawful safeTargets _).of_ok started
    refine .after (fun _ _ run => run) fun inst v looked => ?_
    obtain ⟨-, rfl⟩ := runFrom_instanceAt_eq_ok.1 looked
    refine .after (fun _ _ run => run) fun cls v classed => ?_
    obtain ⟨-, rfl⟩ := runFrom_orError_eq_ok.1 classed
    refine .after (fun _ _ run => run) fun values v decoded => ?_
    obtain ⟨-, rfl⟩ := runFrom_orError_eq_ok.1 decoded
    exact .bind (build home cls o.origin values v lawful) (fun _ _ _ => .refl _) fun _ _ _ => .refl _
  · obtain ⟨lawful, -, -⟩ := (Safe.instanceFor hinv lawful safeTargets _).of_ok started
    exact (Safe.rehydrateIn safeBuild lawful home o lock).grown

/-- The latest output of a jig is loaded again when it was. -/
theorem Reproduces.loadLatest (lawful : Lawful c s) (origin : Pointer)
    (touched : Nat → Engine Nat) :
    Reproduces c registry store s ((inv.host c).loadLatest origin touched)
      ((inv.host (c.over registry store)).loadLatest origin touched) := by
  refine .touch lawful fun t jig u lawful _ run agrees => ?_
  obtain ⟨o, _, found, making⟩ := runFrom_bind_eq_ok run
  obtain ⟨stored, rfl⟩ := runFrom_orMissing_eq_ok.1 found
  have loaded := Lawful.rehydrate hinv safeTargets safeBuild lawful making
  have same : jig.origin = origin := loaded.origin.trans (cont.consistent.keyed origin o stored)
  have stored' : store.byOrigin origin = some o := by
    rw [← same] at stored ⊢
    exact agrees.latest jig (List.mem_append_right _ (.head _)) o stored loaded.previous
      ⟨_, loaded.lock⟩
  refine (runFrom_bind_of_ok (runFrom_orMissing_eq_ok.2 ⟨stored', rfl⟩)).trans ?_
  exact Reproduces.rehydrate cont hinv hrep safeTargets targets safeBuild build lawful o jig u
    making (agrees.of_grown (.made u jig))

/-- The output at a location is loaded again when it was: the jig that was noted says where it was
loaded from. -/
theorem Reproduces.loadByLocation (lawful : Lawful c s) (location : Pointer) :
    Reproduces c registry store s ((inv.host c).loadByLocation location)
      ((inv.host (c.over registry store)).loadByLocation location) := by
  intro origin u run agrees
  obtain ⟨o, t, found, touching⟩ := runFrom_bind_eq_ok run
  obtain ⟨stored, rfl⟩ := runFrom_orMissing_eq_ok.1 found
  obtain ⟨idx, v, touched, returned⟩ := runFrom_bind_eq_ok touching
  have again : Reproduces c registry store t
      (Engine.touch o.origin (Host.resolvedTwice o.origin) ((inv.host c).rehydrate o))
      (Engine.touch o.origin (Host.resolvedTwice o.origin)
        ((inv.host (c.over registry store)).rehydrate o)) :=
    .touch lawful fun t jig u lawful _ run agrees =>
      Reproduces.rehydrate cont hinv hrep safeTargets targets safeBuild build lawful o jig u run
        (agrees.of_grown (.made u jig))
  cases returned
  have noted : ∃ jig ∈ u.jigs, jig.previous = some o.location := by
    obtain ⟨s', _, looked, making⟩ := runFrom_bind_eq_ok touched
    cases looked
    rcases hi : t.jigIndex? o.origin with _ | other <;> simp only [hi] at making
    · obtain ⟨_, _, begun, made⟩ := runFrom_bind_eq_ok making
      cases begun
      obtain ⟨jig, w, rehydrated, registered⟩ := runFrom_bind_eq_ok made
      cases registered
      have loaded := Lawful.rehydrate hinv safeTargets safeBuild (lawful.making hi) rehydrated
      exact ⟨jig, List.mem_append_right _ (.head _), loaded.previous⟩
    · cases making
  obtain ⟨jig, mem, previous⟩ := noted
  have place : o.location = location := (cont.consistent.byLocation stored).1
  have stored' : store.byLocation location = some o := by
    rw [← place] at stored ⊢
    rw [agrees.located jig mem o.location previous]
    exact stored
  refine (runFrom_bind_of_ok (runFrom_orMissing_eq_ok.2 ⟨stored', rfl⟩)).trans ?_
  exact runFrom_bind_of_ok (again idx u touched agrees)

end Loading

/-! ### Calls -/

/-- A call is run again in its frame. -/
theorem Reproduces.inFrame (lawful : Lawful c s) {entry : Entry} {frame : Frame}
    {callee : Abi.Callable} {args : List Value} {body body' : Engine α}
    (admits : s.scene.Admits c frame entry)
    (again : ∀ t, Lawful c t → Knows t (some frame.home) → Reproduces c registry store t body body') :
    Reproduces c registry store s (inFrame c entry frame callee args body)
      (inFrame (c.over registry store) entry frame callee args body') := by
  refine .after (fun _ _ run => run) fun _ t pushed => ?_
  rw [runFrom_pushFrame] at pushed
  split at pushed
  case isFalse => cases pushed
  case isTrue room =>
    cases pushed
    have shallow : s.scene.frames.length < c.env.config.maxCallDepth := by
      rwa [lawful.shows.frames]
    have known : Knows (s.entered entry frame callee args) (some frame.home) := by
      rintro home ⟨⟩
      exact ⟨frame, rfl, rfl⟩
    refine .bind (again _ (lawful.entered ⟨admits, shallow⟩) known) (fun _ _ _ => .refl _)
      fun a u _ => ?_
    rw [runFrom_bind, runFrom_popFrame]
    by_cases hf : u.frames = []
    · simp only [hf, if_true]
      exact .refl u
    · simp only [hf, if_false]
      exact .left u

section Calling

variable {inv : Invoker}

/-- A jig is constructed again when it was. -/
theorem Reproduces.construct (lawful : Lawful c s) (home classIdx : Nat) (args : List Value)
    (call : ∀ cls t, Lawful c t → Knows t (some home) → Reproduces c registry store t
      ((inv.host c).callConstructor home cls args)
      ((inv.host (c.over registry store)).callConstructor home cls args))
    (safeCall : ∀ cls t, Lawful c t → Knows t (some home) →
      Safe c t t ((inv.host c).callConstructor home cls args))
    (new : ∀ cls origin word t, Lawful c t → Reproduces c registry store t
      ((inv.host c).newJig home classIdx cls origin word)
      ((inv.host (c.over registry store)).newJig home classIdx cls origin word))
    (safeNew : ∀ cls origin word t, Lawful c t →
      Safe c t t ((inv.host c).newJig home classIdx cls origin word)) :
    Reproduces c registry store s ((inv.host c).construct home classIdx args)
      ((inv.host (c.over registry store)).construct home classIdx args) := by
  refine .after (fun _ _ run => run) fun inst t looked => ?_
  obtain ⟨-, rfl⟩ := runFrom_instanceAt_eq_ok.1 looked
  refine .after (fun _ _ run => run) fun cls u classed => ?_
  obtain rfl := ReadsOnly.of_ok (.orPlain _ _) classed
  refine .after (fun _ _ run => run) fun origin v placed => ?_
  obtain ⟨lawful, -, -⟩ := (Safe.quietly (.newOrigin _) lawful).of_ok placed
  refine .touch lawful fun w jig x lawful head run agrees => ?_
  have admits : w.scene.Admits c ⟨.jig origin, home⟩ .constructor := ⟨origin, head, rfl⟩
  refine Reproduces.bind (.inFrame lawful admits (call cls)) (fun word y called => ?_)
    (fun word y called => ?_) jig x run (agrees.of_grown (.made x jig))
  · obtain ⟨lawful, -, -⟩ := (Safe.inFrame lawful admits (safeCall cls)).of_ok called
    exact new cls origin word y lawful
  · obtain ⟨lawful, -, -⟩ := (Safe.inFrame lawful admits (safeCall cls)).of_ok called
    exact (safeNew cls origin word y lawful).grown

/-- A method is called again when it was: the lock is asked about the same caller and signers. -/
theorem Reproduces.callMethod (lawful : Lawful c s) (idx : Nat) (method : Abi.Callable)
    (args : List Value) (body : ∀ home address t, Lawful c t → Knows t (some home) →
      Reproduces c registry store t ((inv.host c).callWith home method [.i32 address] args)
        ((inv.host (c.over registry store)).callWith home method [.i32 address] args)) :
    Reproduces c registry store s ((inv.host c).callMethod idx method args)
      ((inv.host (c.over registry store)).callMethod idx method args) := by
  refine .after (fun _ _ run => run) fun jig t looked => ?_
  obtain ⟨hjig, rfl⟩ := runFrom_jigAt_eq_ok.1 looked
  refine .after (fun _ _ run => run) fun auth u seen => ?_
  cases seen
  split
  case isTrue granted =>
    refine .inFrame lawful ⟨jig, ?_, rfl, ?_⟩ (body _ _)
    · rw [lawful.shows.jigs, hjig]
    · rw [lawful.shows.authority]
      exact granted
  case isFalse => exact .refl _

/-- A function is called again when it was. -/
theorem Reproduces.callFunction (lawful : Lawful c s) (home : Nat) (function : Abi.Callable)
    (args : List Value) (body : ∀ t, Lawful c t → Knows t (some home) →
      Reproduces c registry store t ((inv.host c).callWith home function [] args)
        ((inv.host (c.over registry store)).callWith home function [] args)) :
    Reproduces c registry store s ((inv.host c).callFunction home function args)
      ((inv.host (c.over registry store)).callFunction home function args) := by
  refine .after (fun _ _ run => run) fun s' t looked => ?_
  cases looked
  exact .inFrame lawful lawful.shows.caller.symm body

end Calling

/-! ### Whatever is built -/

/-- Whatever is built does the same again, when guests do. -/
theorem BuiltWith.reproduces {pays locks : Prop} {inv : Invoker} {top : Option Nat}
    {m : Context → Engine α} (h : BuiltWith pays locks inv top m)
    (cont : Continues c registry store) (hinv : inv.IsSafe c)
    (hrep : inv.IsReproduced c registry store) :
    ∀ s, Lawful c s → Knows s top →
      Reproduces c registry store s (m c) (m (c.over registry store)) := by
  -- By induction as for safety, which says in what sessions the later parts run.
  induction h with
  | silent _ alike =>
    intro s _ _
    rw [alike]
    exact .refl _
  | @bind top _ _ m _ first rest ih₁ ih₂ =>
    intro s lawful known
    have after a t (run : runFrom s (m c) = (.ok a, t)) : Lawful c t ∧ Knows t top := by
      obtain ⟨lawful', -, restored⟩ := (first.safe hinv s lawful known).of_ok run
      exact ⟨lawful', known.restored restored⟩
    refine .bind (ih₁ s lawful known) (fun a t run => ?_) fun a t run => ?_
    · obtain ⟨lawful, known⟩ := after a t run
      exact ih₂ a t lawful known
    · obtain ⟨lawful, known⟩ := after a t run
      exact ((rest a).safe hinv t lawful known).grown
  | calling _ rest =>
    intro s lawful _
    refine .after (fun _ _ run => run) fun home t found => ?_
    obtain rfl := ReadsOnly.of_ok .callingHome found
    exact rest home t lawful (lawful.calling found)
  | rethrow g _ body => exact fun s lawful known => (body s lawful known).rethrow
  | package error id => exact fun s _ _ p t run _ => cont.packageOr run
  | judge origin => exact fun s _ _ cls t run _ => cont.classOf run
  | deploy entries sources => exact fun s _ _ => .deploy _ entries sources
  | invoke home errand thread fits =>
    intro s lawful known
    refine .after (fun _ _ run => run) fun inst t looked => ?_
    obtain ⟨hinst, rfl⟩ := runFrom_instanceAt_eq_ok.1 looked
    exact hrep t _ errand _ lawful (lawful.suits known fits hinst)
  | boot id built targets =>
    exact fun s lawful _ => .instanceFor hinv hrep cont lawful
      (fun p t lawful => (built p).safe hinv t lawful (.none t))
      (fun p t lawful => targets p t lawful (.none t)) id
  | loadLatest origin touched silent builtTargets builtObject targets build =>
    exact fun s lawful _ => .loadLatest cont hinv hrep
      (fun p t lawful => (builtTargets p).safe hinv t lawful (.none t))
      (fun p t lawful => targets p t lawful (.none t))
      (fun _ _ _ _ t lawful => (builtObject _ _ _ _).safe hinv t lawful (.none t))
      (fun _ _ _ _ t lawful => build _ _ _ _ t lawful (.none t)) lawful origin touched
  | loadByLocation location builtTargets builtObject targets build =>
    exact fun s lawful _ => .loadByLocation cont hinv hrep
      (fun p t lawful => (builtTargets p).safe hinv t lawful (.none t))
      (fun p t lawful => targets p t lawful (.none t))
      (fun _ _ _ _ t lawful => (builtObject _ _ _ _).safe hinv t lawful (.none t))
      (fun _ _ _ _ t lawful => build _ _ _ _ t lawful (.none t)) lawful location
  | construct home classIdx args builtCall builtNew call new =>
    exact fun s lawful _ => .construct lawful home classIdx args call
      (fun cls t lawful known => (builtCall cls).safe hinv t lawful known)
      (fun cls origin word t lawful => new cls origin word t lawful (.none t))
      (fun cls origin word t lawful => (builtNew cls origin word).safe hinv t lawful (.none t))
  | method idx method args _ body =>
    exact fun s lawful _ => .callMethod lawful idx method args body
  | function home function args _ body =>
    exact fun s lawful _ => .callFunction lawful home function args body
  | changeLock idx lock _ => exact fun s _ _ => .refl _
  | pay origin idx => exact fun s _ _ => .refl _

/-! ### Running guests -/

/-- A request of a guest is answered again as it was. -/
theorem Reproduces.request {inv : Invoker} (cont : Continues c registry store)
    (hinv : inv.IsSafe c) (hrep : inv.IsReproduced c registry store) (lawful : Lawful c s)
    {guest : Nat} (runs : s.scene.Runs guest) (function : HostImport) (args : List Val) :
    Reproduces c registry store s ((inv.host c).request guest function args)
      ((inv.host (c.over registry store)).request guest function args) := by
  refine .after (fun _ _ run => run) fun s' t looked => ?_
  cases looked
  have due : Due c s.scene (.requested guest function s.frames.head?) :=
    ⟨by rw [lawful.shows.frames], runs⟩
  have requested := lawful.record due lawful.shows
  refine .after (fun _ _ run => run) fun _ t noted => ?_
  cases noted
  have built : Built inv none fun c => (inv.host c).answer function args := .answer function args
  exact built.reproduces cont hinv hrep _ requested (.none _)

/-- Noting an errand around a run leaves it as it is. -/
theorem isReproduced_onErrand (room : Context → Nat) (alike : room (c.over registry store) = room c)
    (again : ∀ s guest thread, Lawful c s → s.scene.Runs guest → Reproduces c registry store s
      (run c (room c) guest thread) (run (c.over registry store) (room c) guest thread)) :
    Invoker.IsReproduced (fun c => onErrand (run c (room c))) c registry store := by
  intro s guest errand thread lawful suits
  obtain ⟨lawful, runs⟩ := lawful.invoked suits
  dsimp only
  rw [alike]
  refine .after (fun _ _ run => run) fun _ t noted => ?_
  cases noted
  refine .bind (again _ guest thread lawful runs) (fun _ _ _ => .refl _) fun results t run => ?_
  exact .record t .finished

/-- A guest runs again as it ran: its code does the same by itself, and its requests are answered
in the same way. -/
theorem Reproduces.run (cont : Continues c registry store) :
    ∀ (room : Nat) (s : Session) (guest : Nat) (thread : Thread), Lawful c s →
      s.scene.Runs guest → Reproduces c registry store s (Engine.run c room guest thread)
        (Engine.run (c.over registry store) room guest thread)
  | 0, _, _, _, _, _ => .refl _
  | room + 1, s, guest, thread, lawful, runs => by
    refine .after (fun _ _ run => run) fun _ t burnt => ?_
    obtain ⟨lawful₁, grown, restored⟩ := (Safe.quietly Silently.burn.quietly lawful).of_ok burnt
    have runs := runs.restored grown lawful lawful₁ restored
    refine .after (fun _ _ run => run) fun found u looked => ?_
    obtain rfl := ReadsOnly.of_ok (.guestAt guest) looked
    dsimp only
    cases found.machine.step thread with
    | running machine thread =>
      refine .after (fun _ _ run => run) fun _ v stored => ?_
      obtain ⟨lawful₂, grown, restored⟩ :=
        (Safe.quietly (Silently.setMachine guest machine).quietly lawful₁).of_ok stored
      exact Reproduces.run cont room v guest thread lawful₂
        (runs.restored grown lawful₁ lawful₂ restored)
    | finished results => exact .refl _
    | trapped trap => exact .refl _
    | stuck => exact .refl _
    | waiting function args thread =>
      dsimp only
      cases found.links[function]? with
      | none => exact .refl _
      | some function =>
        have hinv : Invoker.IsSafe (fun c => onErrand (Engine.run c room)) c :=
          isSafe_onErrand (fun _ => room)
            fun s guest thread lawful runs => Safe.run room s guest thread lawful runs
        have hrep : Invoker.IsReproduced (fun c => onErrand (Engine.run c room)) c registry store :=
          isReproduced_onErrand (fun _ => room) rfl fun s guest thread lawful runs =>
            Reproduces.run cont room s guest thread lawful runs
        have safe := Safe.request hinv lawful₁ runs function args.reverse
        have after results v (run : runFrom u _ = (.ok results, v)) :=
          safe.of_ok (a := results) (t := v) run
        refine .bind (.request cont hinv hrep lawful₁ runs function args.reverse)
          (fun results v answered => ?_) fun results v answered => ?_
        · obtain ⟨lawful₂, grown, restored⟩ := after results v answered
          exact Reproduces.run cont room v guest _ lawful₂
            (runs.restored grown lawful₁ lawful₂ restored)
        · obtain ⟨lawful₂, grown, restored⟩ := after results v answered
          exact (Safe.run room v guest _ lawful₂
            (runs.restored grown lawful₁ lawful₂ restored)).grown

theorem isReproduced_invoker (cont : Continues c registry store) :
    invoker.IsReproduced c registry store :=
  isReproduced_onErrand (fun c => c.env.config.fuelLimit) rfl (.run cont _)

/-! ### Transactions -/

/-- An instruction is run again as it was. -/
theorem Reproduces.step (cont : Continues c registry store) (lawful : Lawful c s) (idle : Idle s)
    (idx : Nat) (i : Instruction) :
    Reproduces c registry store s (Engine.step (host c) idx i)
      (Engine.step (host (c.over registry store)) idx i) := by
  refine .after (fun _ _ run => run) fun s' t looked => ?_
  cases looked
  refine .after (fun _ _ run => run) fun _ t run => ?_
  cases run
  have due : Due c s.scene (.began idx) := ⟨idle.frames, idle.making, idle.starting, idle.running⟩
  have began := lawful.began due
  refine .bind ((Built.instruction i).reproduces cont (isSafe_invoker c) (isReproduced_invoker cont)
    _ began (.none _)) (fun _ _ _ => .refl _) fun statement t _ => ?_
  exact { Grown.refl t with }

/-- One instruction is run again after the other. -/
theorem Reproduces.steps (cont : Continues c registry store) :
    ∀ (instructions : List Instruction) (idx : Nat) (s : Session), Lawful c s → Idle s →
      Reproduces c registry store s (Engine.steps (host c) idx instructions)
        (Engine.steps (host (c.over registry store)) idx instructions)
  | [], _, _, _, _ => .refl _
  | i :: rest, idx, s, lawful, idle => by
    have safe := Safe.step lawful idle idx i
    have after fuel t (run : runFrom s (tryCatch (Engine.step (host c) idx i) fun failure =>
        throw (.ofError (failure.toError.withInstruction idx))) = (.ok fuel, t)) :
        Lawful c t ∧ Idle t := by
      obtain ⟨lawful', -, restored⟩ := safe.of_ok (runFrom_rethrow_eq_ok.1 run)
      have began : Idle (s.began idx) := ⟨idle.frames, idle.making, idle.starting, idle.running⟩
      exact ⟨lawful', began.restored restored⟩
    refine .bind (.rethrow (.step cont lawful idle idx i)) (fun fuel t run => ?_)
      fun fuel t run => ?_
    · obtain ⟨lawful, idle⟩ := after fuel t run
      refine .bind (Reproduces.steps cont rest (idx + 1) t lawful idle) (fun _ _ _ => .refl _)
        fun _ u _ => .refl u
    · obtain ⟨lawful, idle⟩ := after fuel t run
      obtain ⟨s₀, -, safe⟩ := Safe.steps rest (idx + 1) t lawful idle
      exact (safe.bind fun more u _ lawful _ restored => .reads (.pure _) lawful restored).grown

/-- A transaction that has succeeded succeeds again over any registry and store to which those that
it ran over may have come, and which agree with its session. Its result is the same, and so is its
whole session. -/
theorem runTransaction_reproduced (cont : Continues c registry store) {tx : Transaction}
    {r : ExecutionResult} (run : runTransaction c tx = (.ok r, s))
    (agrees : Agrees c registry store s) :
    runTransaction (c.over registry store) tx = (.ok r, s) := by
  refine Reproduces.bind (.steps cont tx.instructions 0 _ (lawful_start c _ _) (idle_start _ _))
    (fun fuel t _ => .refl _) (fun fuel t _ => ?_) r s run agrees
  exact ((Quietly.finalize c).bind (fun left =>
    (ReadsOnly.get.bind fun s => .pure _).quietly) t).grown

end JigLedger.Engine
