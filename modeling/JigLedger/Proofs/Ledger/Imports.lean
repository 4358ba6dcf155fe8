import JigLedger.Proofs.Abi.Exports
import JigLedger.Proofs.Engine.Recall
import JigLedger.Proofs.Ledger.Results

/-!
# Imports lead to what they name

When a package starts, all of its imports are looked up, and what is kept of each is an index among
the exports of the package that it names. Later the index is used in a package that is looked up
again. Both look-ups lead to the same package, since a transaction finds one package under an id and
does not lose it, and in this package nothing else is exported under the name.
-/

namespace JigLedger

namespace Engine

variable {α : Type} {c : Context} {room : Nat} {s t u : Session} {deploys deploys' : List Package}
  {i : Abi.Import} {p : Package} {idx : Nat} {inst : PackageInstance}

/-! ### Where imports lead -/

/-- An import leads to an export: the transaction finds its package, which has something of its kind
under its name at this index. -/
structure Aims (c : Context) (deploys : List Package) (i : Abi.Import) (p : Package)
    (idx : Nat) : Prop where
  package : Finds c deploys i.package p
  named : p.abi.exportIndex? i.name = some idx
  kind : isTarget i.kind p.abi idx = true

/-- What is kept of an import when its package starts. -/
inductive Target (c : Context) (deploys : List Package) (i : Abi.Import) : Option Nat → Prop where
  | interface (kind : i.kind = .ofInterface) : Target c deploys i none
  | aims {p : Package} {idx : Nat} (aims : Aims c deploys i p idx) : Target c deploys i (some idx)

/-- The transaction finds the package of an instance and where its imports lead. -/
structure Linked (c : Context) (deploys : List Package) (inst : PackageInstance) : Prop where
  package : ∃ id, Finds c deploys id inst.package
  targets : List.Forall₂ (Target c deploys) inst.package.abi.imports inst.targets

theorem Aims.mono (h : Aims c deploys i p idx) (more : deploys <+: deploys') :
    Aims c deploys' i p idx := ⟨h.package.mono more, h.named, h.kind⟩

theorem Target.mono {target : Option Nat} (h : Target c deploys i target)
    (more : deploys <+: deploys') : Target c deploys' i target := by
  cases h with
  | interface kind => exact .interface kind
  | aims aims => exact .aims (aims.mono more)

theorem Linked.mono (h : Linked c deploys inst) (more : deploys <+: deploys') :
    Linked c deploys' inst where
  package := h.package.imp fun _ finds => finds.mono more
  targets := h.targets.imp fun _ _ target => target.mono more

/-- What an import of a class leads to is a class. -/
theorem exists_class_of_isTarget {a : Abi} (h : isTarget .ofClass a idx = true) :
    ∃ cls, a.exports[idx]? = some (.ofClass cls) := by
  unfold isTarget at h
  split at h
  case h_1 cls _ there => exact ⟨cls, there⟩
  case h_2 same _ => cases same
  case h_3 => cases h

/-- The same for a function. -/
theorem exists_function_of_isTarget {a : Abi} (h : isTarget .ofFunction a idx = true) :
    ∃ f, a.exports[idx]? = some (.ofFunction f) := by
  unfold isTarget at h
  split at h
  case h_1 same _ => cases same
  case h_2 f _ there => exact ⟨f, there⟩
  case h_3 => cases h

/-- An interface is the target of no import. -/
theorem Aims.kind_ne (h : Aims c deploys i p idx) : i.kind ≠ .ofInterface := by
  intro same
  have kind := h.kind
  simp [isTarget, same] at kind

/-- An import that is looked up leads to what it names. -/
theorem target_of_importTarget {target : Option Nat}
    (run : runFrom s (importTarget c i) = (.ok target, t)) : Target c s.deploys i target := by
  unfold importTarget at run
  split at run
  case isTrue kind =>
    cases run
    exact .interface kind
  case isFalse =>
    obtain ⟨p, _, packaged, naming⟩ := runFrom_bind_eq_ok run
    obtain ⟨found, rfl⟩ := runFrom_packageOr_eq_ok.1 packaged
    rcases named : p.abi.exportIndex? i.name with _ | idx <;> simp only [named] at naming
    · cases naming
    split at naming
    case isTrue kind =>
      cases naming
      exact .aims ⟨Session.finds found, named, kind⟩
    case isFalse => cases naming

theorem forall₂_target {imports : List Abi.Import} {targets : List (Option Nat)}
    (run : runFrom s (imports.mapM (importTarget c)) = (.ok targets, t)) :
    List.Forall₂ (Target c s.deploys) imports targets := by
  induction imports generalizing targets with
  | nil =>
    cases run
    exact .nil
  | cons i imports ih =>
    obtain ⟨target, u, rest, first, others, rfl⟩ := runFrom_mapM_cons_eq_ok.1 run
    obtain rfl := (ReadsOnly.importTarget c i).of_ok first
    exact .cons (target_of_importTarget first) (ih others)

/-- An import whose package is registered or deployed is looked up successfully. -/
theorem runFrom_importTarget (lawful : Lawful c s) (aims : Aims c s.deploys i p idx) :
    runFrom s (importTarget c i) = (.ok (some idx), s) := by
  have found := lawful.package?_of_finds aims.package
  rw [importTarget, if_neg aims.kind_ne,
    runFrom_bind_of_ok (runFrom_packageOr_eq_ok.2 ⟨found, rfl⟩)]
  simp only [aims.named, aims.kind, if_true]
  rfl

/-! ### Packages that are started -/

/-- Packages have been deployed and started, and the transaction finds where the imports of those
lead that it has started. -/
structure Links (c : Context) (s t : Session) : Prop where
  deploys : s.deploys <+: t.deploys
  instances : ∀ inst ∈ t.instances, inst ∈ s.instances ∨ Linked c t.deploys inst

namespace Links

theorem of_eq (deploys : t.deploys = s.deploys) (instances : t.instances = s.instances) :
    Links c s t := ⟨deploys ▸ List.prefix_rfl, fun _ mem => .inl (instances ▸ mem)⟩

theorem trans (h : Links c s t) (h' : Links c t u) : Links c s u where
  deploys := h.deploys.trans h'.deploys
  instances inst mem := by
    obtain before | linked := h'.instances inst mem
    · exact (h.instances inst before).imp_right fun linked => linked.mono h'.deploys
    · exact .inr linked

end Links

/-- Whatever starts a package has looked up its imports. -/
theorem welcoming_links (c : Context) : Welcoming c (Links c) where
  quiet h := .of_eq h.deploys h.instances
  trans := .trans
  noted _ _ _ := .of_eq rfl rfl
  launched _ _ := .of_eq rfl rfl
  made _ _ := .of_eq rfl rfl
  relocked _ _ _ := .of_eq rfl rfl
  spent _ _ _ := .of_eq rfl rfl
  deployed _ _ := ⟨List.prefix_append _ _, fun _ mem => .inl mem⟩
  started guest allocator led found resolved := by
    refine ⟨List.prefix_rfl, fun inst mem => ?_⟩
    obtain old | new := List.mem_append.1 mem
    · exact .inl old
    · obtain rfl := List.mem_singleton.1 new
      exact .inr (.mono ⟨⟨_, Session.finds found⟩, forall₂_target resolved⟩ led.deploys)

theorem links_inFrame {entry : Entry} {frame : Frame} {callee : Abi.Callable}
    {args : List Value} {body : Engine α} (h : Ends (Links c) body) :
    Ends (Links c) (inFrame c entry frame callee args body) :=
  h.framed (welcoming_links c).toEnduring (fun _ => .of_eq rfl rfl) fun _ => .of_eq rfl rfl

/-- Whatever is done with guests that run as they do starts packages whose imports have been looked
up. -/
theorem Built.links {room : Context → Nat} {top : Option Nat} {m : Context → Engine α}
    (h : Built (fun c => onErrand (run c (room c))) top m) : Ends (Links c) (m c) :=
  have welcoming := welcoming_links c
  h.ends_of_framed welcoming.toEnduring welcoming.boots links_inFrame
    (.guest_of_framed welcoming.toEnduring welcoming.boots links_inFrame _)

/-- However the instructions end. -/
theorem Ends.links_steps (instructions : List Instruction) (idx : Nat) :
    Ends (Links c) (Engine.steps (host c) idx instructions) :=
  have welcoming := welcoming_links c
  .steps welcoming.toEnduring welcoming.boots links_inFrame (fun _ _ => .of_eq rfl rfl)
    (fun _ _ => .of_eq rfl rfl) instructions idx

/-! ### Sessions whose packages are linked -/

/-- Only what was due has happened in a session, and all packages that run are linked. -/
structure Wired (c : Context) (s : Session) : Prop where
  lawful : Lawful c s
  linked : ∀ inst ∈ s.instances, Linked c s.deploys inst

theorem Links.linked (h : Links c s t) (linked : ∀ inst ∈ s.instances, Linked c s.deploys inst) :
    ∀ inst ∈ t.instances, Linked c t.deploys inst := fun inst mem =>
  (h.instances inst mem).elim (fun old => (linked inst old).mono h.deploys) id

/-- However a transaction ends, it ends in such a session. -/
theorem wired_runTransaction (c : Context) (tx : Transaction) :
    Wired c (runTransaction c tx).2 := by
  have welcoming := welcoming_links c
  have run : Ends (Links c) (transact c tx) :=
    .transact welcoming.toEnduring welcoming.boots links_inFrame (fun _ _ => .of_eq rfl rfl)
      (fun _ _ => .of_eq rfl rfl) tx
  exact ⟨lawful_runTransaction c tx, (run _).linked nofun⟩

/-- Sessions that a transaction goes through: its instructions begin in them, and from one of them
the engine comes to the next by something that it is built from, by entering a call, or by noting
what is about to happen. So whenever a guest asks for something, it is in such a session. -/
inductive Within (c : Context) (tx : Transaction) : Session → Prop where
  | began {idx : Nat} {s : Session} (arrives : Arrives c tx idx s) : Within c tx (s.began idx)
  | built {room : Nat} {top : Option Nat} {α : Type} {m : Context → Engine α} {s : Session}
      (before : Within c tx s) (knows : Knows s top)
      (built : Built (fun c => onErrand (run c room)) top m) : Within c tx (runFrom s (m c)).2
  | entered {entry : Entry} {frame : Frame} {callee : Abi.Callable} {args : List Value}
      {s : Session} (before : Within c tx s)
      (due : Due c s.scene (.entered entry frame callee args)) :
      Within c tx (s.entered entry frame callee args)
  | noted {e : Event} {s : Session} (before : Within c tx s) (due : Due c s.scene e)
      (shows : Shows (s.scene.after e) s) : Within c tx (s.record e)

/-- All of them are linked: nothing that happens meanwhile makes a difference. -/
theorem Within.wired {tx : Transaction} (within : Within c tx s) : Wired c s := by
  induction within with
  | @began idx s arrives =>
    have regular := Regular.of_arrives arrives
    obtain ⟨fuels, run⟩ := arrives
    have links := Ends.links_steps (c := c) (tx.instructions.take idx) 0
      (.start c.env.config.fuelLimit tx.size)
    rw [run] at links
    exact ⟨regular.lawful, links.linked nofun⟩
  | @built room top _ m s before knows built wired =>
    have safe := built.safe (isSafe_onErrand (fun _ => room) (Safe.run room)) s wired.lawful knows
    exact ⟨safe.lawful, (built.links s).linked wired.linked⟩
  | entered before due wired => exact ⟨wired.lawful.entered due, wired.linked⟩
  | noted before due shows wired => exact ⟨wired.lawful.record due shows, wired.linked⟩

/-! ### Requests for imports -/

/-- The index of the package whose code runs, and its import with an index. -/
def Session.import? (s : Session) (k : Nat) : Option (Nat × Abi.Import) := do
  let frame ← s.frames.head?
  let inst ← s.instances[frame.home]?
  let i ← inst.package.abi.imports[k]?
  return (frame.home, i)

namespace Host

variable (h : Host)

/-- Constructs a jig of a given class of a package. -/
def constructOf (home : Nat) (cls : Abi.Class) (args : List Value) : Engine Nat := do
  let origin ← h.newOrigin
  touch origin (assignedTwice origin) do
    let word ← inFrame h.context .constructor ⟨.jig origin, home⟩ cls.constructor args
      (h.callConstructor home cls args)
    h.newJig home cls.exportIdx cls origin word

/-- Constructs a jig of a class of the package with an id, on a request of another package. -/
def constructFor (home : Nat) (id : PackageId) (cls : Abi.Class) (args : UInt32) :
    Engine UInt32 := do
  let target ← h.instanceFor id
  let values ← guestArgs h.context home cls.constructor.params args
  let idx ← h.constructOf target cls values
  h.proxy home (← jigAt idx).origin

/-- Calls a function of the package with an id, on a request of another package. -/
def callFor (home : Nat) (id : PackageId) (function : Abi.Callable) (args : UInt32) :
    Engine UInt64 := do
  let target ← h.instanceFor id
  let values ← guestArgs h.context home function.params args
  let result ← h.callFunction target function values
  h.returnWord home function.result result

end Host

theorem import?_eq_some {k home : Nat} : s.import? k = some (home, i) ↔
    s.frames.head?.map (·.home) = some home ∧
      ∃ inst, s.instances[home]? = some inst ∧ inst.package.abi.imports[k]? = some i := by
  simp only [Session.import?, Option.bind_eq_bind, Option.bind_eq_some_iff, Option.pure_def,
    Option.some.injEq, Prod.mk.injEq, Option.map_eq_some_iff]
  constructor
  · rintro ⟨frame, top, inst, there, i, imported, rfl, rfl⟩
    exact ⟨⟨frame, top, rfl⟩, inst, there, imported⟩
  · rintro ⟨⟨frame, top, rfl⟩, inst, there, imported⟩
    exact ⟨frame, top, inst, there, i, imported, rfl, rfl⟩

/-- The package of the top frame makes a request. -/
theorem runFrom_callingHome {home : Nat} (top : s.frames.head?.map (·.home) = some home) :
    runFrom s callingHome = (.ok home, s) := by
  rw [callingHome, runFrom_bind_of_ok (runFrom_get s)]
  rcases hf : s.frames with _ | ⟨frame, below⟩ <;> rw [hf] at top <;> cases top
  rfl

/-- The rest of a computation matters only where its first part leads. -/
theorem runFrom_bind_congr {β : Type} {m : Engine α} {f g : α → Engine β}
    (h : ∀ a t, runFrom s m = (.ok a, t) → runFrom t (f a) = runFrom t (g a)) :
    runFrom s (m >>= f) = runFrom s (m >>= g) := by
  rw [runFrom_bind, runFrom_bind]
  rcases run : runFrom s m with ⟨e | a, t⟩
  · rfl
  · exact h a t run

/-- A class has its name in its package, and its constructor is exported for it. -/
def IsClass (id : PackageId) (name : String) (cls : Abi.Class) : Prop :=
  cls.ref = ⟨id, name⟩ ∧ cls.constructor.exportName = s!"{name}_constructor"

/-- A function has its name and is exported under it. -/
def IsFunction (_ : PackageId) (name : String) (f : Abi.Callable) : Prop :=
  f.name = name ∧ f.exportName = name

/-- What comes of a request for an import. If the package whose code runs has an import of the kind
with this index, whatever its package exports under its name is entered; this package is found, and
it is the one that runs. Otherwise the request fails and nothing has happened. -/
structure Enters {γ β : Type} (c : Context) (room : Nat) (s : Session) (k : UInt32)
    (kind : Abi.ImportKind) (named? : Abi → String → Option γ)
    (is : PackageId → String → γ → Prop) (request : UInt32 → Engine β)
    (enter : Nat → PackageId → γ → UInt32 → Engine β) : Prop where
  enters : ∀ home i, s.import? k.toNat = some (home, i) → i.kind = kind →
    ∃ p x, Finds c s.deploys i.package p ∧ named? p.abi i.name = some x ∧ is i.package i.name x ∧
      (∀ target t, runFrom s ((c.hostWith room).instanceFor i.package) = (.ok target, t) →
        ∃ inst, t.instances[target]? = some inst ∧ inst.package = p) ∧
      ∀ args, runFrom s (request args) = runFrom s (enter home i.package x args)
  fails : (∀ home i, s.import? k.toNat = some (home, i) → i.kind ≠ kind) →
    ∀ args, ∃ e, runFrom s (request args) = (.error e, s)

section Packages

variable (sound : c.env.registry.Sound)

include sound

/-- A package that is found has the id and was built. -/
theorem Finds.isBuilt {id : PackageId} (lawful : Lawful c s) (finds : Finds c s.deploys id p) :
    p.id = id ∧ p.IsBuilt := by
  obtain registered | ⟨deployed, same⟩ := finds
  · exact sound id p registered
  · exact ⟨same, lawful.deploys.built p deployed⟩

/-- An import of a class leads to the class with its name. -/
theorem Aims.class (lawful : Lawful c s) (aims : Aims c s.deploys i p idx)
    (kind : i.kind = .ofClass) : ∃ cls, p.abi.classAt idx = .ok cls ∧ cls.exportIdx = idx ∧
      p.abi.classNamed? i.name = some cls ∧ IsClass i.package i.name cls := by
  obtain ⟨same, entries, sources, artifacts, built⟩ := aims.package.isBuilt sound lawful
  obtain ⟨cls, there⟩ := exists_class_of_isTarget (kind ▸ aims.kind)
  have hc : p.abi.classAt idx = .ok cls := by rw [Abi.classAt, there]
  obtain ⟨ref, own, name⟩ := Abi.class_of_exportIndex? (Package.of_build built).2.1 aims.named hc
  refine ⟨cls, hc, own, ?_, same ▸ ref, name⟩
  rw [Abi.classNamed?, aims.named, Option.bind_some, hc]
  rfl

/-- An import of a function leads to the function with its name. -/
theorem Aims.function (lawful : Lawful c s) (aims : Aims c s.deploys i p idx)
    (kind : i.kind = .ofFunction) : ∃ f, p.abi.functionAt idx = .ok f ∧
      p.abi.functionNamed? i.name = some f ∧ IsFunction i.package i.name f := by
  obtain ⟨-, entries, sources, artifacts, built⟩ := aims.package.isBuilt sound lawful
  obtain ⟨f, there⟩ := exists_function_of_isTarget (kind ▸ aims.kind)
  have hf : p.abi.functionAt idx = .ok f := by rw [Abi.functionAt, there]
  refine ⟨f, hf, ?_, Abi.function_of_exportIndex? (Package.of_build built).2.1 aims.named hf⟩
  rw [Abi.functionNamed?, aims.named, Option.bind_some, hf]
  rfl

end Packages

section Requests

variable {home : Nat} {k : UInt32} {kind : Abi.ImportKind} {h : Host}

/-- What is found for an import that leads somewhere is the index of its package, which is started
if it does not run, and the index of the export. -/
theorem runFrom_importedExport (there : s.instances[home]? = some inst)
    (imported : inst.package.abi.imports[k.toNat]? = some i)
    (resolved : inst.targets[k.toNat]? = some (some idx)) :
    runFrom s (h.importedExport home k i.kind) =
      runFrom s (h.instanceFor i.package >>= fun target => pure (target, idx)) := by
  have known : runFrom s (importOfKind inst.package k.toNat i.kind) = (.ok i, s) := by
    rw [importOfKind, Abi.importAt, imported,
      runFrom_bind_of_ok (runFrom_orError_eq_ok.2 ⟨rfl, rfl⟩), if_pos rfl]
    rfl
  rw [Host.importedExport, runFrom_bind_of_ok (runFrom_instanceAt_eq_ok.2 ⟨there, rfl⟩),
    runFrom_bind_of_ok known, resolved, Option.join_some,
    runFrom_bind_of_ok (runFrom_orMissing_eq_ok.2 ⟨rfl, rfl⟩)]

/-- Without an import of the kind that is asked for nothing is found. -/
theorem runFrom_importedExport_of_ne
    (other : ∀ inst i, s.instances[home]? = some inst →
      inst.package.abi.imports[k.toNat]? = some i → i.kind ≠ kind) :
    ∃ e, runFrom s (h.importedExport home k kind) = (.error e, s) := by
  rw [Host.importedExport]
  rcases there : s.instances[home]? with _ | inst
  · have missing : runFrom s (instanceAt home) =
        (.error (.ofError (.broken s!"no instance {home}")), s) := by
      rw [instanceAt, runFrom_bind_of_ok (runFrom_get s), there]
      rfl
    exact ⟨_, by rw [runFrom_bind, missing]⟩
  rw [runFrom_bind_of_ok (runFrom_instanceAt_eq_ok.2 ⟨there, rfl⟩), importOfKind, Abi.importAt]
  rcases imported : inst.package.abi.imports[k.toNat]? with _ | i
  · exact ⟨_, rfl⟩
  · dsimp only [orError]
    rw [pure_bind, if_neg (other inst i there imported)]
    exact ⟨_, rfl⟩

/-- Constructing a jig of the class at an index is constructing one of this class. -/
theorem runFrom_construct {cls : Abi.Class} {values : List Value}
    (there : s.instances[home]? = some inst) (hc : inst.package.abi.classAt idx = .ok cls)
    (own : cls.exportIdx = idx) :
    runFrom s (h.construct home idx values) = runFrom s (h.constructOf home cls values) := by
  rw [Host.construct, runFrom_bind_of_ok (runFrom_instanceAt_eq_ok.2 ⟨there, rfl⟩),
    runFrom_bind_of_ok (runFrom_orPlain_eq_ok.2 ⟨hc, rfl⟩), Host.constructOf, own]

/-- A request that needs an import of a kind fails if there is none. -/
theorem fails_of_ne {β : Type} {f : Nat → Nat × Nat → Engine β}
    (other : ∀ home i, s.import? k.toNat = some (home, i) → i.kind ≠ kind) :
    ∃ e, runFrom s (callingHome >>= fun home => h.importedExport home k kind >>= f home) =
      (.error e, s) := by
  by_cases framed : s.frames = []
  · exact Refused.calling _ s framed
  obtain ⟨frame, below, top⟩ := List.exists_cons_of_ne_nil framed
  have top : s.frames.head?.map (·.home) = some frame.home := by rw [top]; rfl
  obtain ⟨e, failed⟩ : ∃ e, runFrom s (h.importedExport frame.home k kind) = (.error e, s) :=
    runFrom_importedExport_of_ne fun inst i there imported =>
      other frame.home i (import?_eq_some.2 ⟨top, inst, there, imported⟩)
  exact ⟨e, by rw [runFrom_bind_of_ok (runFrom_callingHome top), runFrom_bind, failed]⟩

namespace Wired

variable (wired : Wired c s)

include wired

/-- What is kept of an import leads where the import does. -/
theorem target (mem : inst ∈ s.instances) {k : Nat}
    (imported : inst.package.abi.imports[k]? = some i) (other : i.kind ≠ .ofInterface) :
    ∃ p idx, Aims c s.deploys i p idx ∧ inst.targets[k]? = some (some idx) := by
  have targets := (wired.linked inst mem).targets
  have inside := (List.getElem?_eq_some_iff.1 imported).1
  obtain ⟨target, kept⟩ : ∃ target, inst.targets[k]? = some target :=
    ⟨_, List.getElem?_eq_getElem (targets.length_eq ▸ inside)⟩
  cases forall₂_getElem? targets imported kept with
  | interface kind => exact absurd kind other
  | aims aims => exact ⟨_, _, aims, kept⟩

variable (sound : c.env.registry.Sound)

include sound

/-- The package that is started for an id is the one that is found under it. -/
theorem package_of_instanceFor {id : PackageId} {target : Nat} (finds : Finds c s.deploys id p)
    (started : runFrom s ((c.hostWith room).instanceFor id) = (.ok target, t)) :
    ∃ inst, t.instances[target]? = some inst ∧ inst.package = p := by
  have built : Built (fun c => onErrand (run c room)) none fun c =>
    (c.hostWith room).instanceFor id := .instanceFor id
  have safe := built.safe (isSafe_onErrand (fun _ => room) (Safe.run room)) s wired.lawful (.none s)
  obtain ⟨lawful, grown, -⟩ := safe.of_ok started
  let inv : Invoker := fun c => onErrand (run c room)
  obtain ⟨inst, there, isOf⟩ : ∃ inst, t.instances[target]? = some inst ∧ inst.IsOf c id :=
    wired.lawful.instanceFor (show runFrom s ((inv.host c).instanceFor id) = _ from started)
  have links := built.links (c := c) s
  rw [started] at links
  obtain ⟨other, running⟩ := (links.linked wired.linked inst (List.mem_of_getElem? there)).package
  obtain ⟨same, -⟩ := running.isBuilt sound lawful
  obtain rfl : other = id := by
    obtain same' | registered := isOf
    · exact same.symm.trans same'
    · exact same.symm.trans (sound _ _ registered).1
  have found := lawful.package?_of_finds (finds.mono grown.deploys)
  rw [lawful.package?_of_finds running] at found
  exact ⟨inst, there, Option.some.inj found⟩

/-- A request for a class constructs a jig of the class that the import names. -/
theorem constructorRemote (k : UInt32) : Enters c room s k .ofClass Abi.classNamed? IsClass
    ((c.hostWith room).constructorRemote k) (c.hostWith room).constructFor where
  fails other args := fails_of_ne other
  enters home i asked kind := by
    obtain ⟨top, inst, there, imported⟩ := import?_eq_some.1 asked
    obtain ⟨p, idx, aims, kept⟩ := wired.target (List.mem_of_getElem? there) imported
      (by rw [kind]; nofun)
    obtain ⟨cls, hc, own, named, isClass⟩ := aims.class sound wired.lawful kind
    refine ⟨p, cls, aims.package, named, isClass,
      fun target t => wired.package_of_instanceFor sound aims.package, fun args => ?_⟩
    rw [Host.constructorRemote, runFrom_bind_of_ok (runFrom_callingHome top), ← kind, runFrom_bind,
      runFrom_importedExport there imported kept, ← runFrom_bind, bind_assoc, Host.constructFor]
    refine runFrom_bind_congr fun target t started => ?_
    obtain ⟨inst', there', rfl⟩ := wired.package_of_instanceFor sound aims.package started
    rw [pure_bind, runFrom_bind_of_ok (runFrom_instanceAt_eq_ok.2 ⟨there', rfl⟩),
      runFrom_bind_of_ok (runFrom_orPlain_eq_ok.2 ⟨hc, rfl⟩)]
    refine runFrom_bind_congr fun values u read => ?_
    obtain rfl := (ReadsOnly.guestArgs c home _ args).of_ok read
    rw [runFrom_bind, runFrom_construct there' hc own, ← runFrom_bind]

/-- A request for a function calls the function that the import names. -/
theorem requestFunction (k : UInt32) : Enters c room s k .ofFunction Abi.functionNamed? IsFunction
    ((c.hostWith room).requestFunction k) (c.hostWith room).callFor where
  fails other args := fails_of_ne other
  enters home i asked kind := by
    obtain ⟨top, inst, there, imported⟩ := import?_eq_some.1 asked
    obtain ⟨p, idx, aims, kept⟩ := wired.target (List.mem_of_getElem? there) imported
      (by rw [kind]; nofun)
    obtain ⟨f, hf, named, isFunction⟩ := aims.function sound wired.lawful kind
    refine ⟨p, f, aims.package, named, isFunction,
      fun target t => wired.package_of_instanceFor sound aims.package, fun args => ?_⟩
    rw [Host.requestFunction, runFrom_bind_of_ok (runFrom_callingHome top), ← kind, runFrom_bind,
      runFrom_importedExport there imported kept, ← runFrom_bind, bind_assoc, Host.callFor]
    refine runFrom_bind_congr fun target t started => ?_
    obtain ⟨inst', there', rfl⟩ := wired.package_of_instanceFor sound aims.package started
    rw [pure_bind, runFrom_bind_of_ok (runFrom_instanceAt_eq_ok.2 ⟨there', rfl⟩),
      runFrom_bind_of_ok (runFrom_orPlain_eq_ok.2 ⟨hf, rfl⟩)]

end Wired

end Requests

/-- Imports lead to what they name. However a transaction ends, all imports of the packages that it
has started have been looked up, in packages that it finds. In each session that it goes through,
every import can be looked up whose package is registered, or was deployed before, and what is kept
of an import of a class or a function is the index of the export that it names; so the index is
never missing when it is needed. A request for an import enters this class or this function, in the
package of the import, or it fails because there is no such import. -/
theorem imports_reach_exports (sound : c.env.registry.Sound) (tx : Transaction) :
    (∀ inst ∈ (runTransaction c tx).2.instances,
      Linked c (runTransaction c tx).2.deploys inst) ∧
    ∀ s, Within c tx s →
      (∀ i p idx, Aims c s.deploys i p idx →
        runFrom s (importTarget c i) = (.ok (some idx), s)) ∧
      (∀ inst ∈ s.instances, ∀ (k : Nat) i, inst.package.abi.imports[k]? = some i →
        i.kind ≠ .ofInterface → ∃ p idx, Aims c s.deploys i p idx ∧
          inst.targets[k]? = some (some idx)) ∧
      ∀ room k,
        Enters c room s k .ofClass Abi.classNamed? IsClass
          ((c.hostWith room).constructorRemote k) (c.hostWith room).constructFor ∧
        Enters c room s k .ofFunction Abi.functionNamed? IsFunction
          ((c.hostWith room).requestFunction k) (c.hostWith room).callFor := by
  refine ⟨(wired_runTransaction c tx).linked, fun s within => ?_⟩
  have wired := within.wired
  exact ⟨fun i p idx aims => runFrom_importTarget wired.lawful aims,
    fun inst mem k i imported other => wired.target mem imported other,
    fun room k => ⟨wired.constructorRemote sound k, wired.requestFunction sound k⟩⟩

end Engine

/-! ### A package that imports a function of another one -/

namespace Ledger.Well

/-- The id of a package with one entry and no sources. -/
def packageId : PackageId := (Package.contentId ["well"] .empty).toOption.getD default

/-- A function without parameters. -/
def document : Abi.Document := ⟨1, [.ofFunction ⟨"draw", [], none⟩], []⟩

def draw : Abi.Callable := ⟨"draw", "draw", [], none⟩

/-- A module with an allocator that always gives out the address 8, and a function that does
nothing. -/
def wasm : Bytes :=
  Wasm.Binary.magic ++ [1, 0, 0, 0] ++
  [1, 9, 2, 0x60, 1, 0x7F, 1, 0x7F, 0x60, 0, 0] ++ [3, 3, 2, 0, 1] ++ [5, 3, 1, 0, 1] ++
  [7, 27, 3] ++ 6 :: utf8 "memory" ++ [2, 0] ++ 7 :: utf8 "__alloc" ++ [0, 0] ++
  4 :: utf8 "draw" ++ [0, 1] ++ [10, 9, 2] ++ [4, 0, 0x41, 8, 0x0B] ++ [2, 0, 0x0B]

def package : Package where
  id := packageId
  abi := ⟨packageId, document, [.ofFunction draw], []⟩
  module := (Wasm.Module.load wasm).toOption.getD default
  entries := ["well"]
  sources := .empty
  wasm := wasm

theorem resolve_document : Abi.resolve packageId document = .ok package.abi :=
  bind_eq_ok.2 ⟨_, rfl, bind_eq_ok.2 ⟨_, rfl, rfl⟩⟩

theorem build_package : Package.build ["well"] .empty ⟨document, wasm⟩ = .ok package := by
  have content : Package.contentId ["well"] .empty = .ok packageId :=
    eq_ok_getD default (by decide +kernel)
  have loaded : Wasm.Module.load wasm = .ok package.module :=
    eq_ok_getD default (by decide +kernel)
  exact Package.build_eq_ok content resolve_document loaded (by decide +kernel)

end Ledger.Well

namespace Ledger.Herd

/-- The id of a package with another entry. -/
def packageId : PackageId := (Package.contentId ["herd"] .empty).toOption.getD default

/-- A function without parameters, and an import of the other one. -/
def document : Abi.Document :=
  ⟨1, [.ofFunction ⟨"water", [], none⟩], [⟨.ofFunction, "draw", Well.packageId.toText⟩]⟩

def water : Abi.Callable := ⟨"water", "water", [], none⟩

def draw : Abi.Import := ⟨.ofFunction, "draw", Well.packageId⟩

/-- A module with the same allocator, and a function that calls the first import. -/
def wasm : Bytes :=
  Wasm.Binary.magic ++ [1, 0, 0, 0] ++
  [1, 15, 3, 0x60, 1, 0x7F, 1, 0x7F, 0x60, 2, 0x7F, 0x7F, 1, 0x7E, 0x60, 0, 0] ++
  [2, 20, 1] ++ 2 :: utf8 "vm" ++ 13 :: utf8 "call_function" ++ [0, 1] ++
  [3, 3, 2, 0, 2] ++ [5, 3, 1, 0, 1] ++
  [7, 28, 3] ++ 6 :: utf8 "memory" ++ [2, 0] ++ 7 :: utf8 "__alloc" ++ [0, 1] ++
  5 :: utf8 "water" ++ [0, 2] ++
  [10, 16, 2] ++ [4, 0, 0x41, 8, 0x0B] ++ [9, 0, 0x41, 0, 0x41, 0, 0x10, 0, 0x1A, 0x0B]

def package : Package where
  id := packageId
  abi := ⟨packageId, document, [.ofFunction water], [draw]⟩
  module := (Wasm.Module.load wasm).toOption.getD default
  entries := ["herd"]
  sources := .empty
  wasm := wasm

theorem resolve_document (parsed : PackageId.parse Well.packageId.toText = .ok Well.packageId) :
    Abi.resolve packageId document = .ok package.abi := by
  have imports : Abi.Scope.resolveImports ["water"] [] document.imports = .ok [draw] := by
    rw [document, Abi.Scope.resolveImports, if_neg (by decide), if_neg (by decide)]
    exact bind_eq_ok.2 ⟨_, mapError_eq_ok.2 parsed, rfl⟩
  refine bind_eq_ok.2 ⟨⟨packageId, document.exports, [draw]⟩, ?_, bind_eq_ok.2 ⟨_, rfl, rfl⟩⟩
  exact bind_eq_ok.2 ⟨(), rfl, bind_eq_ok.2 ⟨_, imports, rfl⟩⟩

theorem build_package : Package.build ["herd"] .empty ⟨document, wasm⟩ = .ok package := by
  have content : Package.contentId ["herd"] .empty = .ok packageId :=
    eq_ok_getD default (by decide +kernel)
  have resolved := resolve_document (by decide +kernel)
  have loaded := eq_ok_getD (x := Wasm.Module.load wasm) default (by decide +kernel)
  exact Package.build_eq_ok content resolved loaded (by decide +kernel)

/-- Both packages are registered, and nobody has signed. -/
def context : Engine.Context where
  env :=
    { config := Till.policy.config, store := .empty, compiler := Till.policy.compiler,
      verifier := Till.policy.verifier,
      registry := ⟨((∅ : Std.ExtTreeMap PackageId Package compare).insert Well.packageId
        Well.package).insert packageId package⟩ }
  txHash := default
  signers := []

theorem sound_registry : context.env.registry.Sound := by
  have well : Registry.Sound ⟨(∅ : Std.ExtTreeMap PackageId Package compare).insert Well.packageId
      Well.package⟩ :=
    Registry.sound_empty.add ⟨_, _, _, Well.build_package⟩ (Registry.add_eq_ok.2 ⟨by rfl, rfl⟩)
  refine well.add ⟨_, _, _, build_package⟩ (Registry.add_eq_ok.2 ⟨?_, rfl⟩)
  rw [← Option.isNone_iff_eq_none]
  decide +kernel

end Ledger.Herd

namespace Engine

open Ledger (Well.packageId Herd.context Herd.packageId Herd.water Herd.draw)

/-- A function that calls its first import calls the function that the other package exports. -/
theorem imports_reach_exports_draw : ∃ (c : Context) (tx : Transaction) (s : Session)
    (f : Abi.Callable), c.env.registry.Sound ∧ Within c tx s ∧
    s.import? 0 = some (0, ⟨.ofFunction, "draw", Well.packageId⟩) ∧ f.exportName = "draw" ∧
    runFrom s ((c.hostWith 100).requestFunction 0 0) =
      runFrom s ((c.hostWith 100).callFor 0 Well.packageId f 0) ∧
    (runFrom s ((c.hostWith 100).requestFunction 0 0)).1.isOk = true := by
  let tx : Transaction := ⟨[.importPackage Herd.packageId]⟩
  let s : Session := .began (.start 100 1) 0
  let t : Session := (runFrom s ((Herd.context.hostWith 100).instanceFor Herd.packageId)).2
  have began : Within Herd.context tx s := .began arrives_zero
  have started : Within Herd.context tx t :=
    .built (m := fun c => (c.hostWith 100).instanceFor Herd.packageId) began (.none s)
      (.instanceFor Herd.packageId)
  have due : Due Herd.context t.scene (.entered .function ⟨.transaction, 0⟩ Herd.water []) :=
    ⟨by rw [Scene.Admits]; decide +kernel, by decide +kernel⟩
  have entered := started.entered due
  have asked : (t.entered .function ⟨.transaction, 0⟩ Herd.water []).import? 0 =
      some (0, Herd.draw) := by decide +kernel
  obtain ⟨-, reached⟩ := imports_reach_exports Ledger.Herd.sound_registry tx
  obtain ⟨-, -, requests⟩ := reached _ entered
  obtain ⟨p, f, -, -, ⟨-, exported⟩, -, enters⟩ := (requests 100 0).2.enters 0 _ asked rfl
  exact ⟨_, tx, _, f, Ledger.Herd.sound_registry, entered, asked, exported, enters 0,
    by decide +kernel⟩

end Engine

end JigLedger
