import JigLedger.Proofs.Engine.Operations
import JigLedger.Proofs.Engine.Success
import JigLedger.Proofs.Value.Slots

/-!
# Vetted calls

Whatever enters a constructor, a method or a function has looked at the arguments before: the jigs
among them are at slots of the parameters, and each has a class that its slot accepts. From there to
the call no jig is touched and no package is started, so this is still true when the call begins.
The packages that run are those that the transaction finds: registered ones, and its own.
-/

namespace JigLedger.Engine

variable {α : Type} {c : Context} {s t : Session} {v w : Scene}

/-! ### Packages and classes -/

/-- A package that a transaction finds under an id: it is registered, or one that is deployed. -/
def Finds (c : Context) (deploys : List Package) (id : PackageId) (p : Package) : Prop :=
  c.env.registry.get? id = some p ∨ p ∈ deploys ∧ p.id = id

variable {deploys deploys' : List Package} {id : PackageId} {p : Package}

theorem Finds.mono (h : Finds c deploys id p) (more : deploys <+: deploys') :
    Finds c deploys' id p :=
  h.imp_right fun deployed => ⟨more.subset deployed.1, deployed.2⟩

/-- What is looked up is found. -/
theorem Session.finds (h : s.package? c id = some p) : Finds c s.deploys id p := by
  rw [Session.package?, Option.orElse_eq_orElse, Option.orElse_eq_or, Option.or_eq_some_iff] at h
  rcases h with deployed | ⟨-, registered⟩
  · exact .inr ⟨List.mem_of_find?_eq_some deployed, by simpa using List.find?_some deployed⟩
  · exact .inl registered

/-- The index of the jig with an origin among those touched. -/
def Scene.jigIndex? (v : Scene) (origin : Pointer) : Option Nat :=
  Session.lastIndex? (fun j : TouchedJig => j.origin = origin) v.jigs

/-- The jig with an origin has a class: it has been touched as one of this class, or its latest
output is of this class, in a package that the transaction finds. -/
inductive Scene.HasClass (v : Scene) (c : Context) (deploys : List Package) (origin : Pointer)
    (cls : Abi.Class) : Prop where
  | touched {idx : Nat} {jig : TouchedJig} {inst : PackageInstance}
      (last : v.jigIndex? origin = some idx) (there : v.jigs[idx]? = some jig)
      (home : v.instances[jig.home]? = some inst)
      (cls : inst.package.abi.classAt jig.classIdx = .ok cls)
  | stored {o : Output} {p : Package} (untouched : v.jigIndex? origin = none)
      (latest : c.env.store.byOrigin origin = some o)
      (package : Finds c deploys ⟨o.classPtr.id⟩ p)
      (cls : p.abi.classAt o.classPtr.idx.toNat = .ok cls)

/-- A slot accepts a jig: it takes any jig, or what it demands is in the conformance set of the
class of the jig. -/
def Scene.Accepts (v : Scene) (c : Context) (deploys : List Package) (demand : JigTy)
    (origin : Pointer) : Prop :=
  demand = .any ∨ ∃ cls, v.HasClass c deploys origin cls ∧ cls.conformsTo demand = true

/-- The jigs in a row of arguments are at slots of the parameters, which accept them. -/
structure Scene.Conforms (v : Scene) (c : Context) (deploys : List Package) (params : List Field)
    (args : List Value) : Prop where
  slotted : Ty.SlottedRow params args
  accepted : ∀ origin demand, (origin, demand) ∈ jigsInArgs params args →
    v.Accepts c deploys demand origin

/-- The class of a jig depends on the touched jigs and the running packages only, and it is not lost
when packages are deployed. -/
theorem Scene.HasClass.imp {origin : Pointer} {cls : Abi.Class}
    (h : v.HasClass c deploys origin cls) (jigs : w.jigs = v.jigs)
    (instances : w.instances = v.instances) (more : deploys <+: deploys') :
    w.HasClass c deploys' origin cls := by
  have index : w.jigIndex? origin = v.jigIndex? origin := by
    rw [jigIndex?, jigs, jigIndex?]
  cases h with
  | touched last there home cls =>
    exact .touched (index.trans last) (jigs ▸ there) (instances ▸ home) cls
  | stored untouched latest package cls =>
    exact .stored (index.trans untouched) latest (package.mono more) cls

theorem Scene.Conforms.imp {params : List Field} {args : List Value}
    (h : v.Conforms c deploys params args) (jigs : w.jigs = v.jigs)
    (instances : w.instances = v.instances) (more : deploys <+: deploys') :
    w.Conforms c deploys' params args where
  slotted := h.slotted
  accepted origin demand mem := (h.accepted origin demand mem).imp_right fun ⟨cls, has, conforms⟩ =>
    ⟨cls, has.imp jigs instances more, conforms⟩

/-! ### Vetted sessions -/

/-- Arguments conform when a call begins, and a package that is started is found. -/
def Vets (c : Context) (deploys : List Package) (v : Scene) : Event → Prop
  | .entered _ _ callee args => v.Conforms c deploys callee.params args
  | .started inst => ∃ id, Finds c deploys id inst.package
  | _ => True

theorem Vets.mono {e : Event} (h : Vets c deploys v e) (more : deploys <+: deploys') :
    Vets c deploys' v e := by
  cases e
  case entered => exact Scene.Conforms.imp h rfl rfl more
  case started =>
    obtain ⟨id, finds⟩ := h
    exact ⟨id, finds.mono more⟩
  all_goals trivial

/-- A session in which everything was vetted that happened, and whose packages were made by the
compiler at hand. -/
structure Vetted (c : Context) (s : Session) : Prop where
  jigs : s.scene.jigs = s.jigs
  instances : s.scene.instances = s.instances
  vets : Throughout (Vets c s.deploys) s.journal
  made : ∀ p ∈ s.deploys, p.IsMadeBy c.env.compiler

theorem vetted_start (c : Context) (fuel instructions : Nat) :
    Vetted c (.start fuel instructions) := ⟨rfl, rfl, trivial, nofun⟩

namespace Vetted

variable (vetted : Vetted c s)

include vetted

/-- An event that is vetted keeps a session vetted that it has changed accordingly. -/
theorem event {e : Event} (vets : Vets c s.deploys s.scene e)
    (journal : t.journal = e :: s.journal) (jigs : (s.scene.after e).jigs = t.jigs)
    (instances : (s.scene.after e).instances = t.instances) (deploys : t.deploys = s.deploys) :
    Vetted c t where
  jigs := by rw [Session.scene, journal]; exact jigs
  instances := by rw [Session.scene, journal]; exact instances
  vets := by rw [journal, deploys]; exact ⟨vets, vetted.vets⟩
  made := by rw [deploys]; exact vetted.made

/-- Nothing that is quiet needs to be vetted. -/
theorem quiet (h : Quiet s t) : Vetted c t where
  jigs := by rw [h.scene, vetted.jigs, h.jigs]
  instances := by rw [h.scene, vetted.instances, h.instances]
  vets := by
    obtain ⟨texts, journal⟩ := h.journal
    rw [journal, h.deploys]
    exact throughout_printed (fun _ _ _ => trivial) texts vetted.vets
  made := by rw [h.deploys]; exact vetted.made

/-- One more package is deployed. -/
theorem deployed (made : p.IsMadeBy c.env.compiler) :
    Vetted c { s with deploys := s.deploys ++ [p] } where
  jigs := vetted.jigs
  instances := vetted.instances
  vets := vetted.vets.imp fun _ _ h => h.mono (List.prefix_append _ _)
  made q mem := by
    rcases List.mem_append.1 mem with mem | mem
    · exact vetted.made q mem
    · cases List.mem_singleton.1 mem
      exact made

/-- Every package that runs is found. -/
theorem finds {inst : PackageInstance} (mem : inst ∈ s.instances) :
    ∃ id, Finds c s.deploys id inst.package := by
  have all : ∀ inst ∈ s.scene.instances, ∃ id, Finds c s.deploys id inst.package := by
    refine vetted.vets.scene (I := fun v => ∀ inst ∈ v.instances, ∃ id,
      Finds c s.deploys id inst.package) nofun fun v e found vets inst mem => ?_
    cases e
    case started new =>
      rcases List.mem_append.1 mem with mem | mem
      · exact found inst mem
      · cases List.mem_singleton.1 mem
        exact vets
    all_goals exact found inst mem
  exact all inst (vetted.instances ▸ mem)

/-! ### Arguments -/

/-- The class that is found for a jig is the one that it has. -/
theorem hasClass {origin : Pointer} {cls : Abi.Class}
    (run : runFrom s (classOf c origin) = (.ok cls, t)) :
    s.scene.HasClass c s.deploys origin cls := by
  have index : s.scene.jigIndex? origin = s.jigIndex? origin := by
    rw [Scene.jigIndex?, vetted.jigs, Session.jigIndex?]
  rw [classOf, runFrom_bind_of_ok (runFrom_get s)] at run
  rcases hi : s.jigIndex? origin with _ | idx <;> simp only [hi] at run index
  · obtain ⟨o, _, found, rest⟩ := runFrom_bind_eq_ok run
    obtain ⟨latest, rfl⟩ := runFrom_orMissing_eq_ok.1 found
    obtain ⟨p, _, packaged, resolved⟩ := runFrom_bind_eq_ok rest
    obtain ⟨known, rfl⟩ := runFrom_packageOr_eq_ok.1 packaged
    exact .stored index latest (Session.finds known) (runFrom_orPlain_eq_ok.1 resolved).1
  · obtain ⟨jig, _, looked, rest⟩ := runFrom_bind_eq_ok run
    obtain ⟨there, rfl⟩ := runFrom_jigAt_eq_ok.1 looked
    obtain ⟨inst, _, looked, resolved⟩ := runFrom_bind_eq_ok rest
    obtain ⟨home, rfl⟩ := runFrom_instanceAt_eq_ok.1 looked
    exact .touched index (vetted.jigs ▸ there) (vetted.instances ▸ home)
      (runFrom_orPlain_eq_ok.1 resolved).1

/-- A jig that conforms is accepted. -/
theorem accepts {origin : Pointer} {demand : JigTy}
    (run : runFrom s (conforms c origin demand) = (.ok true, t)) :
    s.scene.Accepts c s.deploys demand origin := by
  unfold conforms at run
  split at run
  case isTrue any => exact .inl any
  case isFalse =>
    obtain ⟨cls, _, found, returned⟩ := runFrom_bind_eq_ok run
    simp only [runFrom_pure, Prod.mk.injEq, Except.ok.injEq] at returned
    exact .inr ⟨cls, vetted.hasClass found, returned.1⟩

end Vetted

namespace ReadsOnly

theorem conforms (c : Context) (origin : Pointer) (demand : JigTy) :
    ReadsOnly (conforms c origin demand) := by
  unfold Engine.conforms
  split
  · exact pure _
  · exact (classOf c origin).bind fun _ => pure _

theorem forM {f : α → Engine PUnit} (h : ∀ a, ReadsOnly (f a)) :
    ∀ items : List α, ReadsOnly (items.forM f)
  | [] => by simpa using pure PUnit.unit
  | a :: rest => by
    simp only [List.forM_eq_forM, List.forM_cons]
    exact (h a).bind fun _ => by simpa only [List.forM_eq_forM] using forM h rest

/-- Judging a jig among the arguments. -/
theorem judge (c : Context) (origin : Pointer) (demand : JigTy) (e : ExecError) :
    ReadsOnly (do if ← Engine.conforms c origin demand then Pure.pure () else Engine.fail e) := by
  refine (conforms c origin demand).bind fun b => ?_
  split
  · exact pure _
  · exact fail _

theorem checkJigs (c : Context) (params : List Field) (values : List Value) :
    ReadsOnly (checkJigs c params values) :=
  forM (fun _ => judge c _ _ _) _

theorem guestArgs (c : Context) (home : Nat) (params : List Field) (blob : UInt32) :
    ReadsOnly (guestArgs c home params blob) :=
  (memoryOf home).bind fun _ => (orError _ _).bind fun values =>
    (checkJigs c params values).bind fun _ => pure _

theorem argValue (param : Field) (arg : Arg) : ReadsOnly (argValue param arg) := by
  unfold Engine.argValue
  cases arg
  · dsimp only
    split
    · exact fail _
    · exact orError _ _
  · refine (statementAt _).bind fun statement => ?_
    cases statement
    · exact fail _
    · exact pure _
    · exact pure _
    · exact fail _

theorem argValues : ∀ (params : List Field) (args : List Arg), ReadsOnly (argValues params args)
  | [], _ => pure _
  | _ :: _, [] => pure _
  | param :: params, arg :: args =>
    (argValue param arg).bind fun _ => (orError _ _).bind fun _ =>
      (argValues params args).bind fun _ => pure _

theorem resolveArgs (params : List Field) (args : List Arg) :
    ReadsOnly (resolveArgs params args) := by
  unfold Engine.resolveArgs
  split
  · exact argValues params args
  · exact fail _

theorem checkedArgs (c : Context) (params : List Field) (args : List Arg) :
    ReadsOnly (checkedArgs c params args) :=
  (resolveArgs params args).bind fun values => (checkJigs c params values).bind fun _ => pure _

theorem packageStatement (idx : UInt16) : ReadsOnly (packageStatement idx) := by
  refine (statementAt idx).bind fun statement => ?_
  cases statement
  case package => exact pure _
  all_goals exact fail _

theorem jigStatement (idx : UInt16) : ReadsOnly (jigStatement idx) := by
  refine (statementAt idx).bind fun statement => ?_
  cases statement
  case jig => exact pure _
  all_goals exact fail _

theorem importOfKind (p : Package) (idx : Nat) (kind : Abi.ImportKind) :
    ReadsOnly (importOfKind p idx kind) := by
  refine (orError _ _).bind fun i => ?_
  split
  · exact pure _
  · exact fail _

theorem guestAddress (home : Nat) (data : UInt32) : ReadsOnly (guestAddress home data) := by
  refine (look home _).bind fun v => ?_
  cases v
  case bytes => exact orError _ _
  all_goals exact fail _

theorem requestedLock (home : Nat) (kind data : UInt32) :
    ReadsOnly (requestedLock home kind data) := by
  unfold Engine.requestedLock
  split
  · exact fail _
  · rw [map_eq_pure_bind]
    exact (guestAddress home data).bind fun _ => pure _
  · refine get.bind fun s => ?_
    cases s.caller
    · exact fail _
    · exact pure _
  · exact pure _
  · exact pure _
  · exact fail _

end ReadsOnly

/-- A check of all items has succeeded for each of them. -/
theorem runFrom_forM_eq_ok {f : α → Engine PUnit} (reads : ∀ a, ReadsOnly (f a))
    {items : List α} (run : runFrom s (items.forM f) = (.ok ⟨⟩, t)) :
    ∀ a ∈ items, runFrom s (f a) = (.ok ⟨⟩, s) := by
  rw [List.forM_eq_forM] at run
  induction items with
  | nil => exact nofun
  | cons first items ih =>
    rw [List.forM_cons] at run
    obtain ⟨_, u, here, others⟩ := runFrom_bind_eq_ok run
    have same : u = s := (reads first).of_ok here
    rw [same] at here others
    exact List.forall_mem_cons.2 ⟨here, ih others⟩

/-- A check of all items that only looks at the session succeeds if it does so for each of them. -/
theorem runFrom_forM_iff {f : α → Engine PUnit} (reads : ∀ a, ReadsOnly (f a)) {items : List α} :
    runFrom s (items.forM f) = (.ok ⟨⟩, s) ↔ ∀ a ∈ items, runFrom s (f a) = (.ok ⟨⟩, s) := by
  refine ⟨runFrom_forM_eq_ok reads, fun each => ?_⟩
  rw [List.forM_eq_forM]
  induction items with
  | nil => rfl
  | cons first items ih =>
    obtain ⟨here, others⟩ := List.forall_mem_cons.1 each
    rw [List.forM_cons, runFrom_bind_of_ok here]
    exact ih others

/-- The values of arguments hold jigs at slots of the parameters only. -/
theorem slottedRow_of_argValues : ∀ {params : List Field} {args : List Arg} {s t : Session}
    {values : List Value}, runFrom s (argValues params args) = (.ok values, t) →
      Ty.SlottedRow params values
  | [], _, _, _, _, run => by
    cases run
    exact Ty.slottedRow_nil
  | _ :: _, [], _, _, _, run => by
    cases run
    exact Ty.slottedRow_nil
  | param :: params, arg :: args, _, _, _, run => by
    obtain ⟨v, _, -, checking⟩ := runFrom_bind_eq_ok run
    obtain ⟨_, _, checked, rest⟩ := runFrom_bind_eq_ok checking
    have shape := (runFrom_orError_eq_ok.1 checked).1
    obtain ⟨values, _, others, returned⟩ := runFrom_bind_eq_ok rest
    cases returned
    exact .cons (Ty.slotted_of_check param.ty v shape) (slottedRow_of_argValues others)

namespace Vetted

variable (vetted : Vetted c s)

include vetted

/-- Jigs that have been checked are accepted by their slots. -/
theorem conforms {params : List Field} {values : List Value} (slotted : Ty.SlottedRow params values)
    (run : runFrom s (checkJigs c params values) = (.ok (), t)) :
    s.scene.Conforms c s.deploys params values := by
  refine ⟨slotted, fun origin demand mem => ?_⟩
  have judged := runFrom_forM_eq_ok (fun _ => ReadsOnly.judge c _ _ _) run (origin, demand) mem
  obtain ⟨b, _, asked, rest⟩ := runFrom_bind_eq_ok judged
  cases b
  · cases rest
  · exact vetted.accepts asked

/-- The arguments that a guest passes conform. -/
theorem guestArgs {home : Nat} {params : List Field} {blob : UInt32} {values : List Value}
    (run : runFrom s (guestArgs c home params blob) = (.ok values, t)) :
    s.scene.Conforms c s.deploys params values := by
  obtain ⟨mem, _, looked, reading⟩ := runFrom_bind_eq_ok run
  obtain rfl := (ReadsOnly.memoryOf home).of_ok looked
  obtain ⟨found, _, result, checking⟩ := runFrom_bind_eq_ok reading
  obtain ⟨read, rfl⟩ := runFrom_orError_eq_ok.1 result
  obtain ⟨_, _, checked, returned⟩ := runFrom_bind_eq_ok checking
  cases returned
  exact vetted.conforms (Ty.slottedRow_of_readArgs read) checked

/-- The arguments that an instruction passes conform. -/
theorem checkedArgs {params : List Field} {args : List Arg} {values : List Value}
    (run : runFrom s (checkedArgs c params args) = (.ok values, t)) :
    s.scene.Conforms c s.deploys params values := by
  obtain ⟨found, _, resolved, rest⟩ := runFrom_bind_eq_ok run
  obtain rfl := (ReadsOnly.resolveArgs params args).of_ok resolved
  obtain ⟨_, _, checked, returned⟩ := runFrom_bind_eq_ok rest
  cases returned
  unfold resolveArgs at resolved
  split at resolved
  · exact vetted.conforms (slottedRow_of_argValues resolved) checked
  · cases resolved

end Vetted

end JigLedger.Engine
