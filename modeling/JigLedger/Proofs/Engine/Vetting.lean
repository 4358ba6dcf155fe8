import JigLedger.Proofs.Engine.Vetted

/-!
# Every run is vetted

All that the engine does keeps sessions vetted, however it ends. The requests and instructions that
enter a call are gone through with what their checks have seen; everything else is put together from
computations that enter none, and from running guests.
-/

namespace JigLedger.Engine

open Wasm (Val Thread)

variable {α β : Type} {c : Context} {s t u : Session}

/-- A session has been vetted, and it has gone on from another one. -/
structure Onward (c : Context) (s t : Session) : Prop where
  vetted : Vetted c t
  deploys : s.deploys <+: t.deploys

/-- A computation keeps sessions vetted, however it ends. -/
def Vetting (c : Context) (m : Engine α) : Prop := ∀ s, Vetted c s → Onward c s (runFrom s m).2

/-! ### Computations -/

namespace Onward

theorem refl (vetted : Vetted c s) : Onward c s s := ⟨vetted, List.prefix_rfl⟩

theorem trans (h : Onward c s t) (h' : Onward c t u) : Onward c s u :=
  ⟨h'.vetted, h.deploys.trans h'.deploys⟩

/-- Nothing has been deployed. -/
theorem of_eq (vetted : Vetted c t) (deploys : t.deploys = s.deploys) : Onward c s t :=
  ⟨vetted, deploys ▸ List.prefix_rfl⟩

theorem bind {m : Engine α} {f : α → Engine β} (first : Onward c s (runFrom s m).2)
    (rest : ∀ a t, runFrom s m = (.ok a, t) → Onward c s t → Onward c t (runFrom t (f a)).2) :
    Onward c s (runFrom s (m >>= f)).2 := by
  rw [runFrom_bind]
  rcases run : runFrom s m with ⟨e | a, t⟩ <;> rw [run] at first
  · exact first
  · exact first.trans (rest a t run first)

/-- A computation that only looks at the session goes on with what it has seen. -/
theorem reading {m : Engine α} {f : α → Engine β} (vetted : Vetted c s) (h : ReadsOnly m)
    (rest : ∀ a, runFrom s m = (.ok a, s) → Onward c s (runFrom s (f a)).2) :
    Onward c s (runFrom s (m >>= f)).2 := by
  have same := h s
  refine bind (same.symm ▸ refl vetted) fun a t run _ => ?_
  obtain rfl := h.of_ok run
  exact rest a run

end Onward

namespace Vetting

theorem quietly {m : Engine α} (h : Quietly m) : Vetting c m := fun s vetted =>
  .of_eq (vetted.quiet (h s)) (h s).deploys

theorem reads {m : Engine α} (h : ReadsOnly m) : Vetting c m := quietly h.quietly

theorem pure (a : α) : Vetting c (pure a) := reads (.pure a)

theorem fail (e : ExecError) : Vetting c (fail e : Engine α) := reads (.fail e)

theorem failPlain (message : String) : Vetting c (failPlain message : Engine α) :=
  reads (.failPlain message)

theorem bind {m : Engine α} {f : α → Engine β} (hm : Vetting c m) (hf : ∀ a, Vetting c (f a)) :
    Vetting c (m >>= f) := fun s vetted =>
  (hm s vetted).bind fun a t _ onward => hf a t onward.vetted

theorem reading {m : Engine α} {f : α → Engine β} (hm : ReadsOnly m) (hf : ∀ a, Vetting c (f a)) :
    Vetting c (m >>= f) := (reads hm).bind hf

theorem rethrow {m : Engine α} {g : Failure → Failure} (h : Vetting c m) :
    Vetting c (tryCatch m fun e => throw (g e)) := by
  intro s vetted
  have body := h s vetted
  rw [runFrom_tryCatch]
  rcases run : runFrom s m with ⟨e | a, t⟩ <;> rw [run] at body
  · exact body
  · exact body

/-- An event that neither touches a jig nor starts a package nor enters a call. -/
theorem note {e : Event} (vets : ∀ deploys v, Vets c deploys v e)
    (jigs : ∀ v : Scene, (v.after e).jigs = v.jigs)
    (instances : ∀ v : Scene, (v.after e).instances = v.instances) : Vetting c (note e) :=
  fun s vetted => .of_eq (t := s.record e) (vetted.event (vets _ _) rfl
    ((jigs s.scene).trans vetted.jigs) ((instances s.scene).trans vetted.instances) rfl) rfl

theorem addGuest (guest : Guest) : Vetting c (Host.addGuest guest) := fun s vetted =>
  .of_eq (t := s.launched guest)
    (vetted.event (e := .launched _) trivial rfl vetted.jigs vetted.instances rfl) rfl

theorem register (jig : TouchedJig) : Vetting c (register jig) := fun s vetted =>
  .of_eq (t := s.made jig) (vetted.event (e := .made jig) trivial rfl
    (congrArg (· ++ [jig]) vetted.jigs) vetted.instances rfl) rfl

theorem relocked (idx : Nat) (lock : Lock) :
    Vetting c (modify fun s : Session => s.relocked idx lock) := fun s vetted =>
  .of_eq (t := s.relocked idx lock) (vetted.event (e := .relocked idx lock) trivial rfl
    (congrArg (List.modify · idx _) vetted.jigs) vetted.instances rfl) rfl

theorem spent (idx : Nat) (amount : UInt64) :
    Vetting c (modify fun s : Session => s.spent idx amount) := fun s vetted =>
  .of_eq (t := s.spent idx amount) (vetted.event (e := .spent idx) trivial rfl
    (congrArg (List.modify · idx _) vetted.jigs) vetted.instances rfl) rfl

theorem popFrame : Vetting c popFrame := by
  intro s vetted
  rw [runFrom_popFrame]
  split
  · exact .refl vetted
  · exact .of_eq (t := s.left)
      (vetted.event (e := .left) trivial rfl vetted.jigs vetted.instances rfl) rfl

theorem changeLock (idx : Nat) (lock : Lock) : Vetting c (changeLock c idx lock) := by
  refine reading (.jigAt idx) fun jig => reading (.authority c) fun auth => ?_
  split
  · exact relocked idx lock
  · exact fail _

theorem pay (origin : Pointer) (idx : Nat) : Vetting c (pay c origin idx) := by
  refine reading (.jigAt idx) fun jig => reading (.classOfJig jig) fun cls => ?_
  split
  · exact fail _
  refine reading (.orMissing _ _) fun field => reading (.authority c) fun auth =>
    reading (.orError _ _) fun _ => reading (.look _ _) fun value => ?_
  cases value.asU64?
  · exact failPlain _
  dsimp only
  split
  · exact fail _
  · exact spent idx _

/-- A package that is deployed has been made by the compiler. -/
theorem deploy (h : Host) (entries : List String) (sources : Sources) :
    Vetting h.context (h.deploy entries sources) := by
  refine reading (.orPlain _ _) fun id => reading (ReadsOnly.get.bind fun _ => .pure _)
    fun known => ?_
  split
  · exact fail _
  intro s vetted
  refine .reading vetted (.orError _ _) fun artifacts compiled => ?_
  refine .reading vetted (.orError _ _) fun p built => ?_
  have made : p.IsMadeBy h.context.env.compiler := ⟨entries, sources, artifacts,
    (runFrom_orError_eq_ok.1 compiled).1, (runFrom_orError_eq_ok.1 built).1⟩
  exact ⟨vetted.deployed made, List.prefix_append _ _⟩

end Vetting

/-! ### Packages and jigs -/

/-- A package that is found is added to those that run. -/
theorem Onward.addInstance (vetted : Vetted c s) {id : PackageId} {inst : PackageInstance}
    (found : Finds c s.deploys id inst.package) :
    Onward c s (runFrom s (Host.addInstance inst)).2 :=
  .of_eq (t := s.started inst) (vetted.event (e := .started inst) ⟨id, found⟩ rfl vetted.jigs
    (congrArg (· ++ [inst]) vetted.instances) rfl) rfl

/-- A jig is touched by making it, unless it has been touched before. -/
theorem Onward.touch (vetted : Vetted c s) {origin : Pointer} {touched : Nat → Engine Nat}
    {make : Engine TouchedJig} (known : ∀ idx, Vetting c (touched idx))
    (made : ∀ t, t = s.record (.making origin) → Vetted c t → Onward c t (runFrom t make).2) :
    Onward c s (runFrom s (touch origin touched make)).2 := by
  refine .reading vetted .get fun s' looked => ?_
  cases s'.jigIndex? origin
  · refine .bind (Vetting.note (e := .making origin) (fun _ _ => trivial) (fun _ => rfl)
      (fun _ => rfl) s vetted) fun _ t noted onward => ?_
    cases noted
    exact (made _ rfl onward.vetted).bind fun jig t _ onward =>
      Vetting.register jig t onward.vetted
  · exact known _ s vetted

/-- A call whose arguments conform is entered, and left when it has come to its end. -/
theorem Onward.inFrame (vetted : Vetted c s) {entry : Entry} {frame : Frame}
    {callee : Abi.Callable} {args : List Value} {body : Engine α}
    (conforms : s.scene.Conforms c s.deploys callee.params args) (h : Vetting c body) :
    Onward c s (runFrom s (inFrame c entry frame callee args body)).2 := by
  have push : Onward c s (runFrom s (pushFrame c entry frame callee args)).2 := by
    rw [runFrom_pushFrame]
    split
    · exact .of_eq (t := s.entered entry frame callee args) (vetted.event
        (e := .entered entry frame callee args) conforms rfl vetted.jigs vetted.instances rfl) rfl
    · exact .refl vetted
  have rest : Vetting c (body >>= fun result => popFrame >>= fun _ => pure result) :=
    h.bind fun result => Vetting.popFrame.bind fun _ => .pure result
  exact push.bind fun _ t _ onward => rest t onward.vetted

section Guests

variable {h : Host}
  (invoke : ∀ guest errand thread, Vetting h.context (h.invoke guest errand thread))

include invoke

/-- A package that is found is started. -/
theorem Onward.instantiate (vetted : Vetted h.context s) {id : PackageId} {p : Package}
    (found : Finds h.context s.deploys id p) (targets : List (Option Nat)) :
    Onward h.context s (runFrom s (h.instantiate p targets)).2 := by
  have start (guest : Nat) : Vetting h.context (h.runStart p.module guest) := by
    unfold Host.runStart
    cases p.module.start
    · exact .pure _
    · exact (invoke _ _ _).bind fun _ => .pure _
  refine .bind ((Vetting.reads (.linkedGuest h p.module)).rethrow s vetted) fun guest s₁ _ on₁ => ?_
  refine .bind (Vetting.addGuest guest s₁ on₁.vetted) fun idx s₂ _ on₂ => ?_
  refine .bind ((start idx).rethrow s₂ on₂.vetted) fun _ s₃ _ on₃ => ?_
  refine .reading on₃.vetted (.allocatorOf p) fun allocator _ => ?_
  have known : Finds h.context s₃.deploys id (PackageInstance.mk p idx allocator targets).package :=
    found.mono ((on₁.trans on₂).trans on₃).deploys
  exact .addInstance on₃.vetted known

namespace Vetting

theorem instanceFor (id : PackageId) : Vetting h.context (h.instanceFor id) := by
  intro s vetted
  refine .reading vetted .get fun s' _ => ?_
  cases s'.instanceIndex? id
  · refine .reading vetted (.packageOr h.context _ id) fun p found => ?_
    refine .reading vetted (.mapM (.importTarget h.context) p.abi.imports) fun targets _ => ?_
    exact .instantiate invoke vetted (Session.finds (runFrom_packageOr_eq_ok.1 found).1) targets
  · exact pure _ s vetted

theorem invokeAt (home : Nat) (errand : Errand) (thread : PackageInstance → Thread) :
    Vetting h.context (h.invokeAt home errand thread) :=
  reading (.instanceAt home) fun _ => invoke _ _ _

theorem alloc (home : Nat) (errand : Errand) (size : UInt32) :
    Vetting h.context (h.alloc home errand size) := by
  refine (invokeAt invoke home errand _).bind fun results => reading (.resultWord results)
    fun word => ?_
  dsimp only
  split
  · exact failPlain _
  · exact reading (.look _ _) fun _ => pure _

/-- Using the memory of a package keeps sessions vetted if running its allocator does. -/
theorem heap (home : Nat) (errand : Errand) :
    OfHeap (fun _ m => Vetting h.context (m h.context)) fun _ => h.heap home errand where
  pure := pure
  bind := bind
  alloc := alloc invoke home errand
  write _ _ := quietly (Silently.writeBytes _ _ _).quietly
  fail _ := failPlain _

theorem buildObject (home : Nat) (cls : Abi.Class) (origin : Pointer) (values : List Value) :
    Vetting h.context (h.buildObject home cls origin values) := by
  have heap := heap invoke home (.object home)
  exact (heap.alloc _).bind fun address => (heap.writeOrigin _ _).bind fun _ =>
    (heap.writeRecord _ _ _).bind fun _ => pure _

theorem rehydrate (o : Output) : Vetting h.context (h.rehydrate o) :=
  reading (.orError _ _) fun _ => reading (.packageOf _ _) fun _ =>
    (instanceFor invoke _).bind fun home => reading (.instanceAt home) fun _ =>
      reading (.orError _ _) fun cls => reading (.orError _ _) fun values =>
        (buildObject invoke home cls o.origin values).bind fun _ => pure _

theorem loadLatest (origin : Pointer) {touched : Nat → Engine Nat}
    (known : ∀ idx, Vetting h.context (touched idx)) :
    Vetting h.context (h.loadLatest origin touched) := fun _ vetted =>
  .touch vetted known fun t _ vetted =>
    (reading (.latestOutput h.context origin) fun o => rehydrate invoke o) t vetted

theorem resolve (origin : Pointer) : Vetting h.context (h.resolve origin) :=
  loadLatest invoke origin pure

theorem loadByOrigin (origin : Pointer) : Vetting h.context (h.loadByOrigin origin) :=
  (loadLatest invoke origin fun _ => fail _).bind fun _ => pure _

theorem loadByLocation (location : Pointer) :
    Vetting h.context (h.loadByLocation location) := by
  refine reading (.orMissing _ _) fun o => bind (fun s vetted => ?_) fun _ => pure _
  exact .touch vetted (fun _ => fail _) fun t _ vetted => rehydrate invoke o t vetted

/-! ### Bodies of calls -/

theorem lowerArgs (home : Nat) : ∀ (fields : List Field) (values : List Value),
    Vetting h.context (h.lowerArgs home fields values)
  | [], _ => pure _
  | _ :: _, [] => pure _
  | f :: fields, v :: values =>
    ((heap invoke home .arguments).lower f.ty v).bind fun _ =>
      (lowerArgs home fields values).bind fun _ => pure _

theorem callExport (home : Nat) (name : String) (params : List Val) (hasResult : Bool) :
    Vetting h.context (h.callExport home name params hasResult) := by
  unfold Host.callExport
  refine reading (.instanceAt home) fun inst => ?_
  dsimp only
  cases inst.package.module.exportedFunc? name
  · exact failPlain _
  · dsimp only
    refine reading (.checkCall _ _ _ _) fun _ => (invokeAt invoke home .call _).bind
      fun results => ?_
    cases results
    · exact pure _
    · exact reading (.wordOf _) fun _ => pure _

theorem callConstructor (home : Nat) (cls : Abi.Class) (args : List Value) :
    Vetting h.context (h.callConstructor home cls args) :=
  (lowerArgs invoke home _ args).bind fun _ => callExport invoke home _ _ _

theorem newJig (home classIdx : Nat) (cls : Abi.Class) (origin : Pointer) (word : Option UInt64) :
    Vetting h.context (h.newJig home classIdx cls origin word) := by
  unfold Host.newJig
  dsimp only
  split
  · exact fail _
  · exact reading (.look _ _) fun _ => ((heap invoke home (.origin home)).writeOrigin _ _).bind
      fun _ => pure _

theorem callWith (home : Nat) (callee : Abi.Callable) (receiver : List Val) (args : List Value) :
    Vetting h.context (h.callWith home callee receiver args) := by
  refine (lowerArgs invoke home _ args).bind fun _ => (callExport invoke home _ _ _).bind
    fun word => ?_
  cases callee.result <;> cases word
  case some.some => exact reading (.look _ _) fun _ => pure _
  all_goals exact pure _

end Vetting

/-! ### Calls -/

/-- A jig is constructed with arguments that conform to the parameters of the constructor. -/
theorem Onward.construct (vetted : Vetted h.context s) {home classIdx : Nat} {args : List Value}
    (conforms : ∀ (inst : PackageInstance) (cls : Abi.Class), s.instances[home]? = some inst →
      inst.package.abi.classAt classIdx = .ok cls →
        s.scene.Conforms h.context s.deploys cls.constructor.params args) :
    Onward h.context s (runFrom s (h.construct home classIdx args)).2 := by
  refine .reading vetted (.instanceAt home) fun inst looked => ?_
  refine .reading vetted (.orPlain _ _) fun cls resolved => ?_
  have conforms := conforms inst cls (runFrom_instanceAt_eq_ok.1 looked).1
    (runFrom_orPlain_eq_ok.1 resolved).1
  refine .bind (Vetting.quietly (.newOrigin h) s vetted) fun origin t run onward => ?_
  have quiet : Quiet s t := by
    have quiet := Quietly.newOrigin h s
    rwa [run] at quiet
  refine .touch onward.vetted (fun _ => .fail _) ?_
  rintro _ rfl vetted
  -- Neither taking an origin nor noting it changes what the arguments conform to.
  have scene : (t.record (.making origin)).scene = s.scene.after (.making origin) :=
    congrArg (·.after (.making origin)) quiet.scene
  have now : (t.record (.making origin)).scene.Conforms h.context t.deploys
      cls.constructor.params args :=
    conforms.imp (by rw [scene]; rfl) (by rw [scene]; rfl) onward.deploys
  exact (Onward.inFrame vetted now (.callConstructor invoke home cls args)).bind
    fun word u _ onward => Vetting.newJig invoke home classIdx cls origin word u onward.vetted

/-- A method is called with arguments that conform to its parameters. -/
theorem Onward.callMethod (vetted : Vetted h.context s) {idx : Nat} {method : Abi.Callable}
    {args : List Value} (conforms : s.scene.Conforms h.context s.deploys method.params args) :
    Onward h.context s (runFrom s (h.callMethod idx method args)).2 := by
  refine .reading vetted (.jigAt idx) fun jig _ => .reading vetted (.authority h.context)
    fun auth _ => ?_
  split
  · exact .inFrame vetted conforms (.callWith invoke _ method _ args)
  · exact Vetting.fail _ s vetted

/-- A function is called with arguments that conform to its parameters. -/
theorem Onward.callFunction (vetted : Vetted h.context s) {home : Nat} {function : Abi.Callable}
    {args : List Value} (conforms : s.scene.Conforms h.context s.deploys function.params args) :
    Onward h.context s (runFrom s (h.callFunction home function args)).2 :=
  .reading vetted .get fun _ _ => .inFrame vetted conforms (.callWith invoke home function [] args)

namespace Vetting

/-! ### Requests -/

theorem returnWord (home : Nat) (result : Option Ty) (value : Option Value) :
    Vetting h.context (h.returnWord home result value) := by
  cases result <;> cases value
  case some.some t v => exact (heap invoke home .answer).lower t v
  all_goals exact pure _

theorem proxy (home : Nat) (origin : Pointer) : Vetting h.context (h.proxy home origin) :=
  (heap invoke home .answer).allocValue _ _

theorem importedExport (home : Nat) (idx : UInt32) (kind : Abi.ImportKind) :
    Vetting h.context (h.importedExport home idx kind) :=
  reading (.instanceAt home) fun _ => reading (.importOfKind _ _ _) fun _ =>
    reading (.orMissing _ _) fun _ => (instanceFor invoke _).bind fun _ => pure _

theorem constructorLocal (classIdx args : UInt32) :
    Vetting h.context (h.constructorLocal classIdx args) := by
  refine reading .callingHome fun home s vetted => ?_
  refine .reading vetted (.instanceAt home) fun inst looked => ?_
  refine .reading vetted (.orError _ _) fun cls resolved => ?_
  refine .reading vetted (.guestArgs h.context home _ args) fun values read => ?_
  refine .bind (.construct invoke vetted fun inst' cls' looked' resolved' => ?_)
    fun idx t _ onward => (reading (.jigAt idx) fun _ => pure _) t onward.vetted
  obtain rfl : inst = inst' :=
    Option.some.inj ((runFrom_instanceAt_eq_ok.1 looked).1.symm.trans looked')
  obtain rfl : cls = cls' :=
    Except.ok.inj ((runFrom_orError_eq_ok.1 resolved).1.symm.trans resolved')
  exact vetted.guestArgs read

theorem constructorRemote (importIdx args : UInt32) :
    Vetting h.context (h.constructorRemote importIdx args) := by
  refine reading .callingHome fun home => (importedExport invoke home _ _).bind
    fun (target, exportIdx) s vetted => ?_
  refine .reading vetted (.instanceAt target) fun inst looked => ?_
  refine .reading vetted (.orPlain _ _) fun cls resolved => ?_
  refine .reading vetted (.guestArgs h.context home _ args) fun values read => ?_
  refine .bind (.construct invoke vetted fun inst' cls' looked' resolved' => ?_)
    fun idx t _ onward =>
      (reading (.jigAt idx) fun _ => proxy invoke home _) t onward.vetted
  obtain rfl : inst = inst' :=
    Option.some.inj ((runFrom_instanceAt_eq_ok.1 looked).1.symm.trans looked')
  obtain rfl : cls = cls' :=
    Except.ok.inj ((runFrom_orPlain_eq_ok.1 resolved).1.symm.trans resolved')
  exact vetted.guestArgs read

theorem requestMethod (jig methodIdx args : UInt32) :
    Vetting h.context (h.requestMethod jig methodIdx args) := by
  refine reading .callingHome fun home => reading (.guestJig home jig) fun origin =>
    (resolve invoke origin).bind fun idx => reading (.jigAt idx) fun touched =>
      reading (.classOfJig touched) fun cls => reading (.orMissing _ _) fun method s vetted => ?_
  refine .reading vetted (.guestArgs h.context home _ args) fun values read => ?_
  exact (Onward.callMethod invoke vetted (vetted.guestArgs read)).bind fun _ t _ onward =>
    returnWord invoke home _ _ t onward.vetted

theorem requestFunction (importIdx args : UInt32) :
    Vetting h.context (h.requestFunction importIdx args) := by
  refine reading .callingHome fun home => (importedExport invoke home _ _).bind
    fun (target, exportIdx) => reading (.instanceAt target) fun inst =>
      reading (.orPlain _ _) fun function s vetted => ?_
  refine .reading vetted (.guestArgs h.context home _ args) fun values read => ?_
  exact (Onward.callFunction invoke vetted (vetted.guestArgs read)).bind fun _ t _ onward =>
    returnWord invoke home _ _ t onward.vetted

theorem getProp (jig fieldIdx : UInt32) : Vetting h.context (h.getProp jig fieldIdx) :=
  reading .callingHome fun home => reading (.guestJig home jig) fun origin =>
    (resolve invoke origin).bind fun idx => reading (.jigAt idx) fun _ =>
      reading (.classOfJig _) fun _ => reading (.orMissing _ _) fun _ => reading (.look _ _)
        fun _ => returnWord invoke home _ _

theorem jigLock (jig kind data : UInt32) : Vetting h.context (h.jigLock jig kind data) :=
  reading .callingHome fun home => reading (.guestJig home jig) fun origin =>
    reading (.requestedLock home kind data) fun lock => (resolve invoke origin).bind fun idx =>
      changeLock idx lock

theorem jigAuthCheck (jig check : UInt32) : Vetting h.context (h.jigAuthCheck jig check) := by
  refine reading .callingHome fun home => reading (.guestJig home jig) fun origin =>
    (resolve invoke origin).bind fun idx => reading (.jigAt idx) fun touched =>
      reading (.authority h.context) fun auth => ?_
  split
  · exact pure _
  · exact pure _
  · exact fail _

theorem callerOrigin : Vetting h.context h.callerOrigin := by
  refine reading .callingHome fun home => reading .get fun s => ?_
  cases s.outerCaller
  · exact pure _
  · exact proxy invoke home _

omit invoke in
theorem abort (message : UInt32) : Vetting c (Host.abort message : Engine α) := by
  refine reading .callingHome fun home => reading
    ((ReadsOnly.guestText home message).tryCatch fun _ => .pure _) fun text => reading .get
      fun s => ?_
  cases s.caller
  · exact fail _
  · exact fail _

section Words

variable {γ : Type}

omit invoke in
theorem withoutWords {f : Engine γ} (hf : Vetting c f) (args : List Val) :
    Vetting c (withoutWords f args) := by
  unfold Engine.withoutWords
  split
  · exact hf
  · exact fail _

omit invoke in
theorem withWord {f : UInt32 → Engine γ} (hf : ∀ a, Vetting c (f a)) (args : List Val) :
    Vetting c (withWord f args) := by
  unfold Engine.withWord
  split
  · exact hf _
  · exact fail _

omit invoke in
theorem withTwoWords {f : UInt32 → UInt32 → Engine γ} (hf : ∀ a b, Vetting c (f a b))
    (args : List Val) : Vetting c (withTwoWords f args) := by
  unfold Engine.withTwoWords
  split
  · exact hf _ _
  · exact fail _

omit invoke in
theorem withThreeWords {f : UInt32 → UInt32 → UInt32 → Engine γ}
    (hf : ∀ a b d, Vetting c (f a b d)) (args : List Val) : Vetting c (withThreeWords f args) := by
  unfold Engine.withThreeWords
  split
  · exact hf _ _ _
  · exact fail _

end Words

/-- Whatever a guest asks for, the answer keeps sessions vetted. -/
theorem answer (function : HostImport) (args : List Val) :
    Vetting h.context (h.answer function args) := by
  cases function
  case constructorLocal =>
    exact withTwoWords (fun _ _ => (constructorLocal invoke _ _).bind fun _ => pure _) args
  case constructorRemote =>
    exact withTwoWords (fun _ _ => (constructorRemote invoke _ _).bind fun _ => pure _) args
  case callMethod =>
    exact withThreeWords (fun _ _ _ => (requestMethod invoke _ _ _).bind fun _ => pure _) args
  case callFunction =>
    exact withTwoWords (fun _ _ => (requestFunction invoke _ _).bind fun _ => pure _) args
  case getProp => exact withTwoWords (fun _ _ => (getProp invoke _ _).bind fun _ => pure _) args
  case jigLock =>
    exact withThreeWords (fun _ _ _ => (jigLock invoke _ _ _).bind fun _ => pure _) args
  case jigAuthCheck =>
    exact withTwoWords (fun _ _ => (jigAuthCheck invoke _ _).bind fun _ => pure _) args
  case callerOrigin => exact withoutWords ((callerOrigin invoke).bind fun _ => pure _) args
  case abort => exact withWord (fun _ => abort _) args
  case debugStr =>
    exact withWord (fun _ => (quietly (Silently.debugStr h _).quietly).bind fun _ => pure _) args

/-! ### Instructions -/

theorem new (package classIdx : UInt16) (args : List Arg) :
    Vetting h.context (h.new package classIdx args) := by
  refine reading (.packageStatement package) fun id => (instanceFor invoke id).bind
    fun home s vetted => ?_
  refine .reading vetted (.instanceAt home) fun inst looked => ?_
  refine .reading vetted (.orError _ _) fun cls resolved => ?_
  refine .reading vetted (.checkedArgs h.context _ args) fun values checked => ?_
  refine .bind (.construct invoke vetted fun inst' cls' looked' resolved' => ?_)
    fun idx t _ onward => (reading (.jigAt idx) fun _ => pure _) t onward.vetted
  obtain rfl : inst = inst' :=
    Option.some.inj ((runFrom_instanceAt_eq_ok.1 looked).1.symm.trans looked')
  obtain rfl : cls = cls' :=
    Except.ok.inj ((runFrom_orError_eq_ok.1 resolved).1.symm.trans resolved')
  exact vetted.checkedArgs checked

theorem exec (jig methodIdx : UInt16) (args : List Arg) :
    Vetting h.context (h.exec jig methodIdx args) := by
  refine reading (.jigStatement jig) fun origin => (resolve invoke origin).bind fun idx =>
    reading (.jigAt idx) fun touched => reading (.classOfJig touched) fun cls =>
      reading (.orMissing _ _) fun method s vetted => ?_
  refine .reading vetted (.checkedArgs h.context _ args) fun values checked => ?_
  exact (Onward.callMethod invoke vetted (vetted.checkedArgs checked)).bind fun _ t _ onward =>
    pure _ t onward.vetted

theorem execFunction (package functionIdx : UInt16) (args : List Arg) :
    Vetting h.context (h.execFunction package functionIdx args) := by
  refine reading (.packageStatement package) fun id => (instanceFor invoke id).bind fun home =>
    reading (.instanceAt home) fun inst => reading (.orError _ _) fun function s vetted => ?_
  refine .reading vetted (.checkedArgs h.context _ args) fun values checked => ?_
  exact (Onward.callFunction invoke vetted (vetted.checkedArgs checked)).bind fun _ t _ onward =>
    pure _ t onward.vetted

theorem fund (coin : UInt16) : Vetting h.context (h.fund coin) :=
  reading (.jigStatement coin) fun origin => (resolve invoke origin).bind fun idx => pay origin idx

theorem lock (jig : UInt16) (spec : LockSpec) : Vetting h.context (h.lock jig spec) :=
  reading (.jigStatement jig) fun origin => (resolve invoke origin).bind fun idx =>
    reading (.orError _ _) fun lock => changeLock idx lock

theorem perform (i : Instruction) : Vetting h.context (h.perform i) := by
  cases i
  case importPackage id => exact (instanceFor invoke id).bind fun _ => pure _
  case load location => exact (loadByLocation invoke location).bind fun _ => pure _
  case loadByOrigin origin => exact (loadByOrigin invoke origin).bind fun _ => pure _
  case new => exact (new invoke _ _ _).bind fun _ => pure _
  case exec => exact exec invoke _ _ _
  case execFunction => exact execFunction invoke _ _ _
  case fund coin => exact (fund invoke coin).bind fun _ => pure _
  case lock => exact (lock invoke _ _).bind fun _ => pure _
  case deploy => exact (deploy h _ _).bind fun _ => pure _
  case sign => exact pure _
  case signTo => exact pure _

/-- Whatever a transaction asks for, the instruction keeps sessions vetted. -/
theorem instruction (i : Instruction) : Vetting h.context (h.instruction i) := by
  refine reading .get fun s => ?_
  split
  · exact fail _
  · exact perform invoke i

end Vetting

end Guests

/-! ### Runs -/

namespace Vetting

/-- Noting an errand around a run keeps sessions vetted. -/
theorem onErrand {f : Nat → Thread → Engine (List Val)}
    (hf : ∀ guest thread, Vetting c (f guest thread)) (guest : Nat) (errand : Errand)
    (thread : Thread) : Vetting c (onErrand f guest errand thread) :=
  (note (e := .invoked guest errand) (fun _ _ => trivial) (fun _ => rfl) fun _ => rfl).bind
    fun _ => (hf guest thread).bind fun results =>
      (note (e := .finished) (fun _ _ => trivial) (fun _ => rfl) fun _ => rfl).bind
        fun _ => pure results

/-- Running a guest keeps sessions vetted, whatever it asks for. -/
theorem run : ∀ (room guest : Nat) (thread : Thread), Vetting c (run c room guest thread)
  | 0, _, _ => reads (.throw _)
  | room + 1, guest, thread => by
    refine (quietly Silently.burn.quietly).bind fun _ => reading (.guestAt guest) fun found => ?_
    dsimp only
    cases found.machine.step thread with
    | running machine thread =>
      exact (quietly (Silently.setMachine guest machine).quietly).bind fun _ =>
        run room guest thread
    | finished results => exact pure _
    | trapped trap => exact reads (.throw _)
    | stuck => exact fail _
    | waiting function args thread =>
      dsimp only
      cases found.links[function]? with
      | none => exact fail _
      | some function =>
        -- The answer may run guests in its turn, with what is left of the room.
        have answered : Vetting c (Host.answer ⟨c, Engine.onErrand (Engine.run c room)⟩ function
            args.reverse) :=
          answer (h := ⟨c, Engine.onErrand (Engine.run c room)⟩) (onErrand (run room)) function _
        have noted (top : Option Frame) :
            Vetting c (Engine.note (.requested guest function top)) :=
          note (fun _ _ => trivial) (fun _ => rfl) fun _ => rfl
        have request := reading .get fun s : Session => (noted s.frames.head?).bind
          fun _ => answered
        exact request.bind fun results => run room guest _

theorem step (idx : Nat) (i : Instruction) : Vetting c (step (host c) idx i) := by
  have began : Vetting c (modify (·.began idx)) := fun s vetted =>
    .of_eq (t := s.began idx)
      (vetted.event (e := .began idx) trivial rfl vetted.jigs vetted.instances rfl) rfl
  have noted (statement : Statement) : Quietly (modify fun s : Session =>
      { s with statements := s.statements ++ [statement] }) :=
    .modify fun _ => ⟨rfl, rfl, rfl, rfl, rfl, rfl, rfl, [], rfl⟩
  have performed : Vetting c ((host c).instruction i) :=
    instruction (h := host c) (onErrand (run _)) i
  exact reading .get fun _ => began.bind fun _ => performed.bind fun statement =>
    (quietly (noted statement)).bind fun _ => reading .get fun _ => pure _

theorem steps : ∀ (instructions : List Instruction) (idx : Nat),
    Vetting c (steps (host c) idx instructions)
  | [], _ => pure _
  | i :: rest, idx =>
    (step idx i).rethrow.bind fun _ => (steps rest (idx + 1)).bind fun _ => pure _

end Vetting

/-- Every run of a transaction is vetted, whether it succeeds or fails. -/
theorem vetted_runTransaction (c : Context) (tx : Transaction) :
    Vetted c (runTransaction c tx).2 := by
  have run : Vetting c (transact c tx) := (Vetting.steps tx.instructions 0).bind fun _ =>
    (Vetting.quietly (.finalize c)).bind fun _ => .reading .get fun _ => .pure _
  exact (run _ (vetted_start c c.env.config.fuelLimit tx.size)).vetted

theorem vetted_of_run {tx : Transaction} {result : Except Failure ExecutionResult} {s : Session}
    (run : runTransaction c tx = (result, s)) : Vetted c s := by
  have vetted := vetted_runTransaction c tx
  rwa [run] at vetted

end JigLedger.Engine
