import JigLedger.Proofs.Engine.Opening
import JigLedger.Proofs.Engine.Signatures
import JigLedger.Proofs.Ledger.Conformance

/-!
# Jigs among results

What a method or a function gives, or a field of a jig, is read from the memory of the package that
declares it, at the declared type, and it is passed on to whoever has asked. So the jigs in it are
at slots of the type. The demands of the slots are those that arguments are checked against; nobody
checks results against them. Such a check would let a result pass, in the session in which it is
passed on, exactly if all of its slots accept their jigs.
-/

namespace JigLedger

namespace Engine

variable {α : Type} {c : Context} {room : Nat} {s t u : Session} {origin : Pointer}
  {demand : JigTy}

/-! ### Judging jigs -/

/-- There is one package at most under an id. -/
theorem Lawful.package?_of_finds (lawful : Lawful c s) {id : PackageId} {p : Package}
    (finds : Finds c s.deploys id p) : s.package? c id = some p := by
  obtain registered | ⟨mem, rfl⟩ := finds
  · exact lawful.package?_eq registered
  · -- Deployed packages are looked through first, and no two of them have one id.
    have found : s.deploys.find? (fun q => decide (q.id = p.id)) = some p := by
      rcases hf : s.deploys.find? (fun q => decide (q.id = p.id)) with _ | q
      · exact absurd (decide_eq_true rfl) (List.find?_eq_none.1 hf p mem)
      · have same : q.id = p.id := by simpa using List.find?_some hf
        rw [hf, List.inj_on_of_nodup_map lawful.deploys.nodup
          (List.mem_of_find?_eq_some hf) mem same]
    rw [Session.package?, found]
    rfl

/-- Only what was due has happened in a session, and all of it was vetted. -/
structure Regular (c : Context) (s : Session) : Prop where
  lawful : Lawful c s
  vetted : Vetted c s

namespace Regular

/-- Whatever instruction of a transaction begins, it begins in such a session. -/
theorem of_arrives {tx : Transaction} {idx : Nat} (arrives : Arrives c tx idx s) :
    Regular c (s.began idx) := by
  obtain ⟨fuels, run⟩ := arrives
  obtain ⟨lawful, idle, -⟩ := after_steps (lawful_start c _ _) (idle_start _ _) run
  have due : Due c s.scene (.began idx) :=
    ⟨idle.frames, idle.making, idle.starting, idle.running⟩
  have vetted : Vetted c s := by
    have after := Vetting.steps (tx.instructions.take idx) 0 _
      (vetted_start c c.env.config.fuelLimit tx.size)
    rw [run] at after
    exact after.vetted
  exact ⟨lawful.began due,
    vetted.event (e := .began idx) trivial rfl vetted.jigs vetted.instances rfl⟩

variable (regular : Regular c s)

include regular

/-- A jig is judged by the class that it has. -/
theorem runFrom_classOf {cls : Abi.Class} (has : s.scene.HasClass c s.deploys origin cls) :
    runFrom s (classOf c origin) = (.ok cls, s) := by
  have index : s.scene.jigIndex? origin = s.jigIndex? origin := by
    rw [Scene.jigIndex?, regular.vetted.jigs, Session.jigIndex?]
  cases has with
  | touched last there home cls =>
    rw [runFrom_classOf_touched (index.symm.trans last) (regular.vetted.jigs ▸ there)
      (regular.vetted.instances ▸ home), cls]
    rfl
  | stored untouched latest package cls =>
    rw [runFrom_classOf_stored (index.symm.trans untouched) latest (regular.lawful.package?_of_finds package),
      cls]
    rfl

/-- A slot accepts a jig if and only if the jig conforms to its demand. -/
theorem accepts_iff : s.scene.Accepts c s.deploys demand origin ↔
    runFrom s (conforms c origin demand) = (.ok true, s) := by
  refine ⟨fun accepts => ?_, regular.vetted.accepts⟩
  unfold conforms
  split
  case isTrue => rfl
  case isFalse demanding =>
    obtain ⟨cls, has, conforms⟩ := accepts.resolve_left demanding
    rw [runFrom_bind_of_ok (regular.runFrom_classOf has), conforms]
    rfl

/-- Jigs in a value of a type pass a check if and only if the slots that they are at accept them. -/
theorem checkJigs_iff {name : String} {ty : Ty} {v : Value} :
    (∀ path origin demand, ty.Slot v path origin demand →
      s.scene.Accepts c s.deploys demand origin) ↔
    runFrom s (checkJigs c [⟨name, ty, 0⟩] [v]) = (.ok (), s) := by
  have items : jigsInArgs [⟨name, ty, 0⟩] [v] = ty.jigsIn v := by
    simp [jigsInArgs, Ty.jigsInFields]
  rw [checkJigs, items, runFrom_forM_iff fun _ => .judge c _ _ _]
  constructor
  · rintro accepted ⟨origin, demand⟩ mem
    obtain ⟨path, slot⟩ := Ty.exists_slot ty v mem
    rw [runFrom_bind_of_ok (regular.accepts_iff.1 (accepted path origin demand slot))]
    rfl
  · intro passes path origin demand slot
    obtain ⟨b, _, asked, rest⟩ := runFrom_bind_eq_ok (passes (origin, demand) slot.mem_jigsIn)
    cases b
    · cases rest
    · exact regular.vetted.accepts asked

/-- What is built goes from one such session to another, if it vets what it starts and calls. -/
theorem of_built {m : Context → Engine α} {a : α}
    (built : Built (fun c => onErrand (run c room)) none m)
    (onward : Onward c s (runFrom s (m c)).2) (run : runFrom s (m c) = (.ok a, t)) :
    Regular c t := by
  obtain ⟨lawful, -, -⟩ := (built.safe (isSafe_onErrand (fun _ => room) (Safe.run room)) s
    regular.lawful (.none s)).of_ok run
  rw [run] at onward
  exact ⟨lawful, onward.vetted⟩

end Regular

/-! ### Results -/

/-- A value of a type is read from the memory of a package that runs: a word stands for it, or it
is in place. -/
def Session.Reads (s : Session) (ty : Ty) (v : Value) : Prop :=
  ∃ inst guest, inst ∈ s.instances ∧ s.guests[inst.guest]? = some guest ∧
    ((∃ word, ty.lift guest.machine.memory word = .ok v) ∨
      ∃ address, ty.readValue guest.machine.memory address = .ok v)

/-- A value of a type is there to be passed on. All jigs in it are at slots of the type. The slots
accept them exactly if the value would pass the check that arguments have to pass. -/
structure Comes (c : Context) (s : Session) (ty : Ty) (v : Value) : Prop where
  reads : s.Reads ty v
  slotted : ty.Slotted v
  accepted_iff : (∀ path origin demand, ty.Slot v path origin demand →
      s.scene.Accepts c s.deploys demand origin) ↔
    runFrom s (checkJigs c [⟨"result", ty, 0⟩] [v]) = (.ok (), s)

/-- If a result has come back that is a value, it is there to be passed on at the type of the
result. -/
def Delivers (c : Context) (s : Session) (result : Option Ty) (value : Option Value) : Prop :=
  ∀ v, value = some v → ∃ ty, result = some ty ∧ Comes c s ty v

/-- A value that is read at a type holds jigs at its slots only. -/
theorem Session.Reads.slotted {ty : Ty} {v : Value} (reads : s.Reads ty v) : ty.Slotted v := by
  obtain ⟨_, guest, -, -, ⟨word, read⟩ | ⟨address, read⟩⟩ := reads
  · exact Ty.slotted_of_lift read
  · exact Ty.slotted_of_readSlot (Ty.slotted_of_readPointee _ ty) read

theorem Session.Reads.comes {ty : Ty} {v : Value} (reads : s.Reads ty v) (regular : Regular c s) :
    Comes c s ty v :=
  ⟨reads, reads.slotted, regular.checkJigs_iff⟩

/-- What is looked at successfully is the memory of a package that runs. -/
theorem exists_of_look {home : Nat} {f : LinearMemory → Except MemoryError α} {a : α}
    (run : runFrom s (look home f) = (.ok a, t)) : t = s ∧ ∃ inst guest, inst ∈ s.instances ∧
      s.guests[inst.guest]? = some guest ∧ f guest.machine.memory = .ok a := by
  obtain ⟨rfl, inst, guest, there, here, read⟩ := runFrom_look_eq_ok run
  exact ⟨rfl, inst, guest, List.mem_of_getElem? there, here, read⟩

/-- The value of a call has been read at the declared type of its result. -/
theorem runFrom_callWith_eq_ok {h : Host} {home : Nat} {callee : Abi.Callable}
    {receiver : List Wasm.Val} {args : List Value} {v : Value}
    (run : runFrom s (h.callWith home callee receiver args) = (.ok (some v), t)) :
    ∃ ty, callee.result = some ty ∧ t.Reads ty v := by
  obtain ⟨params, _, -, calling⟩ := runFrom_bind_eq_ok run
  obtain ⟨word, u, -, lifting⟩ := runFrom_bind_eq_ok calling
  rcases hr : callee.result with _ | ty <;> rcases word with _ | word <;>
    simp only [hr, Host.liftResult] at lifting
  case some.some =>
    obtain ⟨w, _, looked, returned⟩ := runFrom_bind_eq_ok lifting
    cases returned
    obtain ⟨rfl, inst, guest, there, here, read⟩ := exists_of_look looked
    exact ⟨ty, rfl, inst, guest, there, here, .inl ⟨word, read⟩⟩
  all_goals cases lifting

/-- The value of a call in a frame is still there when the frame is not. -/
theorem reads_of_inFrame {h : Host} {home : Nat} {callee : Abi.Callable}
    {receiver : List Wasm.Val} {args : List Value} {entry : Entry} {frame : Frame} {v : Value}
    (run : runFrom s (inFrame c entry frame callee args (h.callWith home callee receiver args)) =
      (.ok (some v), t)) : ∃ ty, callee.result = some ty ∧ t.Reads ty v := by
  obtain ⟨u, ran, rfl⟩ := runFrom_inFrame_eq_ok run
  obtain ⟨ty, result, reads⟩ := runFrom_callWith_eq_ok ran
  exact ⟨ty, result, reads⟩

theorem reads_of_callMethod {h : Host} {idx : Nat} {method : Abi.Callable} {args : List Value}
    {v : Value} (run : runFrom s (h.callMethod idx method args) = (.ok (some v), t)) :
    ∃ ty, method.result = some ty ∧ t.Reads ty v := by
  obtain ⟨jig, _, looked, asking⟩ := runFrom_bind_eq_ok run
  obtain ⟨-, rfl⟩ := runFrom_jigAt_eq_ok.1 looked
  obtain ⟨auth, _, seen, calling⟩ := runFrom_bind_eq_ok asking
  cases seen
  split at calling
  · exact reads_of_inFrame calling
  · cases calling

theorem reads_of_callFunction {h : Host} {home : Nat} {function : Abi.Callable}
    {args : List Value} {v : Value}
    (run : runFrom s (h.callFunction home function args) = (.ok (some v), t)) :
    ∃ ty, function.result = some ty ∧ t.Reads ty v := by
  obtain ⟨_, _, looked, calling⟩ := runFrom_bind_eq_ok run
  cases looked
  exact reads_of_inFrame calling

/-! ### Requests and instructions -/

/-- The host of a transaction that runs guests with so much room. -/
def Context.hostWith (c : Context) (room : Nat) : Host := ⟨c, onErrand (run c room)⟩

theorem Vetting.invoke (c : Context) (room guest : Nat) (errand : Errand) (thread : Wasm.Thread) :
    Vetting c ((c.hostWith room).invoke guest errand thread) :=
  .onErrand (.run room) guest errand thread

/-- The package of the top frame makes a request. -/
theorem runFrom_callingHome_eq_ok {home : Nat} (run : runFrom s callingHome = (.ok home, t)) :
    s.frames.head?.map (·.home) = some home ∧ t = s := by
  obtain rfl := ReadsOnly.callingHome.of_ok run
  rw [callingHome, runFrom_bind_of_ok (runFrom_get t)] at run
  rcases hf : t.frames with _ | ⟨frame, below⟩ <;> rw [hf] at run <;> cases run
  exact ⟨rfl, rfl⟩

/-! ### What is declared -/

/-- The class of the jig that is found, which is loaded if it has not been touched. -/
def Host.classFound (h : Host) (find : Engine Pointer) : Engine Abi.Class := do
  Host.classOfJig (← jigAt (← h.resolve (← find)))

/-- The class of the jig that is found has a method with this index and this result. -/
def DeclaresMethod (h : Host) (find : Engine Pointer) (idx : Nat) (s : Session)
    (result : Option Ty) : Prop :=
  ∃ cls t method, runFrom s (h.classFound find) = (.ok cls, t) ∧
    cls.method? idx = some method ∧ method.result = result

/-- The class of the jig that is found has a field with this index and this type. -/
def DeclaresField (h : Host) (find : Engine Pointer) (idx : Nat) (s : Session)
    (result : Option Ty) : Prop :=
  ∃ cls t field, runFrom s (h.classFound find) = (.ok cls, t) ∧
    cls.fields[idx]? = some field ∧ some field.ty = result

/-- The package that is found has a function with this result at the index that is found. -/
def DeclaresFunction (find : Engine (Nat × Nat)) (s : Session) (result : Option Ty) : Prop :=
  ∃ home idx t inst function, runFrom s find = (.ok (home, idx), t) ∧
    t.instances[home]? = some inst ∧ inst.package.abi.functionAt idx = .ok function ∧
    function.result = result

/-- The jig whose record is at an address in the memory of the package that makes a request. -/
def askedJig (address : UInt32) : Engine Pointer := do
  guestJig (← callingHome) address

/-- The function that is imported by the package that makes a request. -/
def Host.askedFunction (h : Host) (importIdx : UInt32) : Engine (Nat × Nat) := do
  h.importedExport (← callingHome) importIdx .ofFunction

/-- The function with an index of the package of a statement. -/
def Host.calledFunction (h : Host) (packageIdx functionIdx : UInt16) : Engine (Nat × Nat) := do
  return (← h.instanceFor (← packageStatement packageIdx), functionIdx.toNat)

theorem runFrom_classFound {h : Host} {find : Engine Pointer} {idx : Nat} {jig : TouchedJig}
    {cls : Abi.Class} (found : runFrom s find = (.ok origin, s))
    (resolved : runFrom s (h.resolve origin) = (.ok idx, t))
    (looked : runFrom t (jigAt idx) = (.ok jig, t))
    (classed : runFrom t (Host.classOfJig jig) = (.ok cls, t)) :
    runFrom s (h.classFound find) = (.ok cls, t) := by
  rw [Host.classFound, runFrom_bind_of_ok found, runFrom_bind_of_ok resolved,
    runFrom_bind_of_ok looked, classed]

/-- A request is answered with a word for the package that makes it: a result has come back as it is
declared, and it is written to the memory of that package. -/
def Answered (c : Context) (room : Nat) (declares : Option Ty → Prop) (s : Session)
    (word : UInt64) (t : Session) : Prop :=
  ∃ home result value u, s.frames.head?.map (·.home) = some home ∧ declares result ∧
    Delivers c u result value ∧
    runFrom u ((c.hostWith room).returnWord home result value) = (.ok word, t)

/-- An instruction gives the statement for a result that has come back as it is declared. -/
def Stated (c : Context) (declares : Option Ty → Prop) (statement : Statement)
    (t : Session) : Prop :=
  ∃ result value, declares result ∧ Delivers c t result value ∧
    statement = .ofResult result value

/-- A statement names a jig if and only if the jig is the value. -/
theorem ofResult_eq_jig {result : Option Ty} {value : Option Value} :
    Statement.ofResult result value = .jig origin ↔ value = some (.jig origin) := by
  unfold Statement.ofResult
  split
  case h_1 jig => simp
  case h_2 ty v other => simpa using other origin
  case h_3 other none => exact ⟨nofun, fun same => (other origin same).elim⟩

namespace Regular

variable (regular : Regular c s)

include regular

/-- A method that is called with arguments that conform delivers its result. -/
theorem delivers_callMethod {idx : Nat} {method : Abi.Callable} {args : List Value}
    {value : Option Value} (conforms : s.scene.Conforms c s.deploys method.params args)
    (run : runFrom s ((c.hostWith room).callMethod idx method args) = (.ok value, t)) :
    Delivers c t method.result value := by
  have regular' : Regular c t :=
    regular.of_built (m := fun c => (c.hostWith room).callMethod idx method args)
      (.callMethod _ _ _)
      (Onward.callMethod (h := c.hostWith room) (.invoke c room) regular.vetted conforms) run
  rintro v rfl
  obtain ⟨ty, result, reads⟩ := reads_of_callMethod run
  exact ⟨ty, result, reads.comes regular'⟩

/-- The same for a function. -/
theorem delivers_callFunction {home : Nat} {function : Abi.Callable} {args : List Value}
    {value : Option Value} (conforms : s.scene.Conforms c s.deploys function.params args)
    (run : runFrom s ((c.hostWith room).callFunction home function args) = (.ok value, t)) :
    Delivers c t function.result value := by
  have regular' : Regular c t :=
    regular.of_built (m := fun c => (c.hostWith room).callFunction home function args)
      (.callFunction _ _ _)
      (Onward.callFunction (h := c.hostWith room) (.invoke c room) regular.vetted conforms) run
  rintro v rfl
  obtain ⟨ty, result, reads⟩ := reads_of_callFunction run
  exact ⟨ty, result, reads.comes regular'⟩

/-- A jig that is needed is loaded. -/
theorem resolve {idx : Nat}
    (run : runFrom s ((c.hostWith room).resolve origin) = (.ok idx, t)) : Regular c t :=
  regular.of_built (m := fun c => (c.hostWith room).resolve origin) (.resolve origin)
    (Vetting.resolve (h := c.hostWith room) (.invoke c room) origin s regular.vetted) run

/-- A package that is needed is started. -/
theorem instanceFor {id : PackageId} {home : Nat}
    (run : runFrom s ((c.hostWith room).instanceFor id) = (.ok home, t)) : Regular c t :=
  regular.of_built (m := fun c => (c.hostWith room).instanceFor id) (.instanceFor id)
    (Vetting.instanceFor (h := c.hostWith room) (.invoke c room) id s regular.vetted) run

/-- So is the package of a function that is imported. -/
theorem importedExport {home : Nat} {importIdx : UInt32} {found : Nat × Nat}
    (run : runFrom s ((c.hostWith room).importedExport home importIdx .ofFunction) =
      (.ok found, t)) : Regular c t :=
  regular.of_built (m := fun c => (c.hostWith room).importedExport home importIdx .ofFunction)
    (.importedExport _ _ _)
    (Vetting.importedExport (h := c.hostWith room) (.invoke c room) home importIdx .ofFunction s
      regular.vetted) run

theorem requestMethod {jig methodIdx args : UInt32} {word : UInt64}
    (run : runFrom s ((c.hostWith room).requestMethod jig methodIdx args) = (.ok word, t)) :
    Answered c room (DeclaresMethod (c.hostWith room) (askedJig jig) methodIdx.toNat s) s word
      t := by
  obtain ⟨home, _, called, finding⟩ := runFrom_bind_eq_ok run
  obtain ⟨top, rfl⟩ := runFrom_callingHome_eq_ok called
  obtain ⟨origin, _, found, resolving⟩ := runFrom_bind_eq_ok finding
  obtain rfl := (ReadsOnly.guestJig home jig).of_ok found
  obtain ⟨idx, t₁, resolved, looking⟩ := runFrom_bind_eq_ok resolving
  -- Loading the jig may run guests. What is looked up after it leaves the session as it is.
  have regular₁ := regular.resolve resolved
  obtain ⟨touched, _, looked, classing⟩ := runFrom_bind_eq_ok looking
  obtain rfl := (ReadsOnly.jigAt idx).of_ok looked
  obtain ⟨cls, _, classed, naming⟩ := runFrom_bind_eq_ok classing
  obtain rfl := (ReadsOnly.classOfJig touched).of_ok classed
  obtain ⟨method, _, named, reading⟩ := runFrom_bind_eq_ok naming
  obtain ⟨method', rfl⟩ := runFrom_orMissing_eq_ok.1 named
  obtain ⟨values, _, read, doing⟩ := runFrom_bind_eq_ok reading
  obtain rfl := (ReadsOnly.guestArgs c home _ args).of_ok read
  obtain ⟨value, u, done, returning⟩ := runFrom_bind_eq_ok doing
  have asked : runFrom _ (askedJig jig) = (.ok origin, _) := (runFrom_bind_of_ok called).trans found
  exact ⟨home, _, value, u, top,
    ⟨cls, _, method, runFrom_classFound asked resolved looked classed, method', rfl⟩,
    regular₁.delivers_callMethod (regular₁.vetted.guestArgs read) done, returning⟩

theorem requestFunction {importIdx args : UInt32} {word : UInt64}
    (run : runFrom s ((c.hostWith room).requestFunction importIdx args) = (.ok word, t)) :
    Answered c room (DeclaresFunction ((c.hostWith room).askedFunction importIdx) s) s word t := by
  obtain ⟨home, _, called, importing⟩ := runFrom_bind_eq_ok run
  obtain ⟨top, rfl⟩ := runFrom_callingHome_eq_ok called
  obtain ⟨⟨target, exportIdx⟩, t₁, imported, looking⟩ := runFrom_bind_eq_ok importing
  have regular₁ := regular.importedExport imported
  obtain ⟨inst, _, looked, naming⟩ := runFrom_bind_eq_ok looking
  obtain ⟨there, rfl⟩ := runFrom_instanceAt_eq_ok.1 looked
  obtain ⟨function, _, named, reading⟩ := runFrom_bind_eq_ok naming
  obtain ⟨function', rfl⟩ := runFrom_orPlain_eq_ok.1 named
  obtain ⟨values, _, read, doing⟩ := runFrom_bind_eq_ok reading
  obtain rfl := (ReadsOnly.guestArgs c home _ args).of_ok read
  obtain ⟨value, u, done, returning⟩ := runFrom_bind_eq_ok doing
  have asked : runFrom _ ((c.hostWith room).askedFunction importIdx) = _ :=
    (runFrom_bind_of_ok called).trans imported
  exact ⟨home, _, value, u, top,
    ⟨target, exportIdx, _, inst, function, asked, there, function', rfl⟩,
    regular₁.delivers_callFunction (regular₁.vetted.guestArgs read) done, returning⟩

theorem getProp {jig fieldIdx : UInt32} {word : UInt64}
    (run : runFrom s ((c.hostWith room).getProp jig fieldIdx) = (.ok word, t)) :
    Answered c room (DeclaresField (c.hostWith room) (askedJig jig) fieldIdx.toNat s) s word t := by
  obtain ⟨home, _, called, finding⟩ := runFrom_bind_eq_ok run
  obtain ⟨top, rfl⟩ := runFrom_callingHome_eq_ok called
  obtain ⟨origin, _, found, resolving⟩ := runFrom_bind_eq_ok finding
  obtain rfl := (ReadsOnly.guestJig home jig).of_ok found
  obtain ⟨idx, t₁, resolved, looking⟩ := runFrom_bind_eq_ok resolving
  have regular₁ := regular.resolve resolved
  obtain ⟨touched, _, looked, classing⟩ := runFrom_bind_eq_ok looking
  obtain rfl := (ReadsOnly.jigAt idx).of_ok looked
  obtain ⟨cls, _, classed, naming⟩ := runFrom_bind_eq_ok classing
  obtain rfl := (ReadsOnly.classOfJig touched).of_ok classed
  obtain ⟨field, _, named, reading⟩ := runFrom_bind_eq_ok naming
  obtain ⟨field', rfl⟩ := runFrom_orMissing_eq_ok.1 named
  obtain ⟨v, _, read, returning⟩ := runFrom_bind_eq_ok reading
  obtain ⟨rfl, inst, guest, mem, here, read⟩ := exists_of_look read
  have asked : runFrom _ (askedJig jig) = (.ok origin, _) := (runFrom_bind_of_ok called).trans found
  have reads : Session.Reads _ field.ty v := ⟨inst, guest, mem, here, .inr ⟨_, read⟩⟩
  refine ⟨home, _, _, _, top,
    ⟨cls, _, field, runFrom_classFound asked resolved looked classed, field', rfl⟩, ?_, returning⟩
  rintro _ ⟨⟩
  exact ⟨field.ty, rfl, reads.comes regular₁⟩

theorem exec {jig methodIdx : UInt16} {args : List Arg} {statement : Statement}
    (run : runFrom s ((c.hostWith room).exec jig methodIdx args) = (.ok statement, t)) :
    Stated c (DeclaresMethod (c.hostWith room) (jigStatement jig) methodIdx.toNat s) statement
      t := by
  obtain ⟨origin, _, stated, resolving⟩ := runFrom_bind_eq_ok run
  obtain rfl := (ReadsOnly.jigStatement jig).of_ok stated
  obtain ⟨idx, t₁, resolved, looking⟩ := runFrom_bind_eq_ok resolving
  have regular₁ := regular.resolve resolved
  obtain ⟨touched, _, looked, classing⟩ := runFrom_bind_eq_ok looking
  obtain rfl := (ReadsOnly.jigAt idx).of_ok looked
  obtain ⟨cls, _, classed, naming⟩ := runFrom_bind_eq_ok classing
  obtain rfl := (ReadsOnly.classOfJig touched).of_ok classed
  obtain ⟨method, _, named, checking⟩ := runFrom_bind_eq_ok naming
  obtain ⟨method', rfl⟩ := runFrom_orMissing_eq_ok.1 named
  obtain ⟨values, _, checked, doing⟩ := runFrom_bind_eq_ok checking
  obtain rfl := (ReadsOnly.checkedArgs c _ args).of_ok checked
  obtain ⟨value, u, done, returned⟩ := runFrom_bind_eq_ok doing
  cases returned
  exact ⟨_, value,
    ⟨cls, _, method, runFrom_classFound stated resolved looked classed, method', rfl⟩,
    regular₁.delivers_callMethod (regular₁.vetted.checkedArgs checked) done, rfl⟩

theorem execFunction {packageIdx functionIdx : UInt16} {args : List Arg} {statement : Statement}
    (run : runFrom s ((c.hostWith room).execFunction packageIdx functionIdx args) =
      (.ok statement, t)) :
    Stated c (DeclaresFunction ((c.hostWith room).calledFunction packageIdx functionIdx) s)
      statement t := by
  obtain ⟨id, u, stated, starting⟩ := runFrom_bind_eq_ok run
  obtain rfl := (ReadsOnly.packageStatement packageIdx).of_ok stated
  obtain ⟨home, t₁, started, looking⟩ := runFrom_bind_eq_ok starting
  have regular₁ := regular.instanceFor started
  have called : runFrom u ((c.hostWith room).calledFunction packageIdx functionIdx) =
      (.ok (home, functionIdx.toNat), t₁) := by
    rw [Host.calledFunction, runFrom_bind_of_ok stated, runFrom_bind_of_ok started]
    rfl
  obtain ⟨inst, _, looked, naming⟩ := runFrom_bind_eq_ok looking
  obtain ⟨there, rfl⟩ := runFrom_instanceAt_eq_ok.1 looked
  obtain ⟨function, _, named, checking⟩ := runFrom_bind_eq_ok naming
  obtain ⟨function', rfl⟩ := runFrom_orError_eq_ok.1 named
  obtain ⟨values, _, checked, doing⟩ := runFrom_bind_eq_ok checking
  obtain rfl := (ReadsOnly.checkedArgs c _ args).of_ok checked
  obtain ⟨value, _, done, returned⟩ := runFrom_bind_eq_ok doing
  cases returned
  exact ⟨_, value, ⟨home, _, _, inst, function, called, there, function', rfl⟩,
    regular₁.delivers_callFunction (regular₁.vetted.checkedArgs checked) done, rfl⟩

end Regular

/-- Results are passed on unchecked. Whenever a request for a method, a function or a field of a jig
is answered, and whenever an instruction that calls a method or a function succeeds, the result is
one that the class or the package asked for declares; if a value has come back, it has been read at
the declared type, and all jigs in it are at slots of the type. The slots accept them if and only if
the value would pass, there and then, the check that arguments have to pass and that nobody makes
here. -/
theorem results_accepted_iff_checked (room : Nat) (lawful : Lawful c s) (vetted : Vetted c s) :
    (∀ jig methodIdx args word t,
      runFrom s ((c.hostWith room).requestMethod jig methodIdx args) = (.ok word, t) →
        Answered c room (DeclaresMethod (c.hostWith room) (askedJig jig) methodIdx.toNat s) s word
          t) ∧
    (∀ importIdx args word t,
      runFrom s ((c.hostWith room).requestFunction importIdx args) = (.ok word, t) →
        Answered c room (DeclaresFunction ((c.hostWith room).askedFunction importIdx) s) s word
          t) ∧
    (∀ jig fieldIdx word t,
      runFrom s ((c.hostWith room).getProp jig fieldIdx) = (.ok word, t) →
        Answered c room (DeclaresField (c.hostWith room) (askedJig jig) fieldIdx.toNat s) s word
          t) ∧
    (∀ jig methodIdx args statement t,
      runFrom s ((c.hostWith room).exec jig methodIdx args) = (.ok statement, t) →
        Stated c (DeclaresMethod (c.hostWith room) (jigStatement jig) methodIdx.toNat s) statement
          t) ∧
    (∀ packageIdx functionIdx args statement t,
      runFrom s ((c.hostWith room).execFunction packageIdx functionIdx args) =
        (.ok statement, t) →
          Stated c (DeclaresFunction ((c.hostWith room).calledFunction packageIdx functionIdx) s)
            statement t) :=
  have regular : Regular c s := ⟨lawful, vetted⟩
  ⟨fun _ _ _ _ _ => regular.requestMethod, fun _ _ _ _ => regular.requestFunction,
    fun _ _ _ _ => regular.getProp, fun _ _ _ _ _ => regular.exec,
    fun _ _ _ _ _ => regular.execFunction⟩

end Engine

/-! ### A function that returns something else -/

namespace Ledger.Flock

/-- Lambs hold their age at offset 4. -/
def lamb : Abi.Class where
  exportIdx := 1
  ref := ⟨Till.packageId, "Lamb"⟩
  parent := none
  fields := [⟨"age", .u32, 4⟩]
  size := 8
  constructor := ⟨Abi.constructorName, "Lamb_constructor", [], none⟩
  methods := []
  conformance := (∅ : Abi.RefSet).insert ⟨Till.packageId, "Lamb"⟩

/-- The function takes a coin and promises a lamb. -/
def disguise : Abi.Callable :=
  ⟨"disguise", "disguise", [⟨"coin", .jig (.ofClass Till.coin.ref), 0⟩],
    some (.jig (.ofClass lamb.ref))⟩

/-- Coins, lambs and the function. -/
def document : Abi.Document :=
  { Till.document with exports := Till.document.exports ++
      [.ofClass ⟨"Lamb", none, [], [⟨"age", .mk "u32" false []⟩], []⟩,
        .ofFunction ⟨"disguise", [⟨"coin", .mk "Coin" false []⟩], some (.mk "Lamb" false [])⟩] }

/-- A module with an allocator that gives out eight times the size, and a function that returns what
it is given. -/
def wasm : Bytes :=
  Wasm.Binary.magic ++ [1, 0, 0, 0] ++
  -- Two functions from a word to a word, and one page.
  [1, 6, 1, 0x60, 1, 0x7F, 1, 0x7F] ++ [3, 3, 2, 0, 0] ++ [5, 3, 1, 0, 1] ++
  [7, 69, 5] ++ 6 :: utf8 "memory" ++ [2, 0] ++ 7 :: utf8 "__alloc" ++ [0, 0] ++
  16 :: utf8 "Coin_constructor" ++ [0, 0] ++ 16 :: utf8 "Lamb_constructor" ++ [0, 0] ++
  8 :: utf8 "disguise" ++ [0, 1] ++
  [10, 14, 2] ++ [7, 0, 0x20, 0, 0x41, 3, 0x74, 0x0B] ++ [4, 0, 0x20, 0, 0x0B]

/-- The package of coins, lambs and the function. -/
def package : Package where
  id := Till.packageId
  abi := ⟨Till.packageId, document, [.ofClass Till.coin, .ofClass lamb, .ofFunction disguise], []⟩
  module := (Wasm.Module.load wasm).toOption.getD default
  entries := ["coin"]
  sources := .empty
  wasm := wasm

/-- The ledger that has only this package. -/
def opening : Ledger :=
  ⟨⟨(∅ : Std.ExtTreeMap PackageId Package compare).insert Till.packageId package⟩, .empty⟩

/-- A coin pays for a transaction and is passed to the function. -/
def tx (coin : Pointer) : Transaction :=
  ⟨[.loadByOrigin coin, .fund 0, .importPackage Till.packageId, .execFunction 2 2 [.ref 0],
    .sign [] []]⟩

/-- The function that is called promises a lamb. -/
def isPromised (c : Engine.Context) (s : Engine.Session) : Bool :=
  match Engine.runFrom s ((Engine.host c).calledFunction 2 2) with
  | (.error _, _) => false
  | (.ok (home, idx), t) =>
    match t.instances[home]? with
    | none => false
    | some inst =>
      match inst.package.abi.functionAt idx with
      | .ok ⟨_, _, _, some (.jig (.ofClass ref))⟩ => decide (ref = lamb.ref)
      | _ => false

theorem result_of_isPromised {c : Engine.Context} {s : Engine.Session} {result : Option Ty}
    (promised : isPromised c s = true)
    (declares : Engine.DeclaresFunction ((Engine.host c).calledFunction 2 2) s result) :
    result = some (.jig (.ofClass lamb.ref)) := by
  obtain ⟨home, idx, t, inst, function, found, there, resolved, rfl⟩ := declares
  simp only [isPromised, found, there, resolved] at promised
  split at promised
  case h_2 => cases promised
  case h_1 ref same =>
    cases same
    rw [of_decide_eq_true promised]

/-- The check that arguments have to pass refuses a jig as a lamb. -/
def isRefused (c : Engine.Context) (s : Engine.Session) (origin : Pointer) : Bool :=
  match Engine.runFrom s
    (Engine.checkJigs c [⟨"result", .jig (.ofClass lamb.ref), 0⟩] [.jig origin]) with
  | (.error _, _) => true
  | (.ok _, _) => false

/-- A coin has been minted, the function returns it, and it is no lamb. -/
def isDisguised : Bool :=
  match opening.mint Till.policy.config default 500 0 with
  | .error _ => false
  | .ok (o, l) =>
    match Engine.contextOf (l.env Till.policy) (tx o.origin) with
    | .error _ => false
    | .ok c =>
      match Engine.runFrom (.start c.env.config.fuelLimit 5)
        (Engine.steps (Engine.host c) 0 ((tx o.origin).instructions.take 3)) with
      | (.error _, _) => false
      | (.ok _, s) =>
        match Engine.runFrom (s.began 3) ((Engine.host c).execFunction 2 2 [.ref 0]) with
        | (.ok (.jig origin), t) => isPromised c (s.began 3) && isRefused c t origin
        | _ => false

theorem exists_disguise : ∃ coin c s t origin, Engine.Arrives c (tx coin) 3 s ∧
    Engine.runFrom (s.began 3) ((Engine.host c).execFunction 2 2 [.ref 0]) =
      (.ok (.jig origin), t) ∧
    isPromised c (s.began 3) = true ∧ isRefused c t origin = true := by
  have disguised : isDisguised = true := by decide +kernel
  unfold isDisguised at disguised
  split at disguised
  case h_1 => cases disguised
  case h_2 o l minted =>
    split at disguised
    case h_1 => cases disguised
    case h_2 c context =>
      split at disguised
      case h_1 => cases disguised
      case h_2 fuels s before =>
        split at disguised
        case h_2 => cases disguised
        case h_1 origin t run =>
          simp only [Bool.and_eq_true] at disguised
          exact ⟨o.origin, c, s, t, origin, ⟨fuels, before⟩, run, disguised⟩

end Ledger.Flock

namespace Engine

/-- A coin is passed on as a lamb. -/
theorem results_accepted_iff_checked_of_disguise : ∃ (c : Context) (s t : Session) (coin : Pointer),
    Lawful c s ∧ Vetted c s ∧
    runFrom s ((host c).execFunction 2 2 [.ref 0]) = (.ok (.jig coin), t) ∧
    Comes c t (.jig (.ofClass Ledger.Flock.lamb.ref)) (.jig coin) ∧
    ¬ t.scene.Accepts c t.deploys (.ofClass Ledger.Flock.lamb.ref) coin := by
  obtain ⟨paid, c, s, t, coin, arrives, run, promised, refused⟩ := Ledger.Flock.exists_disguise
  have regular : Regular c (s.began 3) := .of_arrives arrives
  obtain ⟨result, value, declares, comes, statement⟩ :=
    (results_accepted_iff_checked c.env.config.fuelLimit regular.lawful regular.vetted).2.2.2.2
      2 2 [.ref 0] _ t run
  obtain rfl := Ledger.Flock.result_of_isPromised promised declares
  obtain rfl := ofResult_eq_jig.1 statement.symm
  obtain ⟨_, ⟨⟩, comes⟩ := comes _ rfl
  refine ⟨c, _, t, coin, regular.lawful, regular.vetted, run, comes, fun accepts => ?_⟩
  have passes := comes.accepted_iff.1 fun path origin demand slot => by
    cases slot
    exact accepts
  unfold Ledger.Flock.isRefused at refused
  rw [passes] at refused
  cases refused

end Engine

end JigLedger
