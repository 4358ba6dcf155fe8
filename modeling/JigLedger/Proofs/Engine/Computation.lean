import JigLedger.Engine.Execution

/-!
# Computations in a session

What the steps of a computation give and what they leave behind, one equation for each of them.
Most computations of the engine only look at the session. Those that do more without anybody
noticing it, like counting fuel or writing to the memory of a guest, are silent. Those that change
nothing but what a transaction keeps for itself, like taking a fresh pointer, are quiet.
-/

namespace JigLedger.Engine

variable {α β ε : Type} {s t u : Session}

/-! ### Running -/

@[simp] theorem runFrom_pure (s : Session) (a : α) : runFrom s (pure a) = (.ok a, s) := rfl

@[simp] theorem runFrom_throw (s : Session) (e : Failure) :
    runFrom s (throw e : Engine α) = (.error e, s) := rfl

@[simp] theorem runFrom_get (s : Session) : runFrom s (get : Engine Session) = (.ok s, s) := rfl

@[simp] theorem runFrom_modify (s : Session) (f : Session → Session) :
    runFrom s (modify f : Engine PUnit) = (.ok ⟨⟩, f s) := rfl

@[simp] theorem runFrom_note (s : Session) (e : Event) :
    runFrom s (note e) = (.ok (), s.record e) := rfl

theorem runFrom_bind (s : Session) (m : Engine α) (f : α → Engine β) :
    runFrom s (m >>= f) =
      match runFrom s m with
      | (.ok a, t) => runFrom t (f a)
      | (.error e, t) => (.error e, t) := by
  change (ExceptT.run m >>= ExceptT.bindCont f).run s = _
  simp only [runFrom, StateT.run_bind]
  rcases (ExceptT.run m).run s with ⟨_ | _, _⟩ <;> rfl

theorem runFrom_tryCatch (s : Session) (m : Engine α) (f : Failure → Engine α) :
    runFrom s (tryCatch m f) =
      match runFrom s m with
      | (.ok a, t) => (.ok a, t)
      | (.error e, t) => runFrom t (f e) := by
  simp only [runFrom, tryCatch, tryCatchThe, MonadExceptOf.tryCatch, ExceptT.tryCatch, ExceptT.run,
    ExceptT.mk, StateT.run_bind]
  rcases StateT.run m s with ⟨_ | _, _⟩ <;> rfl

/-- A computation whose first part succeeds goes on with the second part. -/
theorem runFrom_bind_of_ok {m : Engine α} {f : α → Engine β} {a : α}
    (h : runFrom s m = (.ok a, t)) : runFrom s (m >>= f) = runFrom t (f a) := by
  rw [runFrom_bind, h]

/-- A computation in two parts succeeds when both parts do. -/
theorem runFrom_bind_eq_ok {m : Engine α} {f : α → Engine β} {b : β}
    (h : runFrom s (m >>= f) = (.ok b, u)) :
    ∃ a t, runFrom s m = (.ok a, t) ∧ runFrom t (f a) = (.ok b, u) := by
  rw [runFrom_bind] at h
  rcases hm : runFrom s m with ⟨e | a, t⟩ <;> rw [hm] at h
  · cases h
  · exact ⟨a, t, rfl, h⟩

/-- A failure that is passed on with another text is no success. -/
theorem runFrom_rethrow_eq_ok {m : Engine α} {f : Failure → Failure} {a : α} :
    runFrom s (tryCatch m fun e => throw (f e)) = (.ok a, t) ↔ runFrom s m = (.ok a, t) := by
  rw [runFrom_tryCatch]
  rcases runFrom s m with ⟨e | b, t'⟩ <;> simp

/-! ### Looking at the session -/

/-- A computation that leaves the session as it was. -/
def ReadsOnly (m : Engine α) : Prop := ∀ s, (runFrom s m).2 = s

namespace ReadsOnly

theorem pure (a : α) : ReadsOnly (pure a : Engine α) := fun _ => rfl

theorem throw (e : Failure) : ReadsOnly (throw e : Engine α) := fun _ => rfl

theorem fail (e : ExecError) : ReadsOnly (fail e : Engine α) := fun _ => rfl

theorem failPlain (message : String) : ReadsOnly (failPlain message : Engine α) := fun _ => rfl

theorem get : ReadsOnly (get : Engine Session) := fun _ => rfl

theorem bind {m : Engine α} {f : α → Engine β} (hm : ReadsOnly m) (hf : ∀ a, ReadsOnly (f a)) :
    ReadsOnly (m >>= f) := by
  intro s
  have h := hm s
  rw [runFrom_bind]
  rcases hr : runFrom s m with ⟨e | a, t⟩ <;> rw [hr] at h <;> cases h
  · rfl
  · exact hf a _

theorem tryCatch {m : Engine α} {f : Failure → Engine α} (hm : ReadsOnly m)
    (hf : ∀ e, ReadsOnly (f e)) : ReadsOnly (tryCatch m f) := by
  intro s
  have h := hm s
  rw [runFrom_tryCatch]
  rcases hr : runFrom s m with ⟨e | a, t⟩ <;> rw [hr] at h <;> cases h
  · exact hf e _
  · rfl

theorem orPlain (message : ε → String) (x : Except ε α) : ReadsOnly (orPlain message x) := by
  cases x
  · exact failPlain _
  · exact pure _

theorem orError (error : ε → ExecError) (x : Except ε α) : ReadsOnly (orError error x) := by
  cases x
  · exact fail _
  · exact pure _

theorem orMissing (error : ExecError) (x : Option α) : ReadsOnly (orMissing error x) := by
  cases x
  · exact fail _
  · exact pure _

/-- The session after a success is the one before. -/
theorem of_ok {m : Engine α} {a : α} (h : ReadsOnly m) (run : runFrom s m = (.ok a, t)) : t = s := by
  have same := h s
  rwa [run] at same

theorem instanceAt (idx : Nat) : ReadsOnly (instanceAt idx) :=
  get.bind fun _ => orMissing _ _

theorem jigAt (idx : Nat) : ReadsOnly (jigAt idx) := get.bind fun _ => orMissing _ _

theorem guestAt (idx : Nat) : ReadsOnly (guestAt idx) := get.bind fun _ => orMissing _ _

theorem authority (c : Context) : ReadsOnly (authority c) := get.bind fun _ => pure _

theorem memoryOf (home : Nat) : ReadsOnly (memoryOf home) :=
  (instanceAt home).bind fun _ => (guestAt _).bind fun _ => pure _

theorem look (home : Nat) (f : LinearMemory → Except MemoryError α) : ReadsOnly (look home f) :=
  (memoryOf home).bind fun _ => orPlain _ _

theorem wordOf (n : Wasm.Val) : ReadsOnly (wordOf n) := by
  cases n
  · exact pure _
  · exact pure _
  · exact failPlain _
  · exact failPlain _

theorem resultWord (results : List Wasm.Val) : ReadsOnly (resultWord results) := by
  cases results
  · exact pure _
  · exact wordOf _

theorem statementAt (idx : UInt16) : ReadsOnly (statementAt idx) :=
  get.bind fun _ => orMissing _ _

theorem callingHome : ReadsOnly callingHome := by
  refine get.bind fun s => ?_
  cases s.frames
  · exact fail _
  · exact pure _

theorem guestText (home : Nat) (address : UInt32) : ReadsOnly (guestText home address) := by
  refine (look home _).bind fun v => ?_
  cases v
  case string => exact pure _
  all_goals exact fail _

theorem guestJig (home : Nat) (address : UInt32) : ReadsOnly (guestJig home address) :=
  (memoryOf home).bind fun _ => orError _ _

theorem classOfJig (jig : TouchedJig) : ReadsOnly (Host.classOfJig jig) :=
  (instanceAt jig.home).bind fun _ => orPlain _ _

theorem checkCall (name : String) (type : Wasm.FuncType) (params : List Wasm.Val) (results : Nat) :
    ReadsOnly (Host.checkCall name type params results) := by
  unfold Host.checkCall
  split
  · exact failPlain _
  split
  · exact failPlain _
  split
  · exact failPlain _
  · exact pure _

end ReadsOnly

/-! ### Quiet computations -/

/-- Nothing has changed that others rely on; guests may have printed texts. -/
structure Quiet (s t : Session) : Prop where
  current : t.current = s.current
  frames : t.frames = s.frames
  jigs : t.jigs = s.jigs
  instances : t.instances = s.instances
  guests : t.guests.length = s.guests.length
  deploys : t.deploys = s.deploys
  fundedAmount : t.fundedAmount = s.fundedAmount
  journal : ∃ texts : List (Caller × String),
    t.journal = texts.map (fun text => .printed text.1 text.2) ++ s.journal

theorem Quiet.refl (s : Session) : Quiet s s := ⟨rfl, rfl, rfl, rfl, rfl, rfl, rfl, [], rfl⟩

theorem Quiet.trans (h : Quiet s t) (h' : Quiet t u) : Quiet s u := by
  obtain ⟨texts, ht⟩ := h.journal
  obtain ⟨more, hm⟩ := h'.journal
  exact ⟨h'.current.trans h.current, h'.frames.trans h.frames, h'.jigs.trans h.jigs,
    h'.instances.trans h.instances, h'.guests.trans h.guests, h'.deploys.trans h.deploys,
    h'.fundedAmount.trans h.fundedAmount, more ++ texts, by rw [hm, ht, List.map_append, List.append_assoc]⟩

/-- Nothing has changed but fuel and memories; guests may have printed texts. -/
structure Silent (s t : Session) : Prop extends Quiet s t where
  statements : t.statements = s.statements
  funded : t.funded = s.funded
  nextIndex : t.nextIndex = s.nextIndex
  fuel : t.fuel ≤ s.fuel

theorem Silent.refl (s : Session) : Silent s s := ⟨.refl s, rfl, rfl, rfl, Nat.le_refl _⟩

theorem Silent.trans (h : Silent s t) (h' : Silent t u) : Silent s u :=
  ⟨h.toQuiet.trans h'.toQuiet, h'.statements.trans h.statements, h'.funded.trans h.funded,
    h'.nextIndex.trans h.nextIndex, Nat.le_trans h'.fuel h.fuel⟩

/-- Fuel can be taken silently. -/
theorem Silent.burnt (s : Session) : Silent s { s with fuel := s.fuel - 1 } :=
  ⟨⟨rfl, rfl, rfl, rfl, rfl, rfl, rfl, [], rfl⟩, rfl, rfl, rfl, Nat.sub_le _ _⟩

/-- A computation that does nothing that others rely on. -/
def Quietly (m : Engine α) : Prop := ∀ s, Quiet s (runFrom s m).2

/-- A computation that does nothing that anybody notices. -/
def Silently (m : Engine α) : Prop := ∀ s, Silent s (runFrom s m).2

theorem Silently.quietly {m : Engine α} (h : Silently m) : Quietly m := fun s => (h s).toQuiet

theorem ReadsOnly.silently {m : Engine α} (h : ReadsOnly m) : Silently m :=
  fun s => (h s).symm ▸ Silent.refl s

theorem ReadsOnly.quietly {m : Engine α} (h : ReadsOnly m) : Quietly m := h.silently.quietly

namespace Silently

theorem bind {m : Engine α} {f : α → Engine β} (hm : Silently m) (hf : ∀ a, Silently (f a)) :
    Silently (m >>= f) := by
  intro s
  have h := hm s
  rw [runFrom_bind]
  rcases hr : runFrom s m with ⟨e | a, t⟩ <;> rw [hr] at h
  · exact h
  · exact h.trans (hf a t)

theorem burn : Silently burn := by
  intro s
  rw [Engine.burn, runFrom_bind_of_ok (runFrom_get s)]
  split
  · exact .refl s
  · exact .burnt s

theorem setMachine (idx : Nat) (machine : Wasm.Instance) : Silently (setMachine idx machine) :=
  fun _ => ⟨⟨rfl, rfl, rfl, rfl, List.length_modify .., rfl, rfl, [], rfl⟩, rfl, rfl, rfl,
    Nat.le_refl _⟩

theorem writeBytes (home : Nat) (address : UInt32) (bs : Bytes) :
    Silently (writeBytes home address bs) :=
  (ReadsOnly.instanceAt home).silently.bind fun _ => (ReadsOnly.guestAt _).silently.bind fun _ =>
    (ReadsOnly.orPlain _ _).silently.bind fun _ => setMachine _ _

theorem debugStr (h : Host) (message : UInt32) : Silently (h.debugStr message) := by
  rw [Host.debugStr]
  split
  · exact ReadsOnly.callingHome.silently.bind fun _ => (ReadsOnly.guestText _ _).silently.bind
      fun text => ReadsOnly.get.silently.bind fun s _ =>
        ⟨⟨rfl, rfl, rfl, rfl, rfl, rfl, rfl, [(s.caller, text)], rfl⟩, rfl, rfl, rfl,
          Nat.le_refl _⟩
  · exact (ReadsOnly.pure _).silently

end Silently

namespace Quietly

theorem bind {m : Engine α} {f : α → Engine β} (hm : Quietly m) (hf : ∀ a, Quietly (f a)) :
    Quietly (m >>= f) := by
  intro s
  have h := hm s
  rw [runFrom_bind]
  rcases hr : runFrom s m with ⟨e | a, t⟩ <;> rw [hr] at h
  · exact h
  · exact h.trans (hf a t)

/-- Changing parts of the session that nobody relies on. -/
theorem modify {f : Session → Session} (h : ∀ s, Quiet s (f s)) :
    Quietly (modify f : Engine PUnit) := h

theorem freshPointer (c : Context) : Quietly (freshPointer c) := by
  intro s
  rw [Engine.freshPointer, runFrom_bind_of_ok (runFrom_get s)]
  exact ⟨rfl, rfl, rfl, rfl, rfl, rfl, rfl, [], rfl⟩

theorem newOrigin (h : Host) : Quietly h.newOrigin := by
  refine ReadsOnly.get.quietly.bind fun s => ?_
  split
  · exact (ReadsOnly.pure _).quietly
  · exact freshPointer _

theorem mapM {f : α → Engine β} (h : ∀ a, Quietly (f a)) : ∀ items : List α, Quietly (items.mapM f)
  | [] => by simpa using (ReadsOnly.pure []).quietly
  | a :: rest => by
    simp only [List.mapM_cons]
    exact (h a).bind fun b => (mapM h rest).bind fun bs => (ReadsOnly.pure (b :: bs)).quietly

theorem settle (c : Context) (jig : TouchedJig) : Quietly (settle c jig) := by
  unfold Engine.settle
  dsimp only
  split
  · exact (ReadsOnly.pure _).quietly
  refine (ReadsOnly.orError _ _).quietly.bind fun _ => (ReadsOnly.classOfJig jig).quietly.bind
    fun _ => (ReadsOnly.look _ _).quietly.bind fun _ => (ReadsOnly.orError _ _).quietly.bind
      fun _ => ?_
  cases spendOf jig
  · exact (ReadsOnly.pure _).quietly
  · exact (freshPointer c).bind fun _ => (ReadsOnly.pure _).quietly

/-- Writing down what a transaction leaves behind changes nothing. -/
theorem finalize (c : Context) : Quietly (finalize c) :=
  ReadsOnly.get.quietly.bind fun s => (mapM (settle c) s.jigs).bind
    fun _ => (ReadsOnly.pure _).quietly

end Quietly

/-! ### What a success says -/

/-- What an item that is looked up says when it is there. -/
theorem runFrom_orMissing_eq_ok {error : ExecError} {x : Option α} {a : α} :
    runFrom s (orMissing error x) = (.ok a, t) ↔ x = some a ∧ t = s := by
  cases x <;> simp [orMissing, fail, eq_comm]

theorem runFrom_instanceAt_eq_ok {idx : Nat} {inst : PackageInstance} :
    runFrom s (instanceAt idx) = (.ok inst, t) ↔ s.instances[idx]? = some inst ∧ t = s := by
  rw [instanceAt, runFrom_bind_of_ok (runFrom_get s), runFrom_orMissing_eq_ok]

theorem runFrom_jigAt_eq_ok {idx : Nat} {jig : TouchedJig} :
    runFrom s (jigAt idx) = (.ok jig, t) ↔ s.jigs[idx]? = some jig ∧ t = s := by
  rw [jigAt, runFrom_bind_of_ok (runFrom_get s), runFrom_orMissing_eq_ok]

theorem runFrom_guestAt_eq_ok {idx : Nat} {guest : Guest} :
    runFrom s (guestAt idx) = (.ok guest, t) ↔ s.guests[idx]? = some guest ∧ t = s := by
  rw [guestAt, runFrom_bind_of_ok (runFrom_get s), runFrom_orMissing_eq_ok]

theorem runFrom_orPlain_eq_ok {message : ε → String} {x : Except ε α} {a : α} :
    runFrom s (orPlain message x) = (.ok a, t) ↔ x = .ok a ∧ t = s := by
  cases x <;> simp [orPlain, failPlain, eq_comm]

theorem runFrom_orError_eq_ok {error : ε → ExecError} {x : Except ε α} {a : α} :
    runFrom s (orError error x) = (.ok a, t) ↔ x = .ok a ∧ t = s := by
  cases x <;> simp [orError, fail, eq_comm]

/-- What is looked at is the memory of the guest of a package. -/
theorem runFrom_look_eq_ok {home : Nat} {f : LinearMemory → Except MemoryError α} {a : α}
    (run : runFrom s (look home f) = (.ok a, t)) : t = s ∧ ∃ inst guest,
      s.instances[home]? = some inst ∧ s.guests[inst.guest]? = some guest ∧
      f guest.machine.memory = .ok a := by
  obtain ⟨mem, _, found, reporting⟩ := runFrom_bind_eq_ok run
  obtain ⟨inst, _, looked, guesting⟩ := runFrom_bind_eq_ok found
  obtain ⟨there, rfl⟩ := runFrom_instanceAt_eq_ok.1 looked
  obtain ⟨guest, _, looked, returned⟩ := runFrom_bind_eq_ok guesting
  obtain ⟨here, rfl⟩ := runFrom_guestAt_eq_ok.1 looked
  cases returned
  obtain ⟨read, rfl⟩ := runFrom_orPlain_eq_ok.1 reporting
  exact ⟨rfl, inst, guest, there, here, read⟩

/-- A memory is looked at when it is there and the look succeeds. -/
theorem runFrom_look_of_ok {home : Nat} {f : LinearMemory → Except MemoryError α} {a : α}
    {inst : PackageInstance} {guest : Guest} (hinst : s.instances[home]? = some inst)
    (hguest : s.guests[inst.guest]? = some guest) (read : f guest.machine.memory = .ok a) :
    runFrom s (look home f) = (.ok a, s) := by
  unfold look
  refine (runFrom_bind_of_ok (a := guest.machine.memory) (t := s) ?_).trans
    (runFrom_orPlain_eq_ok.2 ⟨read, rfl⟩)
  rw [memoryOf, runFrom_bind_of_ok (runFrom_instanceAt_eq_ok.2 ⟨hinst, rfl⟩),
    runFrom_bind_of_ok (runFrom_guestAt_eq_ok.2 ⟨hguest, rfl⟩)]
  rfl

/-! ### Several computations -/

/-- Several things are done one after the other. -/
theorem runFrom_mapM_cons_eq_ok {f : α → Engine β} {a : α} {items : List α}
    {results : List β} : runFrom s ((a :: items).mapM f) = (.ok results, t) ↔ ∃ b u rest,
      runFrom s (f a) = (.ok b, u) ∧ runFrom u (items.mapM f) = (.ok rest, t) ∧
        results = b :: rest := by
  rw [List.mapM_cons]
  constructor
  case mp =>
    intro run
    obtain ⟨b, u, first, others⟩ := runFrom_bind_eq_ok run
    obtain ⟨rest, _, others, returned⟩ := runFrom_bind_eq_ok others
    cases returned
    exact ⟨b, u, rest, first, others, rfl⟩
  case mpr =>
    rintro ⟨b, u, rest, first, others, rfl⟩
    rw [runFrom_bind_of_ok first, runFrom_bind_of_ok others, runFrom_pure]

/-- When several things are done, each of them is, and what comes of it is among the results. -/
theorem exists_of_runFrom_mapM {f : α → Engine β} {items : List α} {results : List β}
    (run : runFrom s (items.mapM f) = (.ok results, t)) :
    ∀ a ∈ items, ∃ b ∈ results, ∃ u v, runFrom u (f a) = (.ok b, v) := by
  induction items generalizing s results with
  | nil => exact nofun
  | cons a items ih =>
    obtain ⟨b, u, rest, first, others, rfl⟩ := runFrom_mapM_cons_eq_ok.1 run
    refine List.forall_mem_cons.2 ⟨⟨b, .head _, s, u, first⟩, fun a' mem => ?_⟩
    obtain ⟨b', hb', rest⟩ := ih others a' mem
    exact ⟨b', .tail _ hb', rest⟩

end JigLedger.Engine
