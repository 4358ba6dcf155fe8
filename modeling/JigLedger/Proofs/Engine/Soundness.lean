import JigLedger.Proofs.Engine.Lawful
import JigLedger.Proofs.Engine.Operations

/-!
# Everything that happens is due

From a lawful session on, whatever is built leads to a lawful session, also when it fails. When it
succeeds, everything that it began is over again. The first is the invariant of all runs, and the
second is what carries it past a call: after the call the scene is what it was, but for what was
added.
-/

namespace JigLedger.Engine

open Wasm (Val Thread)

variable {c : Context} {s t u s₀ s₁ : Session} {α β : Type}

/-- A computation from a lawful session on stays lawful, and when it succeeds everything is over
that was begun since another session. -/
inductive Safe (c : Context) (s₀ s : Session) (m : Engine α) : Prop where
  | ok (a : α) (t : Session) (run : runFrom s m = (.ok a, t)) (lawful : Lawful c t)
      (grown : Grown s t) (restored : Restored s₀ t)
  | error (e : Failure) (t : Session) (run : runFrom s m = (.error e, t)) (lawful : Lawful c t)
      (grown : Grown s t)

namespace Safe

theorem lawful {m : Engine α} (h : Safe c s₀ s m) : Lawful c (runFrom s m).2 := by
  obtain ⟨a, t, run, lawful, -, -⟩ | ⟨e, t, run, lawful, -⟩ := h <;> rw [run] <;> exact lawful

theorem grown {m : Engine α} (h : Safe c s₀ s m) : Grown s (runFrom s m).2 := by
  obtain ⟨a, t, run, -, grown, -⟩ | ⟨e, t, run, -, grown⟩ := h <;> rw [run] <;> exact grown

/-- What is known of a success. -/
theorem of_ok {m : Engine α} {a : α} (h : Safe c s₀ s m) (run : runFrom s m = (.ok a, t)) :
    Lawful c t ∧ Grown s t ∧ Restored s₀ t := by
  obtain ⟨b, t', run', lawful, grown, restored⟩ | ⟨e, t', run', -, -⟩ := h <;>
    rw [run'] at run <;> cases run
  exact ⟨lawful, grown, restored⟩

/-- The second part of a computation starts from where the first part has led. -/
theorem bind {m : Engine α} {f : α → Engine β} (hm : Safe c s₁ s m)
    (hf : ∀ a t, runFrom s m = (.ok a, t) → Lawful c t → Grown s t → Restored s₁ t →
      Safe c s₀ t (f a)) : Safe c s₀ s (m >>= f) := by
  obtain ⟨a, t, run, lawful, grown, restored⟩ | ⟨e, t, run, lawful, grown⟩ := hm
  · obtain ⟨b, u, run', lawful', grown', restored'⟩ | ⟨e, u, run', lawful', grown'⟩ :=
      hf a t run lawful grown restored
    · exact .ok b u (by rw [runFrom_bind_of_ok run, run']) lawful' (grown.trans grown') restored'
    · exact .error e u (by rw [runFrom_bind_of_ok run, run']) lawful' (grown.trans grown')
  · exact .error e t (by rw [runFrom_bind, run]) lawful grown

/-- A failure that goes on with another text leaves the same session. -/
theorem rethrow {m : Engine α} {g : Failure → Failure} (hm : Safe c s₀ s m) :
    Safe c s₀ s (tryCatch m fun e => throw (g e)) := by
  obtain ⟨a, t, run, lawful, grown, restored⟩ | ⟨e, t, run, lawful, grown⟩ := hm
  · exact .ok a t (runFrom_rethrow_eq_ok.2 run) lawful grown restored
  · exact .error (g e) t (by rw [runFrom_tryCatch, run]; rfl) lawful grown

/-- It may have been begun earlier, when everything since then is over. -/
theorem since {m : Engine α} (h : Safe c s₁ s m) (restored : Restored s₀ s₁) : Safe c s₀ s m := by
  obtain ⟨a, t, run, lawful, grown, restored'⟩ | ⟨e, t, run, lawful, grown⟩ := h
  · exact .ok a t run lawful grown (restored.trans restored')
  · exact .error e t run lawful grown

/-- Looking at the session is safe. -/
theorem reads {m : Engine α} (hm : ReadsOnly m) (lawful : Lawful c s) (restored : Restored s₀ s) :
    Safe c s₀ s m := by
  have hs := hm s
  rcases run : runFrom s m with ⟨e | a, t⟩ <;> rw [run] at hs <;> cases hs
  · exact .error e _ run lawful (.refl _)
  · exact .ok a _ run lawful (.refl _) restored

end Safe

/-! ### Quiet computations -/

theorem scene_printed (texts : List (Caller × String)) (journal : List Event) :
    Scene.of (texts.map (fun text => .printed text.1 text.2) ++ journal) = Scene.of journal := by
  induction texts with
  | nil => rfl
  | cons text texts ih => exact ih

theorem throughout_printed {P : Scene → Event → Prop}
    (free : ∀ v caller message, P v (.printed caller message)) (texts : List (Caller × String))
    {journal : List Event} (h : Throughout P journal) :
    Throughout P (texts.map (fun text => .printed text.1 text.2) ++ journal) := by
  induction texts with
  | nil => exact h
  | cons text texts ih => exact ⟨free _ _ _, ih⟩

theorem Quiet.scene (h : Quiet s t) : t.scene = s.scene := by
  obtain ⟨texts, journal⟩ := h.journal
  rw [Session.scene, journal, scene_printed, Session.scene]

theorem Quiet.lawful (h : Quiet s t) (lawful : Lawful c s) : Lawful c t where
  shows := by
    rw [h.scene]
    exact lawful.shows.of_eq h.current h.frames h.jigs h.instances h.guests
  due := by
    obtain ⟨texts, journal⟩ := h.journal
    rw [journal]
    exact throughout_printed (fun _ _ _ => trivial) texts lawful.due
  deploys := by
    rw [h.deploys]
    exact lawful.deploys

theorem Quiet.grown (h : Quiet s t) : Grown s t where
  journal := by
    obtain ⟨texts, journal⟩ := h.journal
    exact ⟨_, journal.symm⟩
  instances := h.instances ▸ List.prefix_rfl
  deploys := h.deploys ▸ List.prefix_rfl
  guests := h.guests ▸ Nat.le_refl _
  jigs := h.jigs ▸ List.prefix_rfl

theorem Quiet.restored (h : Quiet s t) : Restored s t := by
  constructor <;> rw [h.scene]

theorem Safe.quietly {m : Engine α} (hm : Quietly m) (lawful : Lawful c s) : Safe c s s m := by
  have hs := hm s
  rcases run : runFrom s m with ⟨e | a, t⟩ <;> rw [run] at hs
  · exact .error e t run (hs.lawful lawful) hs.grown
  · exact .ok a t run (hs.lawful lawful) hs.grown hs.restored

/-! ### What is known of the top frame -/

/-- The package of the top frame has the given index, if there is one given. -/
def Knows (s : Session) (top : Option Nat) : Prop :=
  ∀ home, top = some home → ∃ frame, s.scene.frames.head? = some frame ∧ frame.home = home

theorem Knows.none (s : Session) : Knows s none := fun _ h => nomatch h

theorem Knows.restored {top : Option Nat} (h : Knows s top) (hr : Restored s t) : Knows t top := by
  unfold Knows
  rw [hr.frames]
  exact h

/-- The package that was looked up as the one that calls is that of the top frame. -/
theorem Lawful.calling (lawful : Lawful c s) {home : Nat}
    (run : runFrom s callingHome = (.ok home, t)) : Knows s (some home) := by
  rintro _ ⟨⟩
  rw [callingHome, runFrom_bind_of_ok (runFrom_get s)] at run
  rw [lawful.shows.frames]
  rcases hf : s.frames with _ | ⟨frame, below⟩ <;> rw [hf] at run <;> cases run
  exact ⟨frame, rfl, rfl⟩

/-- Guests are run safely for errands that suit them. -/
def Invoker.IsSafe (inv : Invoker) (c : Context) : Prop :=
  ∀ s guest errand thread, Lawful c s → s.scene.Suits ⟨guest, errand⟩ →
    Safe c s s (inv c guest errand thread)

/-- An errand that fits suits the guest of its package. -/
theorem Lawful.suits (h : Lawful c s) {home : Nat} {inst : PackageInstance} {top : Option Nat}
    {errand : Errand} (known : Knows s top) (fits : errand.Fits home top)
    (hi : s.instances[home]? = some inst) : s.scene.Suits ⟨inst.guest, errand⟩ := by
  have guest := h.shows.guestOf? hi
  cases errand
  case call | arguments | answer =>
    obtain ⟨frame, hf, rfl⟩ := known home fits
    exact ⟨frame, hf, guest⟩
  case object | origin =>
    cases fits
    exact guest
  case start => cases fits

/-! ### Packages -/

theorem ReadsOnly.packageOr (c : Context) (error : ExecError) (id : PackageId) :
    ReadsOnly (packageOr c error id) :=
  (ReadsOnly.get.bind fun _ => .pure _).bind fun _ => .orMissing _ _

theorem ReadsOnly.latestOutput (c : Context) (origin : Pointer) :
    ReadsOnly (latestOutput c origin) := .orMissing _ _

theorem ReadsOnly.packageOf (c : Context) (o : Output) : ReadsOnly (packageOf c o) :=
  .packageOr c _ _

theorem ReadsOnly.classOf (c : Context) (origin : Pointer) : ReadsOnly (classOf c origin) := by
  refine ReadsOnly.get.bind fun s => ?_
  cases s.jigIndex? origin
  · exact (latestOutput c origin).bind fun o => (packageOf c o).bind fun _ => .orPlain _ _
  · exact (jigAt _).bind fun _ => (instanceAt _).bind fun _ => .orPlain _ _

theorem runFrom_package? (c : Context) (s : Session) (id : PackageId) :
    runFrom s (package? c id) = (.ok (s.package? c id), s) := rfl

theorem runFrom_packageOr_eq_ok {error : ExecError} {id : PackageId} {p : Package} :
    runFrom s (packageOr c error id) = (.ok p, t) ↔ s.package? c id = some p ∧ t = s := by
  rw [packageOr, runFrom_bind_of_ok (runFrom_package? c s id), runFrom_orMissing_eq_ok]

/-- A package that is found is offered, and it is the one that the id stands for. -/
theorem Lawful.offered (h : Lawful c s) {id : PackageId} {p : Package}
    (hp : s.package? c id = some p) :
    Offered c p ∧ (p.id = id ∨ c.env.registry.get? id = some p) := by
  rw [Session.package?, Option.orElse_eq_orElse, Option.orElse_eq_or, Option.or_eq_some_iff] at hp
  rcases hp with hp | ⟨-, hp⟩
  · exact ⟨.inr (h.deploys.built p (List.mem_of_find?_eq_some hp)), .inl (by simpa using List.find?_some hp)⟩
  · exact ⟨.inl ⟨id, hp⟩, .inr hp⟩

/-- The last item that satisfies a condition is an item that satisfies it. -/
theorem Session.lastIndex?_eq_some {p : α → Bool} {items : List α} {idx : Nat}
    (h : lastIndex? p items = some idx) : ∃ a, items[idx]? = some a ∧ p a = true := by
  obtain ⟨n, hn, rfl⟩ := Option.map_eq_some_iff.1 h
  obtain ⟨hlt, hp, -⟩ := List.findIdx?_eq_some_iff_getElem.1 hn
  rw [List.getElem_reverse] at hp
  exact ⟨_, List.getElem?_eq_getElem _, hp⟩

/-- No item satisfies the condition if there is no last one that does. -/
theorem Session.lastIndex?_eq_none {p : α → Bool} {items : List α} (h : lastIndex? p items = none) :
    ∀ a ∈ items, p a = false := by
  intro a ha
  have h := Option.map_eq_none_iff.1 h
  simpa using List.findIdx?_eq_none_iff.1 h a (by simpa using ha)

theorem Session.instanceIndex?_eq_some {id : PackageId} {idx : Nat}
    (h : s.instanceIndex? id = some idx) :
    ∃ inst, s.instances[idx]? = some inst ∧ inst.package.id = id := by
  obtain ⟨inst, hi, hp⟩ := lastIndex?_eq_some h
  exact ⟨inst, hi, by simpa using hp⟩

theorem Session.instanceIndex?_eq_none {id : PackageId} (h : s.instanceIndex? id = none) :
    ∀ inst ∈ s.instances, inst.package.id ≠ id := by
  intro inst hi
  simpa using lastIndex?_eq_none h inst hi

theorem Session.jigIndex?_eq_some {origin : Pointer} {idx : Nat}
    (h : s.jigIndex? origin = some idx) : ∃ jig, s.jigs[idx]? = some jig ∧ jig.origin = origin := by
  obtain ⟨jig, hj, hp⟩ := lastIndex?_eq_some h
  exact ⟨jig, hj, by simpa using hp⟩

theorem Session.jigIndex?_eq_none {origin : Pointer} (h : s.jigIndex? origin = none) :
    ∀ jig ∈ s.jigs, jig.origin ≠ origin := by
  intro jig hj
  simpa using lastIndex?_eq_none h jig hj

/-! ### Starting a package -/

theorem runFrom_addGuest (s : Session) (guest : Guest) :
    runFrom s (Host.addGuest guest) = (.ok s.guests.length, s.launched guest) := rfl

theorem runFrom_addInstance (s : Session) (inst : PackageInstance) :
    runFrom s (Host.addInstance inst) = (.ok s.instances.length, s.started inst) := rfl

theorem ReadsOnly.linkedGuest (h : Host) (m : Wasm.Module) : ReadsOnly (h.linkedGuest m) := by
  refine (orPlain _ _).bind fun links => ?_
  cases m.allocate h.context.env.config.maxMemoryBytes with
  | none => exact failPlain _
  | some machine =>
    dsimp only
    cases machine.writeSegments m.segments
    · exact throw _
    · exact pure _

theorem ReadsOnly.allocatorOf (p : Package) : ReadsOnly (Host.allocatorOf p) := by
  unfold Host.allocatorOf
  split
  · exact failPlain _
  · cases p.module.exportedFunc? Package.allocExport
    · exact failPlain _
    · dsimp only
      split
      · exact pure _
      · exact failPlain _

/-- A start function runs for the guest that was launched last. -/
theorem Safe.runStart {inv : Invoker} (hinv : inv.IsSafe c) (lawful : Lawful c s) {guest : Nat}
    (head : s.scene.starting.head? = some guest) (m : Wasm.Module) :
    Safe c s s ((inv.host c).runStart m guest) := by
  unfold Host.runStart
  cases m.start with
  | none => exact .reads (.pure _) lawful (.refl s)
  | some f =>
    refine (hinv s guest .start (.calling f [] 0) lawful head).bind fun _ t _ lawful _ restored => ?_
    exact .reads (.pure _) lawful restored

/-- A guest that has been linked is launched, runs its start function, and its package is added. -/
theorem Safe.launch {inv : Invoker} (hinv : inv.IsSafe c) (lawful : Lawful c s) {p : Package}
    (offered : Offered c p) (targets : List (Option Nat)) (guest : Guest) :
    Safe c s s ((inv.host c).launch p targets guest) := by
  refine Safe.bind (.ok _ _ (runFrom_addGuest s guest) (lawful.launched guest) (.launched s guest)
    (.refl _)) fun idx t run launched _ _ => ?_
  cases run
  refine (Safe.runStart hinv launched rfl _).rethrow.bind fun _ t _ lawful₁ _ restored => ?_
  refine Safe.bind (.reads (.allocatorOf p) lawful₁ restored) fun allocator u _ lawful₂ _ restored => ?_
  have head : u.scene.starting = s.guests.length :: s.scene.starting := restored.starting
  refine .ok _ _ (runFrom_addInstance u _) (lawful₂.started ⟨by rw [head]; rfl, offered⟩)
    (.started u _) ?_
  exact ⟨restored.current, restored.frames, restored.making, congrArg List.tail head,
    restored.running⟩

/-- A package whose imports lead somewhere starts safely. -/
theorem Safe.instantiate {inv : Invoker} (hinv : inv.IsSafe c) (lawful : Lawful c s) {p : Package}
    (offered : Offered c p) (targets : List (Option Nat)) :
    Safe c s s ((inv.host c).instantiate p targets) := by
  refine Safe.bind (Safe.reads (.linkedGuest _ _) lawful (.refl s)).rethrow
    fun guest t _ lawful _ restored => ?_
  exact (Safe.launch hinv lawful offered targets guest).since restored

/-- A package starts safely when it is needed. -/
theorem Safe.instanceFor {inv : Invoker} (hinv : inv.IsSafe c) (lawful : Lawful c s)
    (targets : ∀ (p : Package) t, Lawful c t →
      Safe c t t (p.abi.imports.mapM (importTarget c))) (id : PackageId) :
    Safe c s s ((inv.host c).instanceFor id) := by
  refine Safe.bind (.reads .get lawful (.refl s)) fun s' t run _ _ _ => ?_
  cases run
  cases s.instanceIndex? id with
  | some idx => exact .reads (.pure _) lawful (.refl s)
  | none =>
    refine Safe.bind (.reads (.packageOr c _ id) lawful (.refl s)) fun p t run _ _ _ => ?_
    obtain ⟨hp, rfl⟩ := runFrom_packageOr_eq_ok.1 run
    refine (targets p t lawful).bind fun ts u _ lawful₁ _ restored => ?_
    exact (Safe.instantiate hinv lawful₁ (lawful.offered hp).1 ts).since restored

/-- The package that has been started is the one that the id stands for. -/
theorem Lawful.instanceFor {inv : Invoker} (lawful : Lawful c s) {id : PackageId} {home : Nat}
    (run : runFrom s ((inv.host c).instanceFor id) = (.ok home, t)) :
    ∃ inst, t.instances[home]? = some inst ∧ inst.IsOf c id := by
  obtain ⟨s', _, looked, rest⟩ := runFrom_bind_eq_ok run
  cases looked
  rcases hi : s.instanceIndex? id with _ | idx <;> simp only [hi] at rest
  · obtain ⟨p, _, found, booting⟩ := runFrom_bind_eq_ok rest
    obtain ⟨hp, rfl⟩ := runFrom_packageOr_eq_ok.1 found
    obtain ⟨targets, _, -, linking⟩ := runFrom_bind_eq_ok booting
    obtain ⟨guest, _, -, launching⟩ := runFrom_bind_eq_ok linking
    obtain ⟨idx, _, -, running⟩ := runFrom_bind_eq_ok launching
    obtain ⟨_, _, -, finishing⟩ := runFrom_bind_eq_ok running
    obtain ⟨allocator, u, -, added⟩ := runFrom_bind_eq_ok finishing
    cases added
    refine ⟨⟨p, idx, allocator, targets⟩, ?_, (lawful.offered hp).2⟩
    simp [Session.started, Session.record]
  · cases rest
    obtain ⟨inst, hinst, hid⟩ := Session.instanceIndex?_eq_some hi
    exact ⟨inst, hinst, .inl hid⟩

/-! ### Jigs -/

theorem runFrom_register (s : Session) (jig : TouchedJig) :
    runFrom s (register jig) = (.ok s.jigs.length, s.made jig) := rfl

/-- A jig that has not been touched may be begun. -/
theorem Lawful.making (lawful : Lawful c s) {origin : Pointer}
    (untouched : s.jigIndex? origin = none) : Lawful c (s.record (.making origin)) := by
  refine lawful.record (fun jig hj => ?_) ⟨lawful.shows.current, lawful.shows.frames,
    lawful.shows.jigs, lawful.shows.instances, lawful.shows.guests⟩
  exact Session.jigIndex?_eq_none untouched jig (lawful.shows.jigs ▸ hj)

/-- A jig that has not been touched is begun, made and noted. -/
theorem Safe.touch (lawful : Lawful c s) {origin : Pointer} {touched : Nat → Engine Nat}
    {make : Engine TouchedJig} (known : ∀ idx, Safe c s s (touched idx))
    (safe : ∀ t, Lawful c t → Restored (s.record (.making origin)) t → Safe c t t make)
    (made : ∀ t jig u, Lawful c t → runFrom t make = (.ok jig, u) → Made c u.instances origin jig) :
    Safe c s s (touch origin touched make) := by
  refine Safe.bind (.reads .get lawful (.refl s)) fun s' t run _ _ _ => ?_
  cases run
  rcases hi : s.jigIndex? origin with _ | idx
  · have making := lawful.making hi
    refine Safe.bind (.ok _ _ (runFrom_note s _) making (.record s _) (.refl _))
      fun _ t run _ _ _ => ?_
    cases run
    refine (safe _ making (.refl _)).bind fun jig u run lawful _ restored => ?_
    have head : u.scene.making = origin :: s.scene.making := restored.making
    refine .ok _ _ (runFrom_register u jig) (lawful.made ⟨origin, by rw [head]; rfl, ?_⟩) (.made u jig)
      ⟨restored.current, restored.frames, congrArg List.tail head, restored.starting,
        restored.running⟩
    rw [lawful.shows.instances]
    exact made _ jig u making run
  · exact known idx

section Loading

variable {inv : Invoker} (hinv : inv.IsSafe c)
  (targets : ∀ (p : Package) t, Lawful c t → Safe c t t (p.abi.imports.mapM (importTarget c)))
  (build : ∀ home cls origin values t, Lawful c t →
    Safe c t t ((inv.host c).buildObject home cls origin values))

include build in
/-- The object of an output is built safely. -/
theorem Safe.rehydrateIn (lawful : Lawful c s) (home : Nat) (o : Output) (lock : Lock) :
    Safe c s s ((inv.host c).rehydrateIn home o lock) := by
  refine Safe.bind (.reads (.instanceAt home) lawful (.refl s)) fun inst t _ lawful _ restored => ?_
  refine Safe.bind (.reads (.orError _ _) lawful restored) fun cls t _ lawful _ restored => ?_
  refine Safe.bind (.reads (.orError _ _) lawful restored) fun values t _ lawful _ restored => ?_
  refine (build home cls o.origin values t lawful).bind fun address u _ lawful _ restored' => ?_
  exact .reads (.pure _) lawful (restored.trans restored')

include hinv targets build

/-- An output is brought into the memory of its package safely. -/
theorem Safe.rehydrate (lawful : Lawful c s) (o : Output) :
    Safe c s s ((inv.host c).rehydrate o) := by
  refine Safe.bind (.reads (.orError _ _) lawful (.refl s)) fun lock t _ lawful _ restored => ?_
  refine Safe.bind (.reads (.packageOf _ _) lawful restored) fun _ t _ lawful _ restored => ?_
  refine (Safe.instanceFor hinv lawful targets _).bind fun home u _ lawful _ restored' => ?_
  exact (Safe.rehydrateIn build lawful home o lock).since (restored.trans restored')

/-- The jig that is built is what the output says. -/
theorem Lawful.rehydrate (lawful : Lawful c s) {o : Output} {jig : TouchedJig}
    (run : runFrom s ((inv.host c).rehydrate o) = (.ok jig, t)) : Loaded c o t.instances jig := by
  obtain ⟨lock, s₁, locked, rest⟩ := runFrom_bind_eq_ok run
  obtain ⟨hlock, rfl⟩ := runFrom_orError_eq_ok.1 locked
  obtain ⟨p, s₂, found, starting⟩ := runFrom_bind_eq_ok rest
  obtain ⟨-, rfl⟩ := runFrom_packageOr_eq_ok.1 found
  obtain ⟨home, s₃, started, reading⟩ := runFrom_bind_eq_ok starting
  obtain ⟨lawful₃, -, -⟩ := (Safe.instanceFor hinv lawful targets _).of_ok started
  obtain ⟨inst, hinst, hid⟩ := lawful.instanceFor started
  obtain ⟨-, grown, -⟩ := (Safe.rehydrateIn build lawful₃ home o lock).of_ok reading
  obtain ⟨_, s₄, -, classing⟩ := runFrom_bind_eq_ok reading
  obtain ⟨cls, s₅, -, decoding⟩ := runFrom_bind_eq_ok classing
  obtain ⟨values, s₆, -, building⟩ := runFrom_bind_eq_ok decoding
  obtain ⟨address, s₇, -, returned⟩ := runFrom_bind_eq_ok building
  cases returned
  exact ⟨rfl, rfl, hlock, rfl, inst, grown.home hinst, hid⟩

/-- The latest output of a jig is loaded safely. -/
theorem Safe.loadLatest (lawful : Lawful c s) (origin : Pointer) {touched : Nat → Engine Nat}
    (silent : ∀ idx, Silently (touched idx)) :
    Safe c s s ((inv.host c).loadLatest origin touched) := by
  refine .touch lawful (fun idx => .quietly (silent idx).quietly lawful) ?_ ?_
  · intro t lawful _
    refine Safe.bind (.reads (.latestOutput c origin) lawful (.refl t)) fun o u _ lawful _ restored => ?_
    exact (Safe.rehydrate hinv targets build lawful o).since restored
  · intro t jig u lawful run
    obtain ⟨o, _, found, making⟩ := runFrom_bind_eq_ok run
    obtain ⟨stored, rfl⟩ := runFrom_orMissing_eq_ok.1 found
    exact .latest o stored (Lawful.rehydrate hinv targets build lawful making)

/-- The output at a location is loaded safely. -/
theorem Safe.loadByLocation (lawful : Lawful c s) (location : Pointer) :
    Safe c s s ((inv.host c).loadByLocation location) := by
  refine Safe.bind (.reads (.orMissing _ _) lawful (.refl s)) fun o t found lawful _ restored => ?_
  obtain ⟨stored, rfl⟩ := runFrom_orMissing_eq_ok.1 found
  have touched : Safe c t t
      (Engine.touch o.origin (Host.resolvedTwice o.origin) ((inv.host c).rehydrate o)) := by
    refine .touch lawful (fun idx => .reads (.fail _) lawful (.refl t)) ?_ ?_
    · intro t lawful _
      exact .rehydrate hinv targets build lawful o
    · intro t jig u lawful run
      exact .located o location stored rfl (Lawful.rehydrate hinv targets build lawful run)
  exact touched.bind fun _ u _ lawful _ restored => .reads (.pure _) lawful restored

end Loading

/-! ### Calls -/

/-- A frame is pushed while there is room on the stack. -/
theorem runFrom_pushFrame (s : Session) (entry : Entry) (frame : Frame) (callee : Abi.Callable)
    (args : List Value) :
    runFrom s (pushFrame c entry frame callee args) =
      if s.frames.length < c.env.config.maxCallDepth then
        (.ok ⟨⟩, s.entered entry frame callee args)
      else (.error (.ofError (.failed
        s!"call depth limit of {c.env.config.maxCallDepth} exceeded")), s) := by
  rw [pushFrame, runFrom_bind_of_ok (runFrom_get s)]
  dsimp only
  split <;> rfl

/-- The top frame is popped. -/
theorem runFrom_popFrame (s : Session) :
    runFrom s popFrame =
      if s.frames = [] then (.error (.ofError (.broken "frame stack underflow")), s)
      else (.ok (), s.left) := by
  rw [popFrame, runFrom_bind_of_ok (runFrom_get s)]
  rcases s.frames with _ | ⟨frame, below⟩ <;> rfl

/-- A call has its frame on the stack while it runs. -/
theorem Safe.inFrame (lawful : Lawful c s) {entry : Entry} {frame : Frame} {callee : Abi.Callable}
    {args : List Value} {body : Engine α} (admits : s.scene.Admits c frame entry)
    (safe : ∀ t, Lawful c t → Knows t (some frame.home) → Safe c t t body) :
    Safe c s s (inFrame c entry frame callee args body) := by
  have push : Safe c (s.entered entry frame callee args) s
      (pushFrame c entry frame callee args) := by
    have run := runFrom_pushFrame (c := c) s entry frame callee args
    split at run
    case isTrue room =>
      have shallow : s.scene.frames.length < c.env.config.maxCallDepth := by
        rwa [lawful.shows.frames]
      exact .ok _ _ run (lawful.entered ⟨admits, shallow⟩) (.entered s entry frame callee args)
        (.refl _)
    case isFalse => exact .error _ s run lawful (.refl s)
  refine push.bind fun _ t _ lawful _ restored => ?_
  have known : Knows t (some frame.home) := by
    rintro home ⟨⟩
    exact ⟨frame, by rw [restored.frames]; rfl, rfl⟩
  refine (safe t lawful known).bind fun a u _ lawful _ restored' => ?_
  have frames : u.scene.frames = frame :: s.scene.frames := restored'.frames.trans restored.frames
  have pop : runFrom u popFrame = (.ok (), u.left) := by
    rw [runFrom_popFrame, ← lawful.shows.frames, frames]
    rfl
  have ended : Restored s u.left :=
    ⟨restored'.current.trans restored.current, congrArg List.tail frames,
      restored'.making.trans restored.making, restored'.starting.trans restored.starting,
      restored'.running.trans restored.running⟩
  refine Safe.bind (.ok _ _ pop (lawful.left (by simp [Due, frames])) (.left u) ended)
    fun _ v _ lawful _ restored => ?_
  exact .reads (.pure _) lawful restored

theorem runFrom_newJig_eq_ok {h : Host} {home classIdx : Nat} {cls : Abi.Class} {origin : Pointer}
    {word : Option UInt64} {jig : TouchedJig}
    (run : runFrom s (h.newJig home classIdx cls origin word) = (.ok jig, t)) :
    jig.origin = origin ∧ jig.previous = none ∧ jig.lock = .unlocked := by
  unfold Host.newJig at run
  dsimp only at run
  split at run
  · cases run
  · obtain ⟨_, _, -, writing⟩ := runFrom_bind_eq_ok run
    obtain ⟨_, _, -, returned⟩ := runFrom_bind_eq_ok writing
    cases returned
    exact ⟨rfl, rfl, rfl⟩

section Calling

variable {inv : Invoker}

/-- A jig is constructed safely: its constructor runs on its own behalf. -/
theorem Safe.construct (lawful : Lawful c s) (home classIdx : Nat) (args : List Value)
    (call : ∀ cls t, Lawful c t → Knows t (some home) →
      Safe c t t ((inv.host c).callConstructor home cls args))
    (new : ∀ cls origin word t, Lawful c t →
      Safe c t t ((inv.host c).newJig home classIdx cls origin word)) :
    Safe c s s ((inv.host c).construct home classIdx args) := by
  refine Safe.bind (.reads (.instanceAt home) lawful (.refl s)) fun inst t _ lawful _ restored => ?_
  refine Safe.bind (.reads (.orPlain _ _) lawful restored) fun cls t _ lawful _ restored => ?_
  refine Safe.bind (.quietly (.newOrigin _) lawful) fun origin u _ lawful _ restored₁ => ?_
  refine Safe.since (.touch lawful (fun idx => .reads (.fail _) lawful (.refl u)) ?_ ?_)
    (restored.trans restored₁)
  · intro v lawful begun
    have admits : v.scene.Admits c ⟨.jig origin, home⟩ .constructor :=
      ⟨origin, by rw [begun.making]; rfl, rfl⟩
    refine (Safe.inFrame lawful admits fun w lawful known => call cls w lawful known).bind
      fun word w _ lawful _ restored => ?_
    exact (new cls origin word w lawful).since restored
  · intro v jig w _ run
    obtain ⟨word, _, -, making⟩ := runFrom_bind_eq_ok run
    obtain ⟨same, fresh, -⟩ := runFrom_newJig_eq_ok making
    exact .constructed same fresh

/-- A method is entered on behalf of its jig, if the lock of the jig permits that. -/
theorem Safe.callMethod (lawful : Lawful c s) (idx : Nat) (method : Abi.Callable)
    (args : List Value) (body : ∀ home address t, Lawful c t → Knows t (some home) →
      Safe c t t ((inv.host c).callWith home method [.i32 address] args)) :
    Safe c s s ((inv.host c).callMethod idx method args) := by
  refine Safe.bind (.reads (.jigAt idx) lawful (.refl s)) fun jig t looked lawful _ _ => ?_
  obtain ⟨hjig, rfl⟩ := runFrom_jigAt_eq_ok.1 looked
  refine Safe.bind (.reads (.authority c) lawful (.refl t)) fun auth u seen lawful _ _ => ?_
  cases seen
  split
  case isTrue granted =>
    refine .inFrame lawful ⟨jig, ?_, rfl, ?_⟩ fun u lawful known => body _ _ u lawful known
    · rw [lawful.shows.jigs, hjig]
    · rw [lawful.shows.authority]
      exact granted
  case isFalse => exact .reads (.fail _) lawful (.refl t)

/-- A function is entered on behalf of whoever calls. -/
theorem Safe.callFunction (lawful : Lawful c s) (home : Nat) (function : Abi.Callable)
    (args : List Value) (body : ∀ t, Lawful c t → Knows t (some home) →
      Safe c t t ((inv.host c).callWith home function [] args)) :
    Safe c s s ((inv.host c).callFunction home function args) := by
  refine Safe.bind (.reads .get lawful (.refl s)) fun s' t looked lawful _ _ => ?_
  cases looked
  exact .inFrame lawful lawful.shows.caller.symm fun u lawful known => body u lawful known

end Calling

/-! ### Locks -/

/-- A lock is replaced only if it permits that. -/
theorem Safe.changeLock (lawful : Lawful c s) (idx : Nat) (lock : Lock) :
    Safe c s s (changeLock c idx lock) := by
  refine Safe.bind (.reads (.jigAt idx) lawful (.refl s)) fun jig t looked lawful _ _ => ?_
  obtain ⟨hjig, rfl⟩ := runFrom_jigAt_eq_ok.1 looked
  refine Safe.bind (.reads (.authority c) lawful (.refl t)) fun auth u seen lawful _ _ => ?_
  cases seen
  split
  case isTrue granted =>
    have due : Due c t.scene (.relocked idx lock) := by
      refine ⟨jig, by rw [lawful.shows.jigs, hjig], ?_⟩
      rw [lawful.shows.authority]
      exact granted
    exact .ok _ _ (runFrom_modify t _) (lawful.relocked due) (.relocked t idx lock)
      ⟨rfl, rfl, rfl, rfl, rfl⟩
  case isFalse => exact .reads (.fail _) lawful (.refl t)

/-- A coin is spent only if its lock is open. -/
theorem Safe.pay (lawful : Lawful c s) (origin : Pointer) (idx : Nat) :
    Safe c s s (pay c origin idx) := by
  refine Safe.bind (.reads (.jigAt idx) lawful (.refl s)) fun jig t looked lawful _ _ => ?_
  obtain ⟨hjig, rfl⟩ := runFrom_jigAt_eq_ok.1 looked
  refine Safe.bind (.reads (.classOfJig jig) lawful (.refl t)) fun cls u looked lawful _ restored => ?_
  obtain rfl := ReadsOnly.of_ok (.classOfJig jig) looked
  split
  case isTrue => exact .reads (.fail _) lawful (.refl u)
  refine Safe.bind (.reads (.orMissing _ _) lawful (.refl u)) fun field v found lawful _ _ => ?_
  obtain ⟨-, rfl⟩ := runFrom_orMissing_eq_ok.1 found
  refine Safe.bind (.reads (.authority c) lawful (.refl v)) fun auth w seen lawful _ _ => ?_
  cases seen
  refine Safe.bind (.reads (.orError _ _) lawful (.refl v)) fun _ w granted lawful _ _ => ?_
  obtain ⟨granted, rfl⟩ := runFrom_orError_eq_ok.1 granted
  have due : Due c w.scene (.spent idx) := by
    refine ⟨jig, by rw [lawful.shows.jigs, hjig], ?_⟩
    rw [lawful.shows.authority]
    exact Lock.assertOpen_eq_ok_iff.1 granted
  refine Safe.bind (.reads (.look _ _) lawful (.refl w)) fun value x looked lawful _ _ => ?_
  obtain rfl := ReadsOnly.of_ok (.look _ _) looked
  cases value.asU64?
  case none => exact .reads (.failPlain _) lawful (.refl x)
  case some amount =>
    dsimp only
    split
    · exact .reads (.fail _) lawful (.refl x)
    · exact .ok _ _ (runFrom_modify x _) (lawful.spent due amount) (.spent x idx amount)
        ⟨rfl, rfl, rfl, rfl, rfl⟩

/-- A package is not known yet if it is neither deployed nor registered. -/
theorem Session.package?_eq_none {id : PackageId} (h : s.package? c id = none) :
    (∀ p ∈ s.deploys, p.id ≠ id) ∧ c.env.registry.get? id = none := by
  rw [package?, Option.orElse_eq_orElse, Option.orElse_eq_or, Option.or_eq_none_iff] at h
  exact ⟨fun p hp => by simpa using List.find?_eq_none.1 h.1 p hp, h.2⟩

/-- One more package can be deployed that has been built and is not known yet. -/
theorem Deployable.append {packages : List Package} {p : Package} (h : Deployable c packages)
    (built : p.IsBuilt) (new : ∀ q ∈ packages, q.id ≠ p.id)
    (unregistered : c.env.registry.get? p.id = none) : Deployable c (packages ++ [p]) where
  built := List.forall_mem_append.2 ⟨h.built, List.forall_mem_singleton.2 built⟩
  unregistered := List.forall_mem_append.2 ⟨h.unregistered, List.forall_mem_singleton.2 unregistered⟩
  nodup := by
    rw [List.map_append, List.nodup_append]
    refine ⟨h.nodup, List.nodup_cons.2 ⟨List.not_mem_nil, .nil⟩, ?_⟩
    rintro id hid _ hp rfl
    obtain ⟨q, hq, same⟩ := List.mem_map.1 hid
    exact new q hq (same.trans (List.mem_singleton.1 hp))

/-- A deployed package has been built, and it was not known before. -/
theorem Safe.deploy {inv : Invoker} (lawful : Lawful c s) (entries : List String)
    (sources : Sources) : Safe c s s ((inv.host c).deploy entries sources) := by
  refine Safe.bind (.reads (.orPlain _ _) lawful (.refl s)) fun id t named lawful _ _ => ?_
  obtain ⟨content, rfl⟩ := runFrom_orPlain_eq_ok.1 named
  refine Safe.bind (.reads (ReadsOnly.get.bind fun _ => .pure _) lawful (.refl t))
    fun known u looked lawful _ _ => ?_
  cases looked
  split
  case isTrue => exact .reads (.fail _) lawful (.refl t)
  case isFalse unknown =>
  have missing : t.package? (inv.host c).context id = none := by simpa using unknown
  obtain ⟨new, unregistered⟩ := Session.package?_eq_none missing
  refine Safe.bind (.reads (.orError _ _) lawful (.refl t)) fun artifacts v compiled lawful _ _ => ?_
  obtain ⟨-, rfl⟩ := runFrom_orError_eq_ok.1 compiled
  refine Safe.bind (.reads (.orError _ _) lawful (.refl v)) fun p w building lawful _ _ => ?_
  obtain ⟨built, rfl⟩ := runFrom_orError_eq_ok.1 building
  obtain rfl : id = p.id := Except.ok.inj (content.symm.trans (Package.of_build built).1)
  have deployed : Lawful c { w with deploys := w.deploys ++ [p] } :=
    ⟨⟨lawful.shows.current, lawful.shows.frames, lawful.shows.jigs, lawful.shows.instances,
      lawful.shows.guests⟩, lawful.due,
      lawful.deploys.append ⟨entries, sources, artifacts, built⟩ new unregistered⟩
  have restored : Restored w { w with deploys := w.deploys ++ [p] } := ⟨rfl, rfl, rfl, rfl, rfl⟩
  refine Safe.bind (.ok _ _ (runFrom_modify w _) deployed
    { Grown.refl w with deploys := List.prefix_append _ _ } restored) fun _ x _ lawful _ restored => ?_
  exact .reads (.pure _) lawful restored

/-! ### Whatever is built -/

/-- Whatever is built is safe, when guests are run safely. -/
theorem BuiltWith.safe {pays locks : Prop} {inv : Invoker} {top : Option Nat}
    {m : Context → Engine α} (h : BuiltWith pays locks inv top m) (hinv : inv.IsSafe c) :
    ∀ s, Lawful c s → Knows s top → Safe c s s (m c) := by
  -- By induction on how it is built: what is known of the top frame is restored after every part.
  induction h with
  | silent silent => exact fun s lawful _ => .quietly (silent c).quietly lawful
  | bind _ _ first rest =>
    exact fun s lawful known => (first s lawful known).bind fun a t _ lawful _ restored =>
      (rest a t lawful (known.restored restored)).since restored
  | calling _ rest =>
    intro s lawful known
    refine Safe.bind (.reads .callingHome lawful (.refl s)) fun home t found lawful _ restored => ?_
    obtain rfl := ReadsOnly.of_ok .callingHome found
    exact rest home t lawful (lawful.calling found)
  | rethrow g _ body => exact fun s lawful known => (body s lawful known).rethrow
  | package error id => exact fun s lawful _ => .reads (.packageOr c error id) lawful (.refl s)
  | judge origin => exact fun s lawful _ => .reads (.classOf c origin) lawful (.refl s)
  | deploy entries sources => exact fun s lawful _ => .deploy lawful entries sources
  | invoke home errand thread fits =>
    intro s lawful known
    refine Safe.bind (.reads (.instanceAt home) lawful (.refl s)) fun inst t looked lawful _ _ => ?_
    obtain ⟨hinst, rfl⟩ := runFrom_instanceAt_eq_ok.1 looked
    exact hinv t _ errand _ lawful (lawful.suits known fits hinst)
  | boot id _ targets =>
    exact fun s lawful _ => .instanceFor hinv lawful
      (fun p t lawful => targets p t lawful (.none t)) id
  | loadLatest origin touched silent _ _ targets build =>
    exact fun s lawful _ => .loadLatest hinv (fun p t lawful => targets p t lawful (.none t))
      (fun home cls origin values t lawful => build home cls origin values t lawful (.none t))
      lawful origin silent
  | loadByLocation location _ _ targets build =>
    exact fun s lawful _ => .loadByLocation hinv (fun p t lawful => targets p t lawful (.none t))
      (fun home cls origin values t lawful => build home cls origin values t lawful (.none t))
      lawful location
  | construct home classIdx args _ _ call new =>
    exact fun s lawful _ => .construct lawful home classIdx args call
      fun cls origin word t lawful => new cls origin word t lawful (.none t)
  | method idx method args _ body =>
    exact fun s lawful _ => .callMethod lawful idx method args body
  | function home function args _ body =>
    exact fun s lawful _ => .callFunction lawful home function args body
  | changeLock idx lock _ => exact fun s lawful _ => .changeLock lawful idx lock
  | pay origin idx => exact fun s lawful _ => .pay lawful origin idx

/-! ### Running guests -/

/-- Goes on while the same guest runs for the same errand. -/
theorem Scene.Runs.restored {guest : Nat} (h : s.scene.Runs guest) (grown : Grown s t)
    (lawful : Lawful c s) (lawful' : Lawful c t) (restored : Restored s t) : t.scene.Runs guest := by
  have keeps (home : Nat) (hg : s.scene.guestOf? home = some guest) :
      t.scene.guestOf? home = some guest := by
    rw [Scene.guestOf?, lawful.shows.instances] at hg
    obtain ⟨inst, hinst, rfl⟩ := Option.map_eq_some_iff.1 hg
    exact lawful'.shows.guestOf? (grown.home hinst)
  obtain ⟨errand, head, suits⟩ := h
  refine ⟨errand, by rw [restored.running, head], ?_⟩
  cases errand
  case call | arguments | answer =>
    obtain ⟨frame, hf, hg⟩ := suits
    exact ⟨frame, by rw [restored.frames, hf], keeps frame.home hg⟩
  case object | origin => exact keeps _ suits
  case start =>
    simp only [Scene.Suits] at suits ⊢
    rw [restored.starting, suits]

/-- A request of a guest is answered safely. -/
theorem Safe.request {inv : Invoker} (hinv : inv.IsSafe c) (lawful : Lawful c s) {guest : Nat}
    (runs : s.scene.Runs guest) (function : HostImport) (args : List Val) :
    Safe c s s ((inv.host c).request guest function args) := by
  refine Safe.bind (.reads .get lawful (.refl s)) fun s' t looked lawful _ _ => ?_
  cases looked
  have due : Due c s.scene (.requested guest function s.frames.head?) :=
    ⟨by rw [lawful.shows.frames], runs⟩
  have requested : Safe c s s (note (.requested guest function s.frames.head?)) :=
    .ok _ _ (runFrom_note s _) (lawful.record due lawful.shows) (.record s _)
      ⟨rfl, rfl, rfl, rfl, rfl⟩
  refine requested.bind fun _ t noted lawful _ restored => ?_
  cases noted
  have built : Built inv none fun c => (inv.host c).answer function args := .answer function args
  exact (built.safe hinv _ lawful (.none _)).since restored

/-- A guest runs for the errand that was noted. -/
theorem Lawful.invoked (lawful : Lawful c s) {guest : Nat} {errand : Errand}
    (suits : s.scene.Suits ⟨guest, errand⟩) :
    Lawful c (s.record (.invoked guest errand)) ∧
      (s.record (.invoked guest errand)).scene.Runs guest := by
  refine ⟨lawful.record suits ⟨lawful.shows.current, lawful.shows.frames, lawful.shows.jigs,
    lawful.shows.instances, lawful.shows.guests⟩, errand, rfl, ?_⟩
  cases errand <;> exact suits

/-- Noting an errand around a run makes running guests safe. -/
theorem isSafe_onErrand (room : Context → Nat)
    (safe : ∀ s guest thread, Lawful c s → s.scene.Runs guest →
      Safe c s s (run c (room c) guest thread)) :
    Invoker.IsSafe (fun c => onErrand (run c (room c))) c := by
  intro s guest errand thread lawful suits
  obtain ⟨invoked, runs⟩ := lawful.invoked suits
  refine Safe.bind (.ok _ _ (runFrom_note s _) invoked (.record s _) (.refl _))
    fun _ t noted lawful _ _ => ?_
  cases noted
  refine (safe _ guest thread lawful runs).bind fun results t _ lawful _ restored => ?_
  have head : t.scene.running = ⟨guest, errand⟩ :: s.scene.running := restored.running
  have finished : Safe c s t (note .finished) :=
    .ok _ _ (runFrom_note t _) (lawful.record (e := .finished) (by simp [Due, head])
      ⟨lawful.shows.current, lawful.shows.frames, lawful.shows.jigs, lawful.shows.instances,
        lawful.shows.guests⟩) (.record t _) ⟨restored.current, restored.frames, restored.making,
          restored.starting, congrArg List.tail head⟩
  refine finished.bind fun _ u _ lawful _ restored => ?_
  exact .reads (.pure _) lawful restored

/-- A guest runs safely: what its code does by itself is quiet, and its requests are safe. -/
theorem Safe.run : ∀ (room : Nat) (s : Session) (guest : Nat) (thread : Thread), Lawful c s →
    s.scene.Runs guest → Safe c s s (run c room guest thread)
  | 0, s, _, _, lawful, _ => .reads (.throw _) lawful (.refl s)
  | room + 1, s, guest, thread, lawful, runs => by
    refine Safe.bind (.quietly Silently.burn.quietly lawful) fun _ t _ lawful₁ grown restored => ?_
    have runs := runs.restored grown lawful lawful₁ restored
    refine Safe.bind (.reads (.guestAt guest) lawful₁ restored) fun found u looked lawful₂ _ restored => ?_
    obtain rfl := ReadsOnly.of_ok (.guestAt guest) looked
    dsimp only
    cases found.machine.step thread with
    | running machine thread =>
      refine Safe.bind (.quietly (Silently.setMachine guest machine).quietly lawful₂)
        fun _ v _ lawful₃ grown restored₃ => ?_
      have runs := runs.restored grown lawful₂ lawful₃ restored₃
      exact (Safe.run room v guest thread lawful₃ runs).since (restored.trans restored₃)
    | finished results => exact .reads (.pure _) lawful₂ restored
    | trapped trap => exact .reads (.throw _) lawful₂ restored
    | stuck => exact .reads (.fail _) lawful₂ restored
    | waiting function args thread =>
      dsimp only
      cases found.links[function]? with
      | none => exact .reads (.fail _) lawful₂ restored
      | some function =>
        -- The answer may run guests in its turn, with what is left of the room.
        have hinv := isSafe_onErrand (fun _ => room)
          fun s guest thread lawful runs => Safe.run room s guest thread lawful runs
        refine (Safe.request hinv lawful₂ runs function args.reverse).bind
          fun results v _ lawful₃ grown restored₃ => ?_
        have runs := runs.restored grown lawful₂ lawful₃ restored₃
        exact (Safe.run room v guest _ lawful₃ runs).since (restored.trans restored₃)

/-! ### Transactions -/

/-- How a transaction runs guests: with room for all of its fuel. -/
def invoker : Invoker := fun c => onErrand (run c c.env.config.fuelLimit)

theorem isSafe_invoker (c : Context) : invoker.IsSafe c :=
  isSafe_onErrand (fun c => c.env.config.fuelLimit) (Safe.run _)

/-- Nothing is in progress, as between two instructions. -/
structure Idle (s : Session) : Prop where
  frames : s.scene.frames = []
  making : s.scene.making = []
  starting : s.scene.starting = []
  running : s.scene.running = []

theorem idle_start (fuel instructions : Nat) : Idle (.start fuel instructions) :=
  ⟨rfl, rfl, rfl, rfl⟩

theorem Idle.restored (h : Idle s) (restored : Restored s t) : Idle t :=
  ⟨restored.frames.trans h.frames, restored.making.trans h.making,
    restored.starting.trans h.starting, restored.running.trans h.running⟩

/-- An instruction runs safely once the one before it is over. -/
theorem Safe.step (lawful : Lawful c s) (idle : Idle s) (idx : Nat) (i : Instruction) :
    Safe c (s.began idx) s (step (host c) idx i) := by
  have due : Due c s.scene (.began idx) := ⟨idle.frames, idle.making, idle.starting, idle.running⟩
  refine Safe.bind (.reads .get lawful (.refl s)) fun s' t looked lawful _ _ => ?_
  cases looked
  refine Safe.bind (.ok _ _ (runFrom_modify s _) (lawful.began due)
    { Grown.refl s with journal := ⟨[_], rfl⟩ } (.refl (s.began idx))) fun _ t run lawful _ _ => ?_
  cases run
  have safe := (Built.instruction i).safe (isSafe_invoker c) _ lawful (.none _)
  refine safe.bind fun statement t _ lawful _ restored => ?_
  have noted : Quietly (modify fun s : Session =>
      { s with statements := s.statements ++ [statement] }) :=
    .modify fun _ => ⟨rfl, rfl, rfl, rfl, rfl, rfl, rfl, [], rfl⟩
  refine (Safe.quietly noted lawful).bind fun _ u _ lawful _ restored' => ?_
  exact .reads (ReadsOnly.get.bind fun _ => .pure _) lawful (restored.trans restored')

/-- One instruction runs after the other. -/
theorem Safe.steps : ∀ (instructions : List Instruction) (idx : Nat) (s : Session), Lawful c s →
    Idle s → ∃ s₀, Idle s₀ ∧ Safe c s₀ s (steps (host c) idx instructions)
  | [], _, s, lawful, idle => ⟨s, idle, .reads (.pure _) lawful (.refl s)⟩
  | i :: rest, idx, s, lawful, idle => by
    have first := (Safe.step lawful idle idx i).rethrow
      (g := fun failure => .ofError (failure.toError.withInstruction idx))
    obtain ⟨fuel, t, run, lawful₁, grown, restored⟩ | ⟨e, t, run, lawful₁, grown⟩ := first
    · have began : Idle (s.began idx) := ⟨idle.frames, idle.making, idle.starting, idle.running⟩
      have idle₁ := began.restored restored
      obtain ⟨s₀, idle₀, safe⟩ := Safe.steps rest (idx + 1) t lawful₁ idle₁
      refine ⟨s₀, idle₀, Safe.bind (.ok fuel t run lawful₁ grown (.refl t)) ?_⟩
      intro fuel' t' run' _ _ _
      rw [run] at run'
      cases run'
      exact safe.bind fun _ u _ lawful _ restored => .reads (.pure _) lawful restored
    · exact ⟨s, idle, .error e t (by rw [Engine.steps, runFrom_bind, run]) lawful₁ grown⟩

/-- A transaction is safe, and when it succeeds nothing is in progress any more. -/
theorem Safe.transact (lawful : Lawful c s) (idle : Idle s) (tx : Transaction) :
    ∃ s₀, Idle s₀ ∧ Safe c s₀ s (transact c tx) := by
  obtain ⟨s₀, idle₀, safe⟩ := Safe.steps tx.instructions 0 s lawful idle
  refine ⟨s₀, idle₀, safe.bind fun fuel t _ lawful _ restored => ?_⟩
  refine (Safe.quietly (.finalize c) lawful).bind fun left u _ lawful _ restored' => ?_
  exact .reads (ReadsOnly.get.bind fun _ => .pure _) lawful (restored.trans restored')

/-- Every transaction is run lawfully, whether it succeeds or fails. -/
theorem lawful_runTransaction (c : Context) (tx : Transaction) :
    Lawful c (runTransaction c tx).2 := by
  obtain ⟨s₀, -, safe⟩ := Safe.transact (lawful_start c c.env.config.fuelLimit tx.size)
    (idle_start _ _) tx
  exact safe.lawful

/-- After a transaction has succeeded, everything that it began is over. -/
theorem idle_runTransaction {c : Context} {tx : Transaction} {r : ExecutionResult}
    (h : (runTransaction c tx).1 = .ok r) : Idle (runTransaction c tx).2 := by
  obtain ⟨s₀, idle, safe⟩ := Safe.transact (lawful_start c c.env.config.fuelLimit tx.size)
    (idle_start _ _) tx
  have run : runTransaction c tx = (.ok r, (runTransaction c tx).2) := Prod.ext h rfl
  exact idle.restored (safe.of_ok run).2.2

end JigLedger.Engine
