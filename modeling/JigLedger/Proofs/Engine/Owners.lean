import JigLedger.Proofs.Engine.Origins
import JigLedger.Proofs.Engine.Placement
import JigLedger.Proofs.Engine.Vetted

/-!
# Jigs that belong to jigs

A jig is given to another one by a request only, and then to the one on whose behalf the code runs
that asks for it. This one has been touched, or it is being constructed; if the transaction
succeeds, its constructor has come to its end and it has been touched, too. So the owner of a
touched jig has been touched, unless the jig has belonged to it all the time since it was loaded.
-/

namespace JigLedger.Engine

open Wasm (Thread)

variable {c : Context} {s t u : Session} {v : Scene} {e : Event} {origin owner : Pointer}

/-! ### Who jigs are given to -/

/-- A jig is given to a jig only by code that runs on behalf of the latter, and a new one belongs to
nobody yet. -/
def Rightful (v : Scene) : Event → Prop
  | .relocked _ lock => ∀ owner, lock = .jig owner → v.caller = .jig owner
  | .made jig => jig.previous = none → jig.lock = .unlocked
  | _ => True

/-- The journal shows the calls of the session, and what happened was rightful. -/
structure Abides (s : Session) : Prop where
  frames : s.scene.frames = s.frames
  rightful : Throughout Rightful s.journal

theorem abides_start (fuel instructions : Nat) : Abides (.start fuel instructions) := ⟨rfl, trivial⟩

namespace Abides

variable (abides : Abides s)

include abides

theorem event (rightful : Rightful s.scene e) (journal : t.journal = e :: s.journal)
    (frames : (s.scene.after e).frames = t.frames) : Abides t where
  frames := by rw [Session.scene, journal]; exact frames
  rightful := by rw [journal]; exact ⟨rightful, abides.rightful⟩

theorem same (journal : t.journal = s.journal) (frames : t.frames = s.frames) : Abides t where
  frames := by rw [frames, ← abides.frames, Session.scene, journal, Session.scene]
  rightful := by rw [journal]; exact abides.rightful

theorem quiet (h : Quiet s t) : Abides t where
  frames := by rw [h.scene, h.frames, abides.frames]
  rightful := by
    obtain ⟨texts, journal⟩ := h.journal
    rw [journal]
    exact throughout_printed (fun _ _ _ => trivial) texts abides.rightful

theorem caller : s.scene.caller = s.caller := by
  have same := abides.frames
  rcases hf : s.frames with _ | ⟨frame, below⟩ <;>
    simp only [Scene.caller, Session.caller, same, hf]

end Abides

/-- What happened in between was rightful, and all calls that were entered have been left. -/
def Abiding (s t : Session) : Prop := Abides s → Abides t ∧ t.frames = s.frames

/-- Something has happened that has nothing to do with calls. -/
theorem Abiding.event (rightful : ∀ v, Rightful v e) (journal : t.journal = e :: s.journal)
    (shown : (s.scene.after e).frames = s.scene.frames) (frames : t.frames = s.frames) :
    Abiding s t := fun abides =>
  ⟨abides.event (rightful _) journal (shown.trans (abides.frames.trans frames.symm)), frames⟩

theorem casual_abiding (c : Context) : Casual c Abiding where
  silent h abides := ⟨abides.quiet h.toQuiet, h.frames⟩
  trans h h' abides := by
    obtain ⟨first, frames⟩ := h abides
    obtain ⟨second, frames'⟩ := h' first
    exact ⟨second, frames'.trans frames⟩
  noted s e notice := by
    cases e
    case printed | invoked | finished | requested | making =>
      exact .event (fun _ => by exact trivial) rfl rfl rfl
    all_goals cases notice
  launched _ _ := .event (e := .launched _) (fun _ => trivial) rfl rfl rfl
  started _ _ := .event (e := .started _) (fun _ => trivial) rfl rfl rfl
  deployed _ _ abides := ⟨abides.same rfl rfl, rfl⟩
  inFrame body := by
    intro s a t run abides
    obtain ⟨u, ran, rfl⟩ := runFrom_inFrame_eq_ok run
    obtain ⟨inner, frames⟩ := body _ _ _ ran
      (abides.event (e := .entered ..) trivial rfl (congrArg (_ :: ·) abides.frames))
    exact ⟨inner.event (e := .left) trivial rfl (congrArg List.tail inner.frames),
      congrArg List.tail frames⟩
  pointed _ _ abides := ⟨abides.same rfl rfl, rfl⟩
  made _ jig new := .event (e := .made jig) (fun _ => new) rfl rfl rfl

/-! ### Replacing locks -/

/-- The jig that a guest gives a jig to is the one on whose behalf it runs. -/
theorem caller_of_requestedLock {home : Nat} {kind data : UInt32}
    (run : runFrom s (requestedLock home kind data) = (.ok (.jig owner), t)) :
    s.caller = .jig owner := by
  unfold requestedLock at run
  split at run
  case h_1 | h_4 | h_5 | h_6 => cases run
  case h_2 =>
    rw [map_eq_pure_bind] at run
    obtain ⟨a, u, -, returned⟩ := runFrom_bind_eq_ok run
    cases returned
  case h_3 =>
    obtain ⟨_, _, looked, giving⟩ := runFrom_bind_eq_ok run
    cases looked
    rcases caller : s.caller with _ | jig <;> simp only [caller] at giving
    · cases giving
    · cases giving
      rfl

/-- A lock is replaced rightfully if the jig is given to nobody but the jig that is running. -/
theorem abiding_changeLock {idx : Nat} {lock : Lock}
    (rightful : ∀ owner, lock = .jig owner → s.caller = .jig owner)
    (run : runFrom s (changeLock c idx lock) = (.ok (), t)) : Abiding s t := by
  obtain ⟨jig, -, -, rfl⟩ := runFrom_changeLock_eq_ok.1 run
  intro abides
  refine ⟨abides.event (e := .relocked idx lock) (fun owner given => ?_) rfl abides.frames, rfl⟩
  rw [abides.caller, rightful owner given]

theorem abiding_pay (origin : Pointer) (idx : Nat) : Leads Abiding (pay c origin idx) := by
  intro s _ t run
  obtain ⟨jig, amount, -, -, -, -, rfl⟩ := runFrom_pay_eq_ok.1 run
  exact .event (e := .spent idx) (fun _ => trivial) rfl rfl rfl

/-- A guest that asks for another lock of a jig can give it only to the jig that is running. -/
theorem abiding_jigLock {inv : Invoker}
    (invoke : ∀ guest errand thread, Leads Abiding (inv c guest errand thread))
    (jig kind data : UInt32) : Leads Abiding ((inv.host c).jigLock jig kind data) := by
  intro s _ t run
  obtain ⟨home, _, called, asking⟩ := runFrom_bind_eq_ok run
  obtain rfl := ReadsOnly.callingHome.of_ok called
  obtain ⟨origin, _, found, requesting⟩ := runFrom_bind_eq_ok asking
  obtain rfl := (ReadsOnly.guestJig home jig).of_ok found
  obtain ⟨lock, _, requested, resolving⟩ := runFrom_bind_eq_ok requesting
  obtain rfl := (ReadsOnly.requestedLock home kind data).of_ok requested
  obtain ⟨idx, u, resolved, changing⟩ := runFrom_bind_eq_ok resolving
  -- The jig is brought into memory first, but after that the same code runs.
  have built : BuiltWith False False inv none fun c => (inv.host c).resolve origin :=
    .resolve origin
  have led := (casual_abiding c).leads built invoke False.elim False.elim _ _ _ resolved
  intro abides
  obtain ⟨abides', frames⟩ := led abides
  have rightful : ∀ owner, lock = .jig owner → u.caller = .jig owner := by
    rintro owner rfl
    rw [← caller_of_requestedLock requested, Session.caller, Session.caller, frames]
  obtain ⟨final, frames'⟩ := abiding_changeLock rightful changing abides'
  exact ⟨final, frames'.trans frames⟩

theorem abiding_invoke (c : Context) (guest : Nat) (errand : Errand) (thread : Thread) :
    Leads Abiding ((host c).invoke guest errand thread) :=
  (casual_abiding c).invoke
    (fun room again =>
      let inv : Invoker := fun c => onErrand (run c room)
      show ∀ jig kind data, Leads Abiding ((inv.host c).jigLock jig kind data) from
        abiding_jigLock again)
    _ guest errand thread

/-- An instruction gives no jig to another one itself. -/
theorem abiding_instruction (c : Context) (i : Instruction) :
    Leads Abiding ((host c).instruction i) := by
  have casual := casual_abiding c
  by_cases locks : i.opcode = .lock
  case neg =>
    have built : BuiltWith True False invoker none fun c => (invoker.host c).instruction i :=
      .instruction i (fun _ => trivial) locks
    exact casual.leads built (abiding_invoke c) False.elim fun _ => abiding_pay
  case pos =>
    cases i <;> cases locks
    case lock jig spec =>
    intro s _ t run
    obtain ⟨-, performed⟩ := runFrom_instruction_eq_ok run
    obtain ⟨_, u, locked, returned⟩ := runFrom_bind_eq_ok performed
    cases returned
    obtain ⟨origin, _, found, resolving⟩ := runFrom_bind_eq_ok locked
    obtain rfl := (ReadsOnly.jigStatement jig).of_ok found
    obtain ⟨idx, v, resolved, specifying⟩ := runFrom_bind_eq_ok resolving
    obtain ⟨lock, _, specified, changing⟩ := runFrom_bind_eq_ok specifying
    obtain ⟨named, rfl⟩ := runFrom_orError_eq_ok.1 specified
    have built : BuiltWith False False invoker none fun c => (invoker.host c).resolve origin :=
      .resolve origin
    have led := casual.leads built (abiding_invoke c) False.elim False.elim _ _ _ resolved
    refine casual.trans led (abiding_changeLock (fun owner given => ?_) changing)
    cases spec <;> cases named <;> cases given

theorem abiding_steps (c : Context) : ∀ (instructions : List Instruction) (idx : Nat),
    Leads Abiding (steps (host c) idx instructions)
  | [], _ => .reads (casual_abiding c).toLenient (.pure _)
  | i :: rest, idx => by
    intro s fuels t run
    obtain ⟨fuel, u, second, here, others⟩ := runFrom_steps_cons_eq_ok run
    obtain ⟨statement, v, performed, rfl⟩ := runFrom_step_eq_ok here
    have casual := casual_abiding c
    have began : Abiding s (s.began idx) := .event (e := .began idx) (fun _ => trivial) rfl rfl rfl
    have noted : Abiding v { v with statements := v.statements ++ [statement] } :=
      fun abides => ⟨abides.same rfl rfl, rfl⟩
    have first := casual.trans began
      (casual.trans (abiding_instruction c i _ _ _ performed) noted)
    exact casual.trans first (abiding_steps c rest (idx + 1) _ _ _ others)

/-- In a transaction that succeeds jigs are given away rightfully. -/
theorem rightful_of_run {tx : Transaction} {r : ExecutionResult}
    (run : runTransaction c tx = (.ok r, s)) : Throughout Rightful s.journal := by
  obtain ⟨fuels, v, ls, ran, settled, -, -⟩ := settled_of_run run
  have quiet := Quietly.mapM (Quietly.settle c) v.jigs v
  rw [settled] at quiet
  obtain ⟨abides, -⟩ := abiding_steps c tx.instructions 0 _ _ _ ran (abides_start _ _)
  exact (abides.quiet quiet).rightful

/-! ### Who is there -/

/-- A jig has been touched, or it is being made. -/
def Scene.Has (v : Scene) (origin : Pointer) : Prop := origin ∈ v.origins ∨ origin ∈ v.making

/-- Whoever was there still is: a jig that has been made has been touched. -/
theorem Scene.Has.after (keyed : c.env.store.Keyed) (h : v.Has origin) (due : Due c v e) :
    (v.after e).Has origin := by
  have origins := v.origins_after e
  rcases h with touched | making
  · exact .inl (by rw [origins]; exact List.mem_append_left _ touched)
  · cases e
    case making other => exact .inr (.tail _ making)
    case made jig =>
      obtain ⟨asked, head, made⟩ := due
      obtain ⟨more, hm⟩ := List.head?_eq_some_iff.1 head
      rw [hm] at making
      rcases List.mem_cons.1 making with rfl | later
      · refine .inl ?_
        rw [origins]
        exact List.mem_append_right _ (List.mem_singleton.2 (made.origin_eq keyed).symm)
      · exact .inr (by rw [Scene.after, hm]; exact later)
    all_goals exact .inr making

/-- The lock of a jig is that of an output that it may have been loaded from. -/
def Inherits (c : Context) (jig : TouchedJig) : Prop :=
  ∃ o, Stored c o ∧ o.origin = jig.origin ∧ Host.storedLock o = .ok jig.lock

/-- Code runs on behalf of jigs that are there, and jigs belong to jigs that are there, unless they
have belonged to them since they were loaded. -/
structure Scene.Owned (c : Context) (v : Scene) : Prop where
  frames : ∀ frame ∈ v.frames, ∀ owner, frame.identity = .jig owner → v.Has owner
  jigs : ∀ jig ∈ v.jigs, ∀ owner, jig.lock = .jig owner → v.Has owner ∨ Inherits c jig

namespace Scene.Owned

variable (h : v.Owned c)

include h

/-- Whoever runs is there. -/
theorem caller (running : v.caller = .jig owner) : v.Has owner := by
  rw [Scene.caller] at running
  split at running
  case h_1 => cases running
  case h_2 frame below frames => exact h.frames frame (by rw [frames]; exact .head _) owner running

/-- Nothing changes but the jigs, and of these only locks, of which none is given to a jig that is
not there. -/
theorem withLock {idx : Nat} {lock : Lock} (given : ∀ owner, lock = .jig owner → v.Has owner) :
    (v.withLock idx lock).Owned c := by
  have has (origin : Pointer) : (v.withLock idx lock).Has origin ↔ v.Has origin := by
    rw [Scene.Has, Scene.origins, Scene.withLock, map_origin_modify_lock]
    rfl
  refine ⟨fun frame hf owner running => (has owner).2 (h.frames frame hf owner running), ?_⟩
  intro jig hj owner locked
  rw [has]
  obtain ⟨i, hi⟩ := List.mem_iff_getElem?.1 hj
  rw [Scene.withLock, List.getElem?_modify] at hi
  obtain ⟨old, ho, rfl⟩ := Option.map_eq_some_iff.1 hi
  split at locked
  case isTrue => exact .inl (given owner locked)
  case isFalse other =>
    rw [if_neg other]
    exact h.jigs old (List.mem_of_getElem? ho) owner locked

/-- Whatever happens rightfully leaves jigs that belong to jigs that are there. -/
theorem after (keyed : c.env.store.Keyed) (due : Due c v e) (rightful : Rightful v e) :
    (v.after e).Owned c := by
  have has {origin : Pointer} (there : v.Has origin) : (v.after e).Has origin :=
    there.after keyed due
  have frames : ∀ frame ∈ v.frames, ∀ owner, frame.identity = .jig owner → (v.after e).Has owner :=
    fun frame hf owner running => has (h.frames frame hf owner running)
  have jigs : ∀ jig ∈ v.jigs, ∀ owner, jig.lock = .jig owner →
      (v.after e).Has owner ∨ Inherits c jig :=
    fun jig hj owner locked => (h.jigs jig hj owner locked).imp_left has
  cases e
  case relocked idx lock => exact h.withLock fun owner given => h.caller (rightful owner given)
  case spent idx => exact h.withLock nofun
  case made jig =>
    refine ⟨frames, fun j hj owner locked => ?_⟩
    rcases List.mem_append.1 hj with hj | hj
    · exact jigs j hj owner locked
    · obtain rfl := List.mem_singleton.1 hj
      obtain ⟨asked, -, made⟩ := due
      cases made with
      | constructed _ new =>
        rw [rightful new] at locked
        cases locked
      | latest o stored loaded =>
        exact .inr ⟨o, .inl ⟨asked, stored⟩, loaded.origin.symm, loaded.lock⟩
      | located o location stored _ loaded =>
        exact .inr ⟨o, .inr ⟨location, stored⟩, loaded.origin.symm, loaded.lock⟩
  case entered entry frame callee args =>
    refine ⟨fun f hf owner running => ?_, jigs⟩
    rcases List.mem_cons.1 hf with rfl | hf
    · refine has ?_
      obtain ⟨admits, -⟩ := due
      cases entry with
      | constructor =>
        obtain ⟨origin, head, named⟩ := admits
        obtain rfl : origin = owner := Caller.jig.inj (named.symm.trans running)
        exact .inr (List.mem_of_mem_head? head)
      | method idx =>
        obtain ⟨jig, hj, rfl, -⟩ := admits
        cases running
        exact .inl (List.mem_map_of_mem (List.mem_of_getElem? hj))
      | function => exact h.caller (admits.symm.trans running)
    · exact frames f hf owner running
  case left => exact ⟨fun frame hf => frames frame (List.mem_of_mem_tail hf), jigs⟩
  all_goals exact ⟨frames, jigs⟩

end Scene.Owned

/-- When a transaction succeeds, the owner of a touched jig has been touched, or the jig has had
this lock since it was loaded. -/
theorem owner_of_run {tx : Transaction} {r : ExecutionResult} (keyed : c.env.store.Keyed)
    (run : runTransaction c tx = (.ok r, s)) {jig : TouchedJig} (hj : jig ∈ s.jigs)
    (locked : jig.lock = .jig owner) :
    (∃ other ∈ s.jigs, other.origin = owner) ∨ Inherits c jig := by
  have lawful := lawful_of_run run
  have both : Throughout (fun v e => Due c v e ∧ Rightful v e) s.journal :=
    lawful.due.and (rightful_of_run run)
  have owned : s.scene.Owned c :=
    both.scene ⟨nofun, nofun⟩ fun v e h each => h.after keyed each.1 each.2
  have ended : s.scene.making = [] := by
    have idle : Idle (runTransaction c tx).2 := idle_runTransaction (r := r) (by rw [run])
    rw [run] at idle
    exact idle.making
  rw [← lawful.shows.jigs] at hj ⊢
  refine (owned.jigs jig hj owner locked).imp_left fun has => ?_
  rcases has with touched | making
  · exact List.mem_map.1 touched
  · rw [ended] at making
    cases making

end JigLedger.Engine
