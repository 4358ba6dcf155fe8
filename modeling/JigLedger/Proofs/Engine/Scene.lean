import JigLedger.Engine.Execution

/-!
# Scenes

The journal of a session says what happened, the latest first. Playing it from the start gives the
scene at each of its events: the touched jigs with their locks, the stack of calls, the packages
that run, and whatever had been begun and was not yet over. A scene is put together from events
alone, so what is said about it does not depend on the code that wrote the journal.
-/

namespace JigLedger.Engine

/-- A guest whose code runs, and what for. -/
structure Activity where
  guest : Nat
  errand : Errand
deriving DecidableEq, Repr

/-- What the events so far have come to. -/
structure Scene where
  /-- The index of the instruction that runs. -/
  current : Nat
  /-- The stack of calls, the innermost first. -/
  frames : List Frame
  jigs : List TouchedJig
  instances : List PackageInstance
  /-- The number of guests. -/
  guests : Nat
  /-- The origins of the jigs that are being made, the one begun last first. -/
  making : List Pointer
  /-- The guests whose packages do not run yet, the one launched last first. -/
  starting : List Nat
  /-- The guests whose code runs, the innermost first. -/
  running : List Activity

namespace Scene

/-- The scene before anything happened. -/
def empty : Scene := ⟨0, [], [], [], 0, [], [], []⟩

/-- The identity on top of the stack of calls. -/
def caller (v : Scene) : Caller :=
  match v.frames with
  | [] => .transaction
  | frame :: _ => frame.identity

/-- What locks see in a scene. -/
def authority (v : Scene) (c : Context) : Authority where
  caller := v.caller
  isSignedBy a := c.signers.any fun signer =>
    signer.address = a && signer.coverage.covers v.current

/-- The guest of the package with an index. -/
def guestOf? (v : Scene) (home : Nat) : Option Nat := v.instances[home]?.map (·.guest)

/-- A touched jig has a new lock; nothing else about it changes. -/
def withLock (v : Scene) (idx : Nat) (lock : Lock) : Scene :=
  { v with jigs := v.jigs.modify idx fun j => { j with lock := lock } }

/-- The scene after one more event. -/
def after (v : Scene) : Event → Scene
  | .began idx => { v with current := idx }
  | .printed _ _ => v
  | .launched guest => { v with guests := v.guests + 1, starting := guest :: v.starting }
  | .started inst =>
    { v with instances := v.instances ++ [inst], starting := v.starting.tail }
  | .invoked guest errand => { v with running := ⟨guest, errand⟩ :: v.running }
  | .finished => { v with running := v.running.tail }
  | .requested _ _ _ => v
  | .making origin => { v with making := origin :: v.making }
  | .made jig => { v with jigs := v.jigs ++ [jig], making := v.making.tail }
  | .entered _ frame _ _ => { v with frames := frame :: v.frames }
  | .left => { v with frames := v.frames.tail }
  | .relocked idx lock => v.withLock idx lock
  | .spent idx => v.withLock idx .frozen

/-- The scene after the events of a journal, the latest of which comes first. -/
def of : List Event → Scene
  | [] => empty
  | e :: past => (of past).after e

@[simp] theorem of_cons (e : Event) (past : List Event) : of (e :: past) = (of past).after e := rfl

end Scene

/-- A session is what a scene shows. -/
structure Shows (v : Scene) (s : Session) : Prop where
  current : v.current = s.current
  frames : v.frames = s.frames
  jigs : v.jigs = s.jigs
  instances : v.instances = s.instances
  guests : v.guests = s.guests.length

namespace Shows

variable {v : Scene} {s : Session}

theorem caller (h : Shows v s) : v.caller = s.caller := by
  have same := h.frames
  rcases hf : s.frames with _ | ⟨frame, below⟩ <;>
    simp only [Scene.caller, Session.caller, same, hf]

theorem authority (h : Shows v s) (c : Context) : v.authority c = s.authority c := by
  rw [Scene.authority, Session.authority, h.caller, h.current]

theorem guestOf? (h : Shows v s) {home : Nat} {inst : PackageInstance}
    (hi : s.instances[home]? = some inst) : v.guestOf? home = some inst.guest := by
  rw [Scene.guestOf?, h.instances, hi, Option.map_some]

/-- A session shows the same when none of these parts has changed. -/
theorem of_eq {t : Session} (h : Shows v s) (current : t.current = s.current)
    (frames : t.frames = s.frames) (jigs : t.jigs = s.jigs) (instances : t.instances = s.instances)
    (guests : t.guests.length = s.guests.length) : Shows v t where
  current := h.current.trans current.symm
  frames := h.frames.trans frames.symm
  jigs := h.jigs.trans jigs.symm
  instances := h.instances.trans instances.symm
  guests := h.guests.trans guests.symm

end Shows

/-! ### What holds at every event of a journal -/

/-- Something holds of every event of a journal and the scene in which it happened. -/
def Throughout (P : Scene → Event → Prop) : List Event → Prop
  | [] => True
  | e :: past => P (Scene.of past) e ∧ Throughout P past

namespace Throughout

variable {P Q : Scene → Event → Prop} {journal past : List Event} {e : Event}

@[simp] theorem nil : Throughout P [] := trivial

theorem imp (hpq : ∀ v e, P v e → Q v e) : ∀ {journal}, Throughout P journal → Throughout Q journal
  | [], _ => trivial
  | _ :: _, h => ⟨hpq _ _ h.1, imp hpq h.2⟩

theorem and : ∀ {journal}, Throughout P journal → Throughout Q journal →
    Throughout (fun v e => P v e ∧ Q v e) journal
  | [], _, _ => trivial
  | _ :: _, h, h' => ⟨⟨h.1, h'.1⟩, and h.2 h'.2⟩

/-- It held throughout an earlier journal. -/
theorem of_suffix (h : Throughout P journal) (hs : past <:+ journal) : Throughout P past := by
  obtain ⟨later, rfl⟩ := hs
  induction later with
  | nil => exact h
  | cons _ later ih => exact ih h.2

theorem iff_suffix :
    Throughout P journal ↔ ∀ e past, e :: past <:+ journal → P (Scene.of past) e := by
  constructor
  · intro h e past hs
    exact (h.of_suffix hs).1
  · intro h
    induction journal with
    | nil => trivial
    | cons e past ih =>
      exact ⟨h e past List.suffix_rfl, ih fun e' past' hs => h e' past' (hs.trans ⟨[e], rfl⟩)⟩

/-- What holds at the start and is preserved by every event holds of the scene afterwards. -/
theorem scene {I : Scene → Prop} (start : I .empty)
    (step : ∀ v e, I v → P v e → I (v.after e)) :
    ∀ {journal}, Throughout P journal → I (Scene.of journal)
  | [], _ => start
  | _ :: _, h => step _ _ (scene start step h.2) h.1

end Throughout

end JigLedger.Engine
