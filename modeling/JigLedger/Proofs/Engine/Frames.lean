import JigLedger.Proofs.Engine.Success

/-!
# The stack of calls

Whatever succeeds leaves the stack of calls as it found it, however deep the calls are in which it
is done and whatever guests ask for meanwhile. So a call takes off the frame that it has put there,
nothing is on the stack between two instructions, and there is never more on it than may be.
-/

namespace JigLedger.Engine

variable {α : Type} {c : Context} {s t : Session}

/-! ### Frames stay -/

/-- The stack of calls is the same. -/
def SameFrames (s t : Session) : Prop := t.frames = s.frames

theorem oblivious_sameFrames (c : Context) : Oblivious c SameFrames where
  silent h := h.frames
  trans h h' := Eq.trans h' h
  noted _ _ _ := rfl
  launched _ _ := rfl
  started _ _ := rfl
  deployed _ _ := rfl
  relocked _ _ _ := rfl
  inFrame body := by
    intro s a t run
    obtain ⟨u, ran, rfl⟩ := runFrom_inFrame_eq_ok run
    exact congrArg List.tail (body _ _ _ ran)
  pointed _ _ := rfl
  made _ _ _ := rfl

/-- How guests are run with so much room. -/
def invokerOf (room : Nat) : Invoker := fun c => onErrand (run c room)

/-- Whatever is done with any room for guests leaves the stack of calls as it was. -/
theorem Built.sameFrames {room : Nat} {top : Option Nat} {m : Context → Engine α}
    (h : Built (invokerOf room) top m) : Leads SameFrames (m c) :=
  have hR := oblivious_sameFrames c
  hR.toCasual.leads h (hR.invoke room) (fun _ => hR.changeLock) fun _ origin idx s _ t run => by
    obtain ⟨jig, amount, -, -, -, -, rfl⟩ := runFrom_pay_eq_ok.1 run
    exact rfl

/-- When something has run in a frame that was put on the stack of a session for it, there is a
frame to take off, and then the stack is that of the session again. -/
def ReturnsTo (s : Session) (body : Engine α) : Prop :=
  ∀ entry frame callee args a u, runFrom (s.entered entry frame callee args) body = (.ok a, u) →
    runFrom u popFrame = (.ok (), u.left) ∧ u.left.frames = s.frames

theorem ReturnsTo.of_built {room : Nat} {top : Option Nat} {m : Context → Engine α}
    (h : Built (invokerOf room) top m) (s : Session) : ReturnsTo s (m c) := by
  intro entry frame callee args a u run
  have frames : u.frames = frame :: s.frames := h.sameFrames _ _ _ run
  refine ⟨?_, congrArg List.tail frames⟩
  rw [runFrom_popFrame, if_neg (by simp [frames])]

/-- When something succeeds, the stack of calls is as it was, and so is the identity on whose behalf
code runs. -/
def Preserves (s : Session) (m : Engine α) : Prop :=
  ∀ a t, runFrom s m = (.ok a, t) → t.frames = s.frames ∧ t.caller = s.caller

theorem Preserves.of_built {room : Nat} {m : Context → Engine α} (h : Built (invokerOf room) none m)
    (s : Session) : Preserves s (m c) := by
  intro a t run
  have frames : t.frames = s.frames := h.sameFrames _ _ _ run
  exact ⟨frames, by rw [Session.caller, Session.caller, frames]⟩

/-- Calls from a session leave its stack as it was, and a frame that they take off is always
there. -/
structure Balanced (h : Host) (s : Session) : Prop where
  construct : ∀ home classIdx args, Preserves s (h.construct home classIdx args)
  callMethod : ∀ idx callee args, Preserves s (h.callMethod idx callee args)
  callFunction : ∀ home callee args, Preserves s (h.callFunction home callee args)
  /-- What runs in the frame of a constructor. -/
  callConstructor : ∀ home cls args, ReturnsTo s (h.callConstructor home cls args)
  /-- What runs in the frame of a method or a function. -/
  callWith : ∀ home callee receiver args, ReturnsTo s (h.callWith home callee receiver args)

/-- All calls are balanced, with any room for guests and from any session. -/
theorem balanced (c : Context) (room : Nat) (s : Session) :
    Balanced ((invokerOf room).host c) s where
  construct home classIdx args := .of_built (.constructJig home classIdx args) s
  callMethod idx callee args := .of_built (.callMethod idx callee args) s
  callFunction home callee args := .of_built (.callFunction home callee args) s
  callConstructor home cls args := .of_built (.callConstructor home cls args) s
  callWith home callee receiver args := .of_built (.callWith home callee receiver args) s

/-! ### The depth of the stack -/

/-- No event puts more on the stack than may be there. -/
theorem Due.depth {v : Scene} {e : Event} (due : Due c v e)
    (h : v.frames.length ≤ c.env.config.maxCallDepth) :
    (v.after e).frames.length ≤ c.env.config.maxCallDepth := by
  cases e with
  | entered => exact due.2
  | left =>
    rw [Scene.after, List.length_tail]
    omega
  | _ => exact h

/-- The stack of calls is sound throughout a transaction. At every point of what happens in it there
are no more frames than may be, and none where an instruction begins; none is left when all
instructions have succeeded; and the calls that instructions and guests make are balanced, with
whatever room guests run. -/
theorem frames_disciplined (c : Context) (tx : Transaction) :
    (∀ past, past <:+ (runTransaction c tx).2.journal →
      (Scene.of past).frames.length ≤ c.env.config.maxCallDepth) ∧
    (runTransaction c tx).2.frames.length ≤ c.env.config.maxCallDepth ∧
    (∀ idx past, .began idx :: past <:+ (runTransaction c tx).2.journal →
      (Scene.of past).frames = []) ∧
    (∀ fuel t, runFrom (.start c.env.config.fuelLimit tx.size) (steps (host c) 0 tx.instructions) =
      (.ok fuel, t) → t.frames = []) ∧
    ∀ room s, Balanced ⟨c, onErrand (run c room)⟩ s := by
  have lawful := lawful_runTransaction c tx
  have depth (past : List Event) (hs : past <:+ (runTransaction c tx).2.journal) :
      (Scene.of past).frames.length ≤ c.env.config.maxCallDepth :=
    (lawful.due.of_suffix hs).scene (I := fun v => v.frames.length ≤ c.env.config.maxCallDepth)
      (Nat.zero_le _) fun v e h due => due.depth h
  refine ⟨depth, ?_, fun idx past hs => ?_, fun fuel t run => ?_, balanced c⟩
  · rw [← lawful.shows.frames]
    exact depth _ List.suffix_rfl
  · exact (Throughout.iff_suffix.1 lawful.due _ past hs).1
  · obtain ⟨s₀, idle, safe⟩ := Safe.steps tx.instructions 0 _
      (lawful_start c c.env.config.fuelLimit tx.size) (idle_start _ _)
    obtain ⟨lawful, -, restored⟩ := safe.of_ok run
    rw [← lawful.shows.frames]
    exact (idle.restored restored).frames

end JigLedger.Engine
