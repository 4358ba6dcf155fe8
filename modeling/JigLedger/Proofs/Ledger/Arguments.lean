import JigLedger.Proofs.Engine.Recall
import JigLedger.Proofs.Engine.Vetted
import JigLedger.Proofs.Ledger.Conformance

/-!
# Jigs among the arguments of instructions

A transaction can name any jig by its bytes, but only instructions that load or make a jig turn a
name into a reference. The arguments of a call get their jigs from the statements of earlier
instructions; bytes become values without any. Instructions call from outside, while no frame is on
the stack, and nothing else does: the requests of guests are refused there. So it is enough to
follow the journal and to see what an instruction has resolved before it enters a call.
-/

namespace JigLedger

/-- The arguments of an instruction that constructs a jig, or calls a method or a function. -/
def Instruction.args? : Instruction → Option (List Arg)
  | new _ _ args | exec _ _ args | execFunction _ _ args => some args
  | _ => none

namespace Engine

variable {α β : Type} {c : Context} {tx : Transaction} {s t : Session}

/-- A jig occurs in a statement: it is the jig, or a value that names the jig somewhere. -/
inductive Statement.Mentions : Statement → Pointer → Prop
  | jig (origin : Pointer) : Mentions (.jig origin) origin
  | value {ty : Ty} {v : Value} {path : List Value.Step} {origin : Pointer}
      (h : v.Names path origin) : Mentions (.value ty v) origin

/-- What an argument of the instruction with an index became. Bytes became a value without jigs; a
reference became a value whose jigs occur in the statement that an earlier instruction has given. -/
inductive Becomes (c : Context) (tx : Transaction) (idx : Nat) : Arg → Value → Prop
  | value (bytes : Bytes) {v : Value} (none : ∀ path origin, ¬ v.Names path origin) :
      Becomes c tx idx (.value bytes) v
  | ref (k : UInt16) {v : Value} {statement : Statement} (earlier : k.toNat < idx)
      (gives : Gives c tx k.toNat statement)
      (mentions : ∀ path origin, v.Names path origin → statement.Mentions origin) :
      Becomes c tx idx (.ref k) v

/-- The instruction with an index calls, and its arguments became the given values. -/
def Passes (c : Context) (tx : Transaction) (idx : Nat) (values : List Value) : Prop :=
  ∃ i args, tx.instructions[idx]? = some i ∧ i.args? = some args ∧
    List.Forall₂ (Becomes c tx idx) args values

/-! ### Resolving arguments -/

/-- Bytes never become a jig. -/
theorem not_names_of_argValue {param : Field} {bytes : Bytes} {v : Value}
    (run : runFrom s (argValue param (.value bytes)) = (.ok v, t)) (path : List Value.Step)
    (origin : Pointer) : ¬ v.Names path origin := by
  unfold argValue at run
  dsimp only at run
  split at run
  case isTrue => cases run
  case isFalse jigless =>
    have decoded := (runFrom_orError_eq_ok.1 run).1
    exact Ty.not_names_of_decode (Bool.eq_false_iff.2 jigless) decoded path origin

theorem becomes_of_argValue (recalls : Recalls c tx s) {param : Field} {arg : Arg} {v : Value}
    (run : runFrom s (argValue param arg) = (.ok v, t)) : Becomes c tx s.current arg v := by
  cases arg with
  | value bytes => exact .value bytes (not_names_of_argValue run)
  | ref k =>
    obtain ⟨statement, _, found, rest⟩ := runFrom_bind_eq_ok run
    obtain ⟨_, _, looked, there⟩ := runFrom_bind_eq_ok found
    cases looked
    obtain ⟨here, rfl⟩ := runFrom_orMissing_eq_ok.1 there
    obtain ⟨earlier, gives⟩ := recalls _ _ here
    refine .ref k earlier gives fun path origin names => ?_
    cases statement with
    | jig =>
      cases rest
      cases names
      exact .jig _
    | value =>
      cases rest
      exact .value names
    | package | nothing => cases rest

theorem becomes_of_argValues : ∀ {params : List Field} {args : List Arg} {values : List Value}
    {s t : Session}, Recalls c tx s → params.length = args.length →
      runFrom s (argValues params args) = (.ok values, t) →
        List.Forall₂ (Becomes c tx s.current) args values
  | [], [], _, _, _, _, _, run => by
    cases run
    exact .nil
  | param :: params, arg :: args, _, s, _, recalls, length, run => by
    obtain ⟨v, _, here, checking⟩ := runFrom_bind_eq_ok run
    obtain rfl := (ReadsOnly.argValue param arg).of_ok here
    obtain ⟨_, _, checked, rest⟩ := runFrom_bind_eq_ok checking
    obtain ⟨-, rfl⟩ := runFrom_orError_eq_ok.1 checked
    obtain ⟨values, _, others, returned⟩ := runFrom_bind_eq_ok rest
    cases returned
    exact .cons (becomes_of_argValue recalls here)
      (becomes_of_argValues recalls (Nat.succ.inj length) others)

theorem becomes_of_checkedArgs (recalls : Recalls c tx s) {params : List Field} {args : List Arg}
    {values : List Value} (run : runFrom s (checkedArgs c params args) = (.ok values, t)) :
    List.Forall₂ (Becomes c tx s.current) args values := by
  obtain ⟨found, _, resolved, rest⟩ := runFrom_bind_eq_ok run
  obtain ⟨_, _, -, returned⟩ := runFrom_bind_eq_ok rest
  cases returned
  unfold resolveArgs at resolved
  split at resolved
  · exact becomes_of_argValues recalls ‹_› resolved
  · cases resolved

/-! ### Calls from outside -/

/-- What a call from outside is given has been passed by the instruction that runs. -/
def Hands (c : Context) (tx : Transaction) (v : Scene) : Event → Prop
  | .entered _ _ _ values => v.frames = [] → Passes c tx v.current values
  | _ => True

theorem Hands.of_isInert {v : Scene} {e : Event} (inert : e.isInert = true) : Hands c tx v e := by
  cases e
  case entered => cases inert
  all_goals trivial

/-- Events that neither begin an instruction nor have to do with frames do not change either. -/
theorem Scene.after_of_isInert (v : Scene) {e : Event} (inert : e.isInert = true) :
    (v.after e).current = v.current ∧ (v.after e).frames = v.frames := by
  cases e
  case began | entered | left => cases inert
  all_goals exact ⟨rfl, rfl⟩

/-- A session whose journal shows which instruction runs and in which frames, and in which all calls
from outside were given what an instruction has passed. -/
structure Handed (c : Context) (tx : Transaction) (s : Session) : Prop where
  current : s.scene.current = s.current
  frames : s.scene.frames = s.frames
  hands : Throughout (Hands c tx) s.journal

theorem handed_start (c : Context) (tx : Transaction) (fuel instructions : Nat) :
    Handed c tx (.start fuel instructions) := ⟨rfl, rfl, trivial⟩

namespace Handed

variable (handed : Handed c tx s)

include handed

/-- An event that hands over what was passed, if anything, and changes a session accordingly. -/
theorem event {e : Event} (hands : Hands c tx s.scene e) (journal : t.journal = e :: s.journal)
    (current : (s.scene.after e).current = t.current)
    (frames : (s.scene.after e).frames = t.frames) : Handed c tx t where
  current := by rw [Session.scene, journal]; exact current
  frames := by rw [Session.scene, journal]; exact frames
  hands := by rw [journal]; exact ⟨hands, handed.hands⟩

theorem began (idx : Nat) : Handed c tx (s.began idx) :=
  handed.event (e := .began idx) trivial rfl rfl handed.frames

theorem left : Handed c tx s.left :=
  handed.event (e := .left) trivial rfl handed.current (congrArg List.tail handed.frames)

theorem entered {entry : Entry} {frame : Frame} {callee : Abi.Callable} {values : List Value}
    (passes : s.frames = [] → Passes c tx s.current values) :
    Handed c tx (s.entered entry frame callee values) := by
  refine handed.event (fun frameless => ?_) rfl handed.current
    (congrArg (frame :: ·) handed.frames)
  rw [handed.current]
  exact passes (handed.frames.symm.trans frameless)

/-- Several of these events change nothing. -/
theorem inert {events : List Event} (journal : t.journal = events ++ s.journal)
    (inert : ∀ e ∈ events, e.isInert = true) (current : t.current = s.current)
    (frames : t.frames = s.frames) : Handed c tx t := by
  induction events generalizing t with
  | nil =>
    have same : t.scene = s.scene := congrArg Scene.of journal
    exact ⟨by rw [same, handed.current, current], by rw [same, handed.frames, frames],
      journal ▸ handed.hands⟩
  | cons e events ih =>
    have before := @ih { t with journal := events ++ s.journal } rfl
      (fun e mem => inert e (.tail _ mem)) current frames
    obtain ⟨sameCurrent, sameFrames⟩ := Scene.after_of_isInert _ (inert e (.head _))
    exact before.event (.of_isInert (inert e (.head _))) journal
      (sameCurrent.trans before.current) (sameFrames.trans before.frames)

end Handed

/-- What is done leaves all calls from outside given what was passed. -/
def Undisturbed (c : Context) (tx : Transaction) (s t : Session) : Prop :=
  Handed c tx s → Handed c tx t

theorem tolerant_undisturbed (c : Context) (tx : Transaction) : Tolerant (Undisturbed c tx) where
  inert _ journal inert current frames handed := handed.inert journal inert current frames
  trans h h' handed := h' (h handed)

/-- From a session with frames on there are no calls from outside, and the frames stay where they
are, below those of further calls. -/
def Sheltered (c : Context) (tx : Transaction) (s t : Session) : Prop :=
  s.frames ≠ [] → Handed c tx s → Handed c tx t ∧ s.frames <:+ t.frames

/-- What is below an item stays a suffix when the first item of the list goes. -/
theorem suffix_tail_of_cons {a : α} {below items : List α} (h : a :: below <:+ items) :
    below <:+ items.tail := by
  obtain ⟨above, rfl⟩ := h
  cases above with
  | nil => exact List.suffix_rfl
  | cons _ above => exact ⟨above ++ [a], by simp⟩

/-- A call in a frame hands over its arguments. -/
theorem Handed.inFrame (handed : Handed c tx s) {entry : Entry} {frame : Frame}
    {callee : Abi.Callable} {values : List Value} {body : Engine α}
    (passes : s.frames = [] → Passes c tx s.current values)
    (sheltered : Ends (Sheltered c tx) body) :
    Handed c tx (runFrom s (inFrame c entry frame callee values body)).2 ∧
      s.frames <:+ (runFrom s (inFrame c entry frame callee values body)).2.frames := by
  rw [Engine.inFrame, runFrom_bind, runFrom_pushFrame]
  by_cases room : s.frames.length < c.env.config.maxCallDepth
  case neg =>
    rw [if_neg room]
    exact ⟨handed, List.suffix_rfl⟩
  case pos =>
    rw [if_pos room]
    have inner := sheltered (s.entered entry frame callee values) (List.cons_ne_nil _ _)
      (handed.entered passes)
    dsimp only
    rw [runFrom_bind]
    rcases run : runFrom (s.entered entry frame callee values) body with ⟨e | a, t⟩ <;>
      rw [run] at inner <;> obtain ⟨handed', suffix⟩ := inner
    · exact ⟨handed', (List.suffix_cons _ _).trans suffix⟩
    · -- The frame of the call is still there, so what is popped is not below it.
      have framed : t.frames ≠ [] := fun none =>
        List.cons_ne_nil frame s.frames (List.suffix_nil.1 (none ▸ suffix))
      dsimp only
      rw [runFrom_bind, runFrom_popFrame, if_neg framed]
      exact ⟨handed'.left, suffix_tail_of_cons suffix⟩

theorem unruffled_sheltered (c : Context) (tx : Transaction) : Unruffled c (Sheltered c tx) where
  inert _ journal inert current frames _ handed :=
    ⟨handed.inert journal inert current frames, frames ▸ List.suffix_rfl⟩
  trans := by
    intro s t u h h' framed handed
    obtain ⟨handed', suffix⟩ := h framed handed
    have framed' : t.frames ≠ [] := fun none => framed (List.suffix_nil.1 (none ▸ suffix))
    obtain ⟨handed'', suffix'⟩ := h' framed' handed'
    exact ⟨handed'', suffix.trans suffix'⟩
  inFrame body _ framed handed :=
    handed.inFrame (fun frameless => absurd frameless framed) body

/-- What is built may run in a frame. -/
theorem Built.sheltered {top : Option Nat} {m : Context → Engine α} (h : Built invoker top m) :
    Ends (Sheltered c tx) (m c) :=
  h.ends (unruffled_sheltered c tx) (Ends.guest (unruffled_sheltered c tx) _)

/-- A guest that runs does not call from outside: without a frame its requests are refused. -/
theorem Ends.undisturbed_invoke (guest : Nat) (errand : Errand) (thread : Wasm.Thread) :
    Ends (Undisturbed c tx) ((host c).invoke guest errand thread) := by
  have enduring := (tolerant_undisturbed c tx).enduring
  refine .onErrand enduring (.run enduring (fun room _ function args s handed => ?_) _)
    guest errand thread
  by_cases frames : s.frames = []
  · rw [snd_answer_of_frameless _ function args frames]
    exact handed
  · let inv : Invoker := fun c => Engine.onErrand (Engine.run c room)
    have built : Built inv none fun c => (inv.host c).answer function args := .answer function args
    exact (built.ends (unruffled_sheltered c tx) (Ends.guest (unruffled_sheltered c tx) room) s
      frames handed).1

/-! ### Instructions that call -/

namespace Handed

/-- However a computation in two parts ends. -/
theorem bind {m : Engine α} {f : α → Engine β} (first : Handed c tx (runFrom s m).2)
    (rest : ∀ a t, runFrom s m = (.ok a, t) → Handed c tx t → Handed c tx (runFrom t (f a)).2) :
    Handed c tx (runFrom s (m >>= f)).2 := by
  rw [runFrom_bind]
  rcases run : runFrom s m with ⟨e | a, t⟩ <;> rw [run] at first
  · exact first
  · exact rest a t run first

variable (handed : Handed c tx s)

include handed

theorem reading {m : Engine α} {f : α → Engine β} (reads : ReadsOnly m)
    (rest : ∀ a, runFrom s m = (.ok a, s) → Handed c tx (runFrom s (f a)).2) :
    Handed c tx (runFrom s (m >>= f)).2 := by
  refine bind ((reads s).symm ▸ handed) fun a t run _ => ?_
  obtain rfl := reads.of_ok run
  exact rest a run

/-- A computation that does not call, whose statements are still there for the rest. -/
theorem keeping {m : Context → Engine α} {f : α → Engine β}
    (undisturbed : Ends (Undisturbed c tx) (m c)) (built : Built invoker none m)
    (rest : ∀ a t, Handed c tx t → Keeps s t → Handed c tx (runFrom t (f a)).2) :
    Handed c tx (runFrom s (m c >>= f)).2 :=
  bind (undisturbed s handed) fun a t run handed' => rest a t handed' (built.keeps_host s a t run)

section Calls

variable {values : List Value} (passes : Passes c tx s.current values)

include passes

theorem construct (home classIdx : Nat) :
    Handed c tx (runFrom s ((host c).construct home classIdx values)).2 := by
  have enduring := (tolerant_undisturbed c tx).enduring
  have invoke (guest : Nat) (errand : Errand) (thread : Wasm.Thread) :
      Ends (Undisturbed c tx) ((host c).invoke guest errand thread) := .undisturbed_invoke _ _ _
  refine handed.reading (.instanceAt home) fun inst _ => handed.reading (.orPlain _ _) fun cls _ =>
    bind (Ends.quietly enduring (.newOrigin _) s handed) fun origin t placed handed => ?_
  have passes : Passes c tx t.current values := by
    have current := (Quietly.newOrigin (host c) s).current
    rw [placed] at current
    exact current.symm ▸ passes
  refine handed.reading .get fun u _ => ?_
  cases u.jigIndex? origin
  case some => exact handed
  have handed := Ends.note enduring (e := .making origin) rfl t handed
  refine bind handed fun _ v noted handed => ?_
  cases noted
  have body : Ends (Sheltered c tx) ((host c).callConstructor home cls values) := by
    have built : Built invoker (some home) fun c =>
        (invoker.host c).callConstructor home cls values := .callConstructor home cls values
    exact built.sheltered
  refine bind (bind (handed.inFrame (fun _ => passes) body).1 fun word w _ handed =>
    Ends.newJig enduring invoke home classIdx cls origin word w handed) fun jig w _ handed => ?_
  exact Ends.register enduring jig w handed

theorem callMethod (idx : Nat) (method : Abi.Callable) :
    Handed c tx (runFrom s ((host c).callMethod idx method values)).2 := by
  refine handed.reading (.jigAt idx) fun jig _ => handed.reading (.authority c) fun auth _ => ?_
  split
  case isFalse => exact handed
  have built : Built invoker (some jig.home) fun c =>
      (invoker.host c).callWith jig.home method [.i32 jig.address] values := .callWith _ _ _ _
  exact (handed.inFrame (fun _ => passes) built.sheltered).1

theorem callFunction (home : Nat) (function : Abi.Callable) :
    Handed c tx (runFrom s ((host c).callFunction home function values)).2 := by
  refine handed.reading .get fun u _ => ?_
  have built : Built invoker (some home) fun c =>
      (invoker.host c).callWith home function [] values := .callWith _ _ _ _
  exact (handed.inFrame (fun _ => passes) built.sheltered).1

end Calls

/-- An instruction that calls passes what its arguments became. -/
theorem passing (recalls : Recalls c tx s) {i : Instruction} {args : List Arg}
    (here : tx.instructions[s.current]? = some i) (has : i.args? = some args)
    {params : List Field} {f : List Value → Engine α}
    (rest : ∀ values, Passes c tx s.current values → Handed c tx (runFrom s (f values)).2) :
    Handed c tx (runFrom s (checkedArgs c params args >>= f)).2 :=
  handed.reading (.checkedArgs c params args) fun values run =>
    rest values ⟨i, args, here, has, becomes_of_checkedArgs recalls run⟩

end Handed

/-- An instruction without arguments does not call. -/
theorem Ends.perform_of_args {R : Session → Session → Prop} (hR : Welcoming c R)
    (invoke : ∀ guest errand thread, Ends R ((host c).invoke guest errand thread))
    {i : Instruction} (none : i.args? = none) : Ends R ((host c).perform i) := by
  have enduring := hR.toEnduring
  have boots : ∀ id, Ends R ((host c).instanceFor id) := .instanceFor hR invoke
  have resolve (origin : Pointer) : Ends R ((host c).resolve origin) :=
    .loadLatest enduring boots invoke origin fun _ => (ReadsOnly.pure _).silently
  have done {γ δ : Type} {m : Engine γ} {statement : γ → δ} (h : Ends R m) :
      Ends R (m >>= fun a => pure (statement a)) := h.bind enduring fun _ => .reads enduring (.pure _)
  cases i
  case importPackage id => exact done (boots id)
  case load location => exact done (.loadByLocation enduring boots invoke location)
  case loadByOrigin origin =>
    exact done (done (.loadLatest enduring boots invoke origin fun _ =>
      (ReadsOnly.fail _).silently))
  case fund coin =>
    exact done ((Ends.reads enduring (.jigStatement coin)).bind enduring fun origin =>
      (resolve origin).bind enduring fun idx => .pay enduring origin idx)
  case lock jig spec =>
    exact done ((Ends.reads enduring (.jigStatement jig)).bind enduring fun origin =>
      (resolve origin).bind enduring fun idx => (Ends.reads enduring (.orError _ _)).bind enduring fun lock =>
        .changeLock enduring idx lock)
  case deploy entries sources => exact done (.deploy enduring _ entries sources)
  case sign | signTo => exact .reads enduring (.pure _)
  case new | exec | execFunction => cases none

namespace Handed

/-- However an instruction ends, a call from outside is given what the instruction passes. -/
theorem instruction (handed : Handed c tx s) (recalls : Recalls c tx s) {i : Instruction}
    (here : tx.instructions[s.current]? = some i) :
    Handed c tx (runFrom s ((host c).instruction i)).2 := by
  have welcoming := (tolerant_undisturbed c tx).welcoming c
  have invoke (guest : Nat) (errand : Errand) (thread : Wasm.Thread) :
      Ends (Undisturbed c tx) ((host c).invoke guest errand thread) := .undisturbed_invoke _ _ _
  have boots : ∀ id, Ends (Undisturbed c tx) ((host c).instanceFor id) :=
    .instanceFor welcoming invoke
  refine handed.reading .get fun _ _ => ?_
  split
  · exact handed
  by_cases calls : i.args? = none
  · exact Ends.perform_of_args welcoming invoke calls s handed
  cases i with
  | new packageIdx classIdx args =>
    refine bind (handed.reading (.packageStatement packageIdx) fun id _ => ?_)
      fun _ _ _ handed => handed
    refine handed.keeping (boots id) (.instanceFor id)
      fun home t handed keeps => ?_
    refine handed.reading (.instanceAt home) fun inst _ => handed.reading (.orError _ _)
      fun cls _ => handed.passing (recalls.of_keeps keeps) (keeps.current ▸ here) rfl
        fun values passes => ?_
    exact bind (handed.construct passes home classIdx.toNat) fun idx u _ handed =>
      handed.reading (.jigAt idx) fun _ _ => handed
  | exec jig methodIdx args =>
    refine handed.reading (.jigStatement jig) fun origin _ => ?_
    refine handed.keeping
      (.loadLatest welcoming.toEnduring boots invoke origin fun _ => (ReadsOnly.pure _).silently)
      (.resolve origin) fun idx t handed keeps => ?_
    refine handed.reading (.jigAt idx) fun touched _ => handed.reading (.classOfJig touched)
      fun cls _ => handed.reading (.orMissing _ _) fun method _ =>
        handed.passing (recalls.of_keeps keeps) (keeps.current ▸ here) rfl fun values passes => ?_
    exact bind (handed.callMethod passes idx method) fun _ _ _ handed => handed
  | execFunction packageIdx functionIdx args =>
    refine handed.reading (.packageStatement packageIdx) fun id _ => ?_
    refine handed.keeping (boots id) (.instanceFor id)
      fun home t handed keeps => ?_
    refine handed.reading (.instanceAt home) fun inst _ => handed.reading (.orError _ _)
      fun function _ => handed.passing (recalls.of_keeps keeps) (keeps.current ▸ here) rfl
        fun values passes => ?_
    exact bind (handed.callFunction passes home function) fun _ _ _ handed => handed
  | _ => exact absurd rfl calls

/-- However a step ends. -/
theorem step (handed : Handed c tx s) {idx : Nat} {i : Instruction} (arrives : Arrives c tx idx s)
    (here : tx.instructions[idx]? = some i) :
    Handed c tx (runFrom s (step (host c) idx i)).2 := by
  have tolerant := tolerant_undisturbed c tx
  refine handed.reading .get fun before _ => ?_
  refine bind (handed.began idx) fun _ t began handed => ?_
  cases began
  refine bind (handed.instruction (arrives.recalls here) here) fun statement u _ handed => ?_
  refine bind (tolerant.inert [] rfl nofun rfl rfl handed) fun _ v _ handed => ?_
  exact handed.reading .get fun _ _ => handed

/-- However the rest of the instructions ends, once those before have succeeded. -/
theorem steps {rest : List Instruction} {idx : Nat} (handed : Handed c tx s)
    (arrives : Arrives c tx idx s) (left : tx.instructions.drop idx = rest) :
    Handed c tx (runFrom s (steps (host c) idx rest)).2 := by
  induction rest generalizing s idx with
  | nil => exact handed
  | cons i rest ih =>
    have here : tx.instructions[idx]? = some i := by
      rw [← List.head?_drop, left]
      rfl
    have left' : tx.instructions.drop (idx + 1) = rest := by
      rw [← List.tail_drop, left]
      rfl
    refine bind ?_ fun fuel t stepped handed => ?_
    · rw [Logs.snd_rethrow]
      exact handed.step arrives here
    · have next := (arrives_succ here).2 ⟨s, fuel, arrives, runFrom_rethrow_eq_ok.1 stepped⟩
      exact bind (ih handed next left') fun _ _ _ handed => handed

/-- However a transaction ends. -/
theorem runTransaction (c : Context) (tx : Transaction) :
    Handed c tx (runTransaction c tx).2 := by
  have tolerant := tolerant_undisturbed c tx
  refine bind ((handed_start c tx _ _).steps arrives_zero rfl) fun fuel t _ handed => ?_
  refine bind (Ends.quietly tolerant.enduring (.finalize c) t handed) fun _ u _ handed => ?_
  exact handed.reading .get fun _ _ => handed

end Handed

/-- Bytes never become a jig. However a transaction ends: whenever it has entered a call from
outside, the instruction that ran then is one that calls, and each value it has handed over is what
one of its arguments became. Bytes became a value without jigs, and all jigs in what a reference
became occur in the statement that it refers to, which an earlier instruction has given. At any time
and for a parameter of any type, a value that is made from bytes names no jig. -/
theorem jigs_passed_by_reference (c : Context) (tx : Transaction) :
    (∀ (entry : Entry) (frame : Frame) (callee : Abi.Callable) (values : List Value)
      (past : List Event),
      .entered entry frame callee values :: past <:+ (runTransaction c tx).2.journal →
        (Scene.of past).frames = [] → Passes c tx (Scene.of past).current values) ∧
    ∀ (s t : Session) (param : Field) (bytes : Bytes) (v : Value),
      runFrom s (argValue param (.value bytes)) = (.ok v, t) →
        ∀ path origin, ¬ v.Names path origin := by
  refine ⟨fun entry frame callee values past here frameless => ?_,
    fun s t param bytes v run => not_names_of_argValue run⟩
  exact Throughout.iff_suffix.1 (Handed.runTransaction c tx).hands _ past here frameless

end Engine

namespace Ledger.Keeper

/-- The latest event is a call of a function from outside with a coin. -/
def isCalled (coin : Pointer) : List Engine.Event → Bool
  | .entered .function _ _ [.jig origin] :: past =>
    decide (origin = coin) && (Engine.Scene.of past).frames.isEmpty
  | _ => false

/-- A coin has been minted, and the transaction calls the function with it. -/
def isCalledInRun : Bool :=
  match opening.mint policy.config default 500 0 with
  | .error _ => false
  | .ok (o, l) =>
    match Engine.contextOf (l.env policy) (tx o.origin) with
    | .error _ => false
    | .ok c => (Engine.runTransaction c (tx o.origin)).2.journal.tails.any (isCalled o.origin)

theorem exists_call : ∃ coin c frame callee past,
    .entered .function frame callee [.jig coin] :: past <:+
      (Engine.runTransaction c (tx coin)).2.journal ∧ (Engine.Scene.of past).frames = [] := by
  have called : isCalledInRun = true := by decide +kernel
  unfold isCalledInRun at called
  split at called
  case h_1 => cases called
  case h_2 o l minted =>
    split at called
    case h_1 => cases called
    case h_2 c context =>
      obtain ⟨events, mem, called⟩ := List.any_eq_true.1 called
      unfold isCalled at called
      split at called
      case h_2 => cases called
      case h_1 frame callee origin past =>
        simp only [Bool.and_eq_true, decide_eq_true_eq, List.isEmpty_iff] at called
        obtain ⟨rfl, frameless⟩ := called
        exact ⟨o.origin, c, frame, callee, past, (List.mem_tails _ _).1 mem, frameless⟩

end Ledger.Keeper

namespace Engine

/-- A coin that is passed to a function occurs in an earlier statement. A byte becomes a truth
value, which names no jig. -/
theorem jigs_passed_by_reference_of_coin :
    (∃ (coin : Pointer) (c : Context) (frame : Frame) (callee : Abi.Callable) (past : List Event),
      .entered .function frame callee [.jig coin] :: past <:+
        (runTransaction c (Ledger.Keeper.tx coin)).2.journal ∧ (Scene.of past).frames = [] ∧
      Passes c (Ledger.Keeper.tx coin) (Scene.of past).current [.jig coin]) ∧
    runFrom (.start 0 0) (argValue ⟨"flag", .bool, 0⟩ (.value [1])) =
      (.ok (.bool true), .start 0 0) ∧
    ∀ path origin, ¬ (Value.bool true).Names path origin := by
  obtain ⟨coin, c, frame, callee, past, here, frameless⟩ := Ledger.Keeper.exists_call
  have passes := (jigs_passed_by_reference c (Ledger.Keeper.tx coin)).1 .function frame callee _
    past here frameless
  have made : runFrom (.start 0 0) (argValue ⟨"flag", .bool, 0⟩ (.value [1])) =
      (.ok (.bool true), .start 0 0) := rfl
  exact ⟨⟨coin, c, frame, callee, past, here, frameless, passes⟩, made,
    (jigs_passed_by_reference c (Ledger.Keeper.tx coin)).2 _ _ _ _ _ made⟩

end Engine

end JigLedger
