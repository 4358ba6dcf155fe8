import JigLedger.Proofs.Engine.Success
import JigLedger.Proofs.Store

/-!
# Guests without a frame

While no call is on the stack, the code of a guest runs only when a package starts, when a stored
jig is brought into memory, and when a jig that has been constructed gets its origin. Its requests
are refused then, since there is no frame that they could be made in. So what the transaction has
done stays as it is: no jig is touched, no lock is replaced and no pointer is taken.
-/

namespace JigLedger.Engine

open Wasm (Val Thread)

variable {α β : Type} {c : Context} {s t u : Session}

/-- What the transaction has done is as it was. -/
structure Unmoved (s t : Session) : Prop where
  current : t.current = s.current
  frames : t.frames = s.frames
  jigs : t.jigs = s.jigs
  deploys : t.deploys = s.deploys
  statements : t.statements = s.statements
  funded : t.funded = s.funded
  nextIndex : t.nextIndex = s.nextIndex

theorem Unmoved.trans (h : Unmoved s t) (h' : Unmoved t u) : Unmoved s u :=
  ⟨h'.current.trans h.current, h'.frames.trans h.frames, h'.jigs.trans h.jigs,
    h'.deploys.trans h.deploys, h'.statements.trans h.statements, h'.funded.trans h.funded,
    h'.nextIndex.trans h.nextIndex⟩

theorem Silent.unmoved (h : Silent s t) : Unmoved s t :=
  ⟨h.current, h.frames, h.jigs, h.deploys, h.statements, h.funded, h.nextIndex⟩

/-- From a session without frames on, what the transaction has done stays as it was. -/
def Calm (s t : Session) : Prop := s.frames = [] → Unmoved s t

theorem lenient_calm : Lenient Calm where
  silent h _ := h.unmoved
  trans h h' frameless :=
    have first := h frameless
    first.trans (h' (first.frames.trans frameless))
  noted _ _ _ _ := ⟨rfl, rfl, rfl, rfl, rfl, rfl, rfl⟩
  launched _ _ _ := ⟨rfl, rfl, rfl, rfl, rfl, rfl, rfl⟩
  started _ _ _ := ⟨rfl, rfl, rfl, rfl, rfl, rfl, rfl⟩

/-! ### Requests -/

/-- Without frames it fails at once. -/
def Refused (m : Engine α) : Prop := ∀ s, s.frames = [] → ∃ e, runFrom s m = (.error e, s)

namespace Refused

/-- Nobody is calling. -/
theorem calling (f : Nat → Engine α) : Refused (callingHome >>= f) := by
  intro s frameless
  refine ⟨.ofError (.broken "host call outside of a guest frame"), ?_⟩
  rw [runFrom_bind, callingHome, runFrom_bind_of_ok (runFrom_get s), frameless]
  rfl

theorem fail (e : ExecError) : Refused (fail e : Engine α) := fun _ _ => ⟨.ofError e, rfl⟩

theorem bind {m : Engine α} (hm : Refused m) (f : α → Engine β) : Refused (m >>= f) := by
  intro s frameless
  obtain ⟨e, failed⟩ := hm s frameless
  exact ⟨e, by rw [runFrom_bind, failed]⟩

/-- What is refused does not succeed. -/
theorem ne_ok {m : Engine α} (h : Refused m) (frameless : s.frames = []) {a : α} :
    runFrom s m ≠ (.ok a, t) := by
  intro run
  obtain ⟨e, failed⟩ := h s frameless
  rw [failed] at run
  cases run

/-- What is refused leaves the session as it was. -/
theorem snd_eq {m : Engine α} (h : Refused m) (frameless : s.frames = []) :
    (runFrom s m).2 = s := by
  obtain ⟨e, failed⟩ := h s frameless
  rw [failed]

theorem withoutWords {f : Engine α} (h : Refused f) (args : List Val) :
    Refused (withoutWords f args) := by
  unfold Engine.withoutWords
  split
  · exact h
  · exact fail _

theorem withWord {f : UInt32 → Engine α} (h : ∀ a, Refused (f a)) (args : List Val) :
    Refused (withWord f args) := by
  unfold Engine.withWord
  split
  · exact h _
  · exact fail _

theorem withTwoWords {f : UInt32 → UInt32 → Engine α} (h : ∀ a b, Refused (f a b))
    (args : List Val) : Refused (withTwoWords f args) := by
  unfold Engine.withTwoWords
  split
  · exact h _ _
  · exact fail _

theorem withThreeWords {f : UInt32 → UInt32 → UInt32 → Engine α}
    (h : ∀ a b d, Refused (f a b d)) (args : List Val) : Refused (withThreeWords f args) := by
  unfold Engine.withThreeWords
  split
  · exact h _ _ _
  · exact fail _

/-- Whatever a guest asks for, it is refused without a frame, unless it asks to print. -/
theorem answer {function : HostImport} (other : function ≠ .debugStr) (h : Host)
    (args : List Val) : Refused (h.answer function args) := by
  cases function
  case constructorLocal => exact withTwoWords (fun _ _ => (calling _).bind _) args
  case constructorRemote => exact withTwoWords (fun _ _ => (calling _).bind _) args
  case callMethod => exact withThreeWords (fun _ _ _ => (calling _).bind _) args
  case callFunction => exact withTwoWords (fun _ _ => (calling _).bind _) args
  case getProp => exact withTwoWords (fun _ _ => (calling _).bind _) args
  case jigLock => exact withThreeWords (fun _ _ _ => (calling _).bind _) args
  case jigAuthCheck => exact withTwoWords (fun _ _ => (calling _).bind _) args
  case callerOrigin => exact withoutWords ((calling _).bind _) args
  case abort => exact withWord (fun _ => calling _) args
  case debugStr => exact absurd rfl other

end Refused

/-- The only request that succeeds without a frame is to print a text when texts are not kept, and
then nothing happens. -/
theorem runFrom_answer_eq_ok {h : Host} {function : HostImport} {args results : List Val}
    (frameless : s.frames = []) (run : runFrom s (h.answer function args) = (.ok results, t)) :
    t = s ∧ results = [] ∧ function = .debugStr ∧ h.context.env.config.logGuestOutput = false ∧
      ∃ text, args = [.i32 text] := by
  by_cases other : function = .debugStr
  case neg => exact absurd run ((Refused.answer other h args).ne_ok frameless)
  subst other
  rw [Host.answer] at run
  unfold withWord at run
  split at run
  case h_2 => cases run
  case h_1 text =>
    obtain ⟨_, u, printed, returned⟩ := runFrom_bind_eq_ok run
    cases returned
    unfold Host.debugStr at printed
    split at printed
    case isTrue => exact absurd printed ((Refused.calling _).ne_ok frameless)
    case isFalse unwanted =>
      cases printed
      exact ⟨rfl, rfl, rfl, by simpa using unwanted, text, rfl⟩

/-- Without a frame a request leaves the session as it was, however it ends. -/
theorem snd_answer_of_frameless (h : Host) (function : HostImport) (args : List Val)
    (frameless : s.frames = []) : (runFrom s (h.answer function args)).2 = s := by
  by_cases other : function = .debugStr
  case neg => exact (Refused.answer other h args).snd_eq frameless
  subst other
  rw [Host.answer]
  unfold withWord
  split
  case h_2 => rfl
  case h_1 text =>
    unfold Host.debugStr
    split
    case isTrue => exact ((Refused.calling _).bind _).snd_eq frameless
    case isFalse => rfl

/-! ### Running guests -/

/-- A request of a guest leaves the transaction alone while there are no frames. -/
theorem Leads.calm_answer (h : Host) (function : HostImport) (args : List Val) :
    Leads Calm (h.answer function args) := by
  intro s results t run frameless
  rw [(runFrom_answer_eq_ok frameless run).1]
  exact (Silent.refl s).unmoved

/-- Running a guest for an errand leaves the transaction alone while there are no frames. -/
theorem Leads.calm_onErrand (c : Context) (room guest : Nat) (errand : Errand) (thread : Thread) :
    Leads Calm (onErrand (run c room) guest errand thread) :=
  have costs := Costs.run (c := c) lenient_calm (fun _ _ => calm_answer _) room
  (Costs.onErrand lenient_calm costs guest errand thread).leads lenient_calm

theorem Leads.calm_invoke (c : Context) (guest : Nat) (errand : Errand) (thread : Thread) :
    Leads Calm ((host c).invoke guest errand thread) :=
  calm_onErrand c _ guest errand thread

/-- Starting a package between two instructions leaves the transaction alone. -/
theorem Leads.calm_instanceFor (c : Context) (id : PackageId) :
    Leads Calm ((host c).instanceFor id) :=
  .instanceFor lenient_calm (calm_invoke c) id

/-! ### Loading jigs -/

/-- A stored jig has been loaded, and nothing else has been done. -/
structure Arrived (o : Output) (s t : Session) : Prop where
  untouched : ∀ jig ∈ s.jigs, jig.origin ≠ o.origin
  arrived : ∃ jig, t.jigs = s.jigs ++ [jig] ∧ Host.storedLock o = .ok jig.lock ∧
    jig.origin = o.origin ∧ jig.previous = some o.location
  rest : Unmoved { s with jigs := t.jigs } t

/-- A jig that has been brought into memory has arrived once it is noted. -/
theorem Arrived.of_rehydrate {o : Output} {jig : TouchedJig} (frameless : s.frames = [])
    (untouched : s.jigIndex? o.origin = none)
    (run : runFrom (s.record (.making o.origin)) ((host c).rehydrate o) = (.ok jig, u)) :
    Arrived o s (u.made jig) := by
  have calm := Leads.rehydrate lenient_calm (Leads.calm_invoke c) o _ _ _ run frameless
  have jigs : u.jigs = s.jigs := calm.jigs
  refine ⟨Session.jigIndex?_eq_none untouched, ⟨jig, ?_, runFrom_rehydrate_eq_ok run⟩, ?_⟩
  · rw [Session.made, Session.record, jigs]
  · exact ⟨calm.current, calm.frames, rfl, calm.deploys, calm.statements, calm.funded,
      calm.nextIndex⟩

/-- The output at a location has been loaded. -/
theorem runFrom_loadByLocation_eq_ok {location origin : Pointer} (frameless : s.frames = [])
    (run : runFrom s ((host c).loadByLocation location) = (.ok origin, t)) :
    ∃ o, c.env.store.byLocation location = some o ∧ origin = o.origin ∧ Arrived o s t := by
  obtain ⟨o, _, found, touching⟩ := runFrom_bind_eq_ok run
  obtain ⟨stored, rfl⟩ := runFrom_orMissing_eq_ok.1 found
  obtain ⟨idx, _, touched, returned⟩ := runFrom_bind_eq_ok touching
  cases returned
  refine ⟨o, stored, rfl, ?_⟩
  obtain ⟨i, -, twice⟩ | ⟨untouched, jig, u, made, -, rfl⟩ := runFrom_touch_eq_ok touched
  · cases twice
  · exact .of_rehydrate frameless untouched made

section Latest

variable (keyed : c.env.store.Keyed) {origin : Pointer} (frameless : s.frames = [])

include keyed frameless

/-- The latest output of a jig has been loaded unless the jig had been touched. -/
theorem runFrom_loadLatest_eq_ok {touched : Nat → Engine Nat} {idx : Nat}
    (run : runFrom s ((host c).loadLatest origin touched) = (.ok idx, t)) :
    (∃ i, s.jigIndex? origin = some i ∧ runFrom s (touched i) = (.ok idx, t)) ∨
      idx = s.jigs.length ∧ ∃ o, c.env.store.byOrigin origin = some o ∧ o.origin = origin ∧
        Arrived o s t := by
  obtain again | ⟨untouched, jig, u, made, rfl, rfl⟩ := runFrom_touch_eq_ok run
  · exact .inl again
  · obtain ⟨o, _, found, making⟩ := runFrom_bind_eq_ok made
    obtain ⟨stored, rfl⟩ := runFrom_orMissing_eq_ok.1 found
    obtain rfl := keyed origin o stored
    have arrived : Arrived o s (u.made jig) := .of_rehydrate frameless untouched making
    obtain ⟨_, jigs, -⟩ := arrived.arrived
    refine .inr ⟨?_, o, stored, rfl, arrived⟩
    have length := congrArg List.length jigs
    simpa [Session.made, Session.record] using length

/-- The jig with an origin has been loaded. -/
theorem runFrom_loadByOrigin_eq_ok {given : Pointer}
    (run : runFrom s ((host c).loadByOrigin origin) = (.ok given, t)) :
    ∃ o, c.env.store.byOrigin origin = some o ∧ o.origin = origin ∧ given = origin ∧
      Arrived o s t := by
  obtain ⟨idx, _, loaded, returned⟩ := runFrom_bind_eq_ok run
  cases returned
  obtain ⟨i, -, twice⟩ | ⟨-, o, stored, key, arrived⟩ :=
    runFrom_loadLatest_eq_ok keyed frameless loaded
  · cases twice
  · exact ⟨o, stored, key, rfl, arrived⟩

end Latest

end JigLedger.Engine
