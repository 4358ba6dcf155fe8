import JigLedger.Proofs.Engine.Soundness

/-!
# What a success leads to

A failure ends the transaction, so of a computation it only matters where it leads when it succeeds.
This is worked out once for every relation between sessions that does not mind packages being
started: for the functions that start packages and bring stored jigs into memory, for all that the
engine is built from, and for running guests. What a relation says of new jigs is left open.
-/

namespace JigLedger.Engine

open Wasm (Thread)

variable {α β : Type} {R : Session → Session → Prop} {c : Context} {s t : Session}

/-- The event says that something goes on, and nothing about jigs, packages and calls changes. -/
def Event.isNotice : Event → Bool
  | .printed .. | .invoked .. | .finished | .requested .. | .making _ => true
  | _ => false

/-- A relation that holds from a session to a later one if only packages have been started. -/
structure Lenient (R : Session → Session → Prop) : Prop where
  silent : ∀ {s t}, Silent s t → R s t
  trans : ∀ {s t u}, R s t → R t u → R s u
  noted : ∀ s e, e.isNotice = true → R s (s.record e)
  launched : ∀ s guest, R s (s.launched guest)
  started : ∀ s inst, R s (s.started inst)

/-- When a computation succeeds, a relation holds between the sessions before and after it. -/
def Leads (R : Session → Session → Prop) (m : Engine α) : Prop :=
  ∀ s a t, runFrom s m = (.ok a, t) → R s t

namespace ReadsOnly

theorem mapM {f : α → Engine β} (h : ∀ a, ReadsOnly (f a)) :
    ∀ items : List α, ReadsOnly (items.mapM f)
  | [] => by simpa using pure []
  | a :: rest => by
    simp only [List.mapM_cons]
    exact (h a).bind fun b => (mapM h rest).bind fun bs => pure (b :: bs)

theorem importTarget (c : Context) (i : Abi.Import) : ReadsOnly (importTarget c i) := by
  unfold Engine.importTarget
  split
  · exact pure _
  refine (packageOr c _ _).bind fun p => ?_
  cases p.abi.exportIndex? i.name
  · exact fail _
  · dsimp only
    split
    · exact pure _
    · exact fail _

end ReadsOnly

namespace Leads

theorem bind (hR : Lenient R) {m : Engine α} {f : α → Engine β} (hm : Leads R m)
    (hf : ∀ a, Leads R (f a)) : Leads R (m >>= f) := by
  intro s b u run
  obtain ⟨a, t, first, rest⟩ := runFrom_bind_eq_ok run
  exact hR.trans (hm s a t first) (hf a t b u rest)

theorem silently (hR : Lenient R) {m : Engine α} (h : Silently m) : Leads R m := by
  intro s a t run
  have silent := h s
  rw [run] at silent
  exact hR.silent silent

theorem reads (hR : Lenient R) {m : Engine α} (h : ReadsOnly m) : Leads R m :=
  silently hR h.silently

theorem rethrow {m : Engine α} {g : Failure → Failure} (h : Leads R m) :
    Leads R (tryCatch m fun e => throw (g e)) := fun s a t run =>
  h s a t (runFrom_rethrow_eq_ok.1 run)

section Guests

variable (hR : Lenient R) {h : Host}
  (invoke : ∀ guest errand thread, Leads R (h.invoke guest errand thread))

include hR invoke

theorem invokeAt (home : Nat) (errand : Errand) (thread : PackageInstance → Thread) :
    Leads R (h.invokeAt home errand thread) :=
  (reads hR (.instanceAt home)).bind hR fun _ => invoke _ _ _

theorem alloc (home : Nat) (errand : Errand) (size : UInt32) :
    Leads R (h.alloc home errand size) := by
  refine (invokeAt hR invoke home errand _).bind hR fun results =>
    (reads hR (.resultWord results)).bind hR fun word => ?_
  dsimp only
  split
  · exact reads hR (.failPlain _)
  · exact (reads hR (.look _ _)).bind hR fun _ => reads hR (.pure _)

/-- Using the memory of a package leads where running its allocator leads. -/
theorem heap (home : Nat) (errand : Errand) :
    OfHeap (fun _ m => Leads R (m h.context)) fun _ => h.heap home errand where
  pure _ := reads hR (.pure _)
  bind hm hf := hm.bind hR hf
  alloc := alloc hR invoke home errand
  write _ _ := silently hR (.writeBytes _ _ _)
  fail _ := reads hR (.failPlain _)

theorem buildObject (home : Nat) (cls : Abi.Class) (origin : Pointer) (values : List Value) :
    Leads R (h.buildObject home cls origin values) := by
  have heap := heap hR invoke home (.object home)
  exact (heap.alloc _).bind hR fun address => (heap.writeOrigin _ _).bind hR fun _ =>
    (heap.writeRecord _ _ _).bind hR fun _ => reads hR (.pure _)

theorem newJig (home classIdx : Nat) (cls : Abi.Class) (origin : Pointer) (word : Option UInt64) :
    Leads R (h.newJig home classIdx cls origin word) := by
  have heap := heap hR invoke home (.origin home)
  unfold Host.newJig
  dsimp only
  split
  · exact reads hR (.fail _)
  · exact (reads hR (.look _ _)).bind hR fun _ => (heap.writeOrigin _ _).bind hR fun _ =>
      reads hR (.pure _)

theorem runStart (m : Wasm.Module) (guest : Nat) : Leads R (h.runStart m guest) := by
  unfold Host.runStart
  cases m.start with
  | none => exact reads hR (.pure _)
  | some f => exact (invoke _ _ _).bind hR fun _ => reads hR (.pure _)

theorem instantiate (p : Package) (targets : List (Option Nat)) :
    Leads R (h.instantiate p targets) := by
  refine (rethrow (reads hR (.linkedGuest h p.module))).bind hR fun guest => ?_
  have added : Leads R (Host.addGuest guest) := by
    rintro s _ _ ⟨⟩
    exact hR.launched s guest
  refine added.bind hR fun idx => (rethrow (runStart hR invoke p.module idx)).bind hR fun _ =>
    (reads hR (.allocatorOf p)).bind hR fun allocator => ?_
  rintro s _ _ ⟨⟩
  exact hR.started s _

theorem instanceFor (id : PackageId) : Leads R (h.instanceFor id) := by
  refine (reads hR .get).bind hR fun s => ?_
  cases s.instanceIndex? id with
  | some idx => exact reads hR (.pure _)
  | none =>
    exact (reads hR (.packageOr h.context _ id)).bind hR fun p =>
      (reads hR (.mapM (.importTarget h.context) p.abi.imports)).bind hR fun _ =>
        instantiate hR invoke p _

theorem rehydrate (o : Output) : Leads R (h.rehydrate o) := by
  refine (reads hR (.orError _ _)).bind hR fun lock => (reads hR (.packageOf _ _)).bind hR fun _ =>
    (instanceFor hR invoke _).bind hR fun home => (reads hR (.instanceAt home)).bind hR fun inst =>
      (reads hR (.orError _ _)).bind hR fun cls => (reads hR (.orError _ _)).bind hR fun values =>
        (buildObject hR invoke home cls o.origin values).bind hR fun _ => reads hR (.pure _)

end Guests

end Leads

/-- The jig that an output becomes has the origin of the output, its location and its lock. -/
theorem runFrom_rehydrate_eq_ok {h : Host} {o : Output} {jig : TouchedJig}
    (run : runFrom s (h.rehydrate o) = (.ok jig, t)) :
    Host.storedLock o = .ok jig.lock ∧ jig.origin = o.origin ∧ jig.previous = some o.location := by
  obtain ⟨lock, _, locked, rest⟩ := runFrom_bind_eq_ok run
  obtain ⟨hlock, -⟩ := runFrom_orError_eq_ok.1 locked
  obtain ⟨_, _, -, starting⟩ := runFrom_bind_eq_ok rest
  obtain ⟨home, _, -, reading⟩ := runFrom_bind_eq_ok starting
  obtain ⟨_, _, -, classing⟩ := runFrom_bind_eq_ok reading
  obtain ⟨_, _, -, decoding⟩ := runFrom_bind_eq_ok classing
  obtain ⟨_, _, -, building⟩ := runFrom_bind_eq_ok decoding
  obtain ⟨_, _, -, returned⟩ := runFrom_bind_eq_ok building
  cases returned
  exact ⟨hlock, rfl, rfl⟩

/-- A jig that is touched has been touched before, or it is made and noted now. -/
theorem runFrom_touch_eq_ok {origin : Pointer} {touched : Nat → Engine Nat}
    {make : Engine TouchedJig} {idx : Nat}
    (run : runFrom s (touch origin touched make) = (.ok idx, t)) :
    (∃ i, s.jigIndex? origin = some i ∧ runFrom s (touched i) = (.ok idx, t)) ∨
      s.jigIndex? origin = none ∧ ∃ jig u,
        runFrom (s.record (.making origin)) make = (.ok jig, u) ∧ idx = u.jigs.length ∧
          t = u.made jig := by
  obtain ⟨_, _, looked, rest⟩ := runFrom_bind_eq_ok run
  cases looked
  rcases hi : s.jigIndex? origin with _ | i <;> simp only [hi] at rest
  · obtain ⟨_, _, noted, making⟩ := runFrom_bind_eq_ok rest
    cases noted
    obtain ⟨jig, u, made, registered⟩ := runFrom_bind_eq_ok making
    cases registered
    exact .inr ⟨rfl, jig, u, made, rfl, rfl⟩
  · exact .inl ⟨i, rfl, rest⟩

/-- A jig that has not been touched is made and noted. -/
theorem runFrom_touch_of_none {origin : Pointer} {touched : Nat → Engine Nat}
    {make : Engine TouchedJig} (untouched : s.jigIndex? origin = none) :
    runFrom s (touch origin touched make) =
      runFrom (s.record (.making origin)) (make >>= register) := by
  rw [touch, runFrom_bind_of_ok (runFrom_get s), untouched]
  rfl

/-- A call that has come to its end has run in a frame of its own. -/
theorem runFrom_inFrame_eq_ok {entry : Entry} {frame : Frame} {callee : Abi.Callable}
    {args : List Value} {body : Engine α} {a : α}
    (run : runFrom s (inFrame c entry frame callee args body) = (.ok a, t)) :
    ∃ u, runFrom (s.entered entry frame callee args) body = (.ok a, u) ∧ t = u.left := by
  obtain ⟨_, _, pushed, running⟩ := runFrom_bind_eq_ok run
  rw [runFrom_pushFrame] at pushed
  split at pushed <;> cases pushed
  obtain ⟨a, u, ran, popping⟩ := runFrom_bind_eq_ok running
  obtain ⟨_, _, popped, returned⟩ := runFrom_bind_eq_ok popping
  cases returned
  rw [runFrom_popFrame] at popped
  split at popped <;> cases popped
  exact ⟨u, ran, rfl⟩

/-- A touched jig is a coin of an amount: its class is that of coins, and this is the number that
its object holds at the place of the amount. -/
def Bears (c : Context) (s : Session) (jig : TouchedJig) (amount : UInt64) : Prop :=
  ∃ inst guest cls field value, s.instances[jig.home]? = some inst ∧
    s.guests[inst.guest]? = some guest ∧ inst.package.abi.classAt jig.classIdx = .ok cls ∧
    isCoin c.env.config cls = true ∧ amountField? cls = some field ∧
    field.ty.readValue guest.machine.memory (jig.address + field.offset) = .ok value ∧
    value.asU64? = some amount

/-- A coin pays if its lock is open and its amount is not too small. It is spent then. -/
theorem runFrom_pay_eq_ok {origin : Pointer} {idx : Nat} :
    runFrom s (pay c origin idx) = (.ok (), t) ↔ ∃ jig amount, s.jigs[idx]? = some jig ∧
      jig.lock.isOpenTo (s.authority c) = true ∧ Bears c s jig amount ∧
      c.env.config.minFundAmount ≤ amount ∧ t = s.spent idx amount := by
  constructor
  case mp =>
    intro run
    obtain ⟨jig, _, looked, classing⟩ := runFrom_bind_eq_ok run
    obtain ⟨hjig, rfl⟩ := runFrom_jigAt_eq_ok.1 looked
    obtain ⟨cls, _, classed, checking⟩ := runFrom_bind_eq_ok classing
    obtain ⟨inst, _, there, named⟩ := runFrom_bind_eq_ok classed
    obtain ⟨hinst, rfl⟩ := runFrom_instanceAt_eq_ok.1 there
    obtain ⟨hcls, rfl⟩ := runFrom_orPlain_eq_ok.1 named
    split at checking
    case isTrue => cases checking
    case isFalse coin =>
    obtain ⟨field, _, found, asking⟩ := runFrom_bind_eq_ok checking
    obtain ⟨hfield, rfl⟩ := runFrom_orMissing_eq_ok.1 found
    obtain ⟨auth, _, seen, opening⟩ := runFrom_bind_eq_ok asking
    cases seen
    obtain ⟨_, _, granted, reading⟩ := runFrom_bind_eq_ok opening
    obtain ⟨granted, rfl⟩ := runFrom_orError_eq_ok.1 granted
    obtain ⟨value, _, looked, paying⟩ := runFrom_bind_eq_ok reading
    obtain ⟨rfl, inst', guest, hinst', hguest, read⟩ := runFrom_look_eq_ok looked
    cases hinst.symm.trans hinst'
    rcases ha : value.asU64? with _ | amount <;> simp only [ha] at paying
    · cases paying
    · split at paying
      case isTrue => cases paying
      case isFalse enough =>
      cases paying
      have opened := Lock.assertOpen_eq_ok_iff.1 granted
      exact ⟨jig, amount, hjig, opened, ⟨inst, guest, cls, field, value, hinst, hguest, hcls,
        by simpa using coin, hfield, read, ha⟩, UInt64.not_lt.1 enough, rfl⟩
  case mpr =>
    rintro ⟨jig, amount, hjig, opened,
      ⟨inst, guest, cls, field, value, hinst, hguest, hcls, coin, hfield, read, ha⟩, enough, rfl⟩
    have classed : runFrom s (Host.classOfJig jig) = (.ok cls, s) :=
      (runFrom_bind_of_ok (runFrom_instanceAt_eq_ok.2 ⟨hinst, rfl⟩)).trans
        (runFrom_orPlain_eq_ok.2 ⟨hcls, rfl⟩)
    have seen : runFrom s (authority c) = (.ok (s.authority c), s) := rfl
    rw [pay, runFrom_bind_of_ok (runFrom_jigAt_eq_ok.2 ⟨hjig, rfl⟩), runFrom_bind_of_ok classed,
      coin, if_neg (by decide), runFrom_bind_of_ok (runFrom_orMissing_eq_ok.2 ⟨hfield, rfl⟩),
      runFrom_bind_of_ok seen,
      runFrom_bind_of_ok (runFrom_orError_eq_ok.2 ⟨Lock.assertOpen_eq_ok_iff.2 opened, rfl⟩),
      runFrom_bind_of_ok (runFrom_look_of_ok hinst hguest read), ha]
    dsimp only
    rw [if_neg (UInt64.not_lt.2 enough), runFrom_modify]

/-! ### Whatever is built -/

/-- Touching a jig leads where making it leads, if it has not been touched before. -/
theorem Leads.touch (hR : Lenient R) {origin : Pointer} {touched : Nat → Engine Nat}
    {make : Engine TouchedJig} (silent : ∀ idx, Silently (touched idx))
    (made : ∀ s jig t, runFrom s make = (.ok jig, t) → R s (t.made jig)) :
    Leads R (touch origin touched make) := by
  intro s idx t run
  obtain ⟨i, -, found⟩ | ⟨-, jig, u, making, -, rfl⟩ := runFrom_touch_eq_ok run
  · exact Leads.silently hR (silent i) s idx t found
  · exact hR.trans (hR.noted s _ rfl) (made _ jig u making)

/-- A lock is replaced if the code that is running may do that. -/
theorem runFrom_changeLock_eq_ok {idx : Nat} {lock : Lock} :
    runFrom s (changeLock c idx lock) = (.ok (), t) ↔ ∃ jig, s.jigs[idx]? = some jig ∧
      jig.lock.canBeChanged (s.authority c) jig.origin = true ∧ t = s.relocked idx lock := by
  constructor
  case mp =>
    intro run
    obtain ⟨jig, _, looked, checking⟩ := runFrom_bind_eq_ok run
    obtain ⟨there, rfl⟩ := runFrom_jigAt_eq_ok.1 looked
    obtain ⟨auth, _, seen, changing⟩ := runFrom_bind_eq_ok checking
    cases seen
    split at changing
    case isFalse => cases changing
    case isTrue may =>
      cases changing
      exact ⟨jig, there, may, rfl⟩
  case mpr =>
    rintro ⟨jig, there, may, rfl⟩
    have seen : runFrom s (authority c) = (.ok (s.authority c), s) := rfl
    rw [changeLock, runFrom_bind_of_ok (runFrom_jigAt_eq_ok.2 ⟨there, rfl⟩),
      runFrom_bind_of_ok seen, if_pos may, runFrom_modify]

/-- A relation that does not mind either that packages are deployed, and that something is done in a
frame. -/
structure Patient (c : Context) (R : Session → Session → Prop) : Prop extends Lenient R where
  deployed : ∀ s package, R s { s with deploys := s.deploys ++ [package] }
  inFrame : ∀ {α : Type} {entry : Entry} {frame : Frame} {callee : Abi.Callable}
    {args : List Value} {body : Engine α},
    Leads R body → Leads R (inFrame c entry frame callee args body)

/-- A relation that does not mind either that jigs get other locks, and that coins are spent. -/
structure Steady (c : Context) (R : Session → Session → Prop) : Prop extends Patient c R where
  relocked : ∀ s idx lock, R s (s.relocked idx lock)
  spent : ∀ s idx amount, R s (s.spent idx amount)

section Patient

variable {pays locks : Prop} {inv : Invoker} {top : Option Nat} {m : Context → Engine α}
  (hR : Patient c R)

include hR

theorem Leads.deploy (h : Host) (entries : List String) (sources : Sources) :
    Leads R (h.deploy entries sources) := by
  have lenient := hR.toLenient
  refine (reads lenient (.orPlain _ _)).bind lenient fun id =>
    (reads lenient (ReadsOnly.get.bind fun _ => .pure _)).bind lenient fun known => ?_
  split
  · exact reads lenient (.fail _)
  refine (reads lenient (.orError _ _)).bind lenient fun _ =>
    (reads lenient (.orError _ _)).bind lenient fun package => bind lenient ?_ fun _ =>
      reads lenient (.pure _)
  rintro s _ _ ⟨⟩
  exact hR.deployed s package

/-- Whatever is built leads where running guests, making new jigs, replacing locks and paying
lead. -/
theorem BuiltWith.leads (h : BuiltWith pays locks inv top m)
    (invoke : ∀ guest errand thread, Leads R (inv c guest errand thread))
    (stored : ∀ s o jig t, runFrom s ((inv.host c).rehydrate o) = (.ok jig, t) → R s (t.made jig))
    (construct : ∀ home classIdx args,
      (∀ cls, Leads R ((inv.host c).callConstructor home cls args)) →
      (∀ cls origin word, Leads R ((inv.host c).newJig home classIdx cls origin word)) →
      Leads R ((inv.host c).construct home classIdx args))
    (locking : locks → ∀ idx lock, Leads R (Engine.changeLock c idx lock))
    (paying : pays → ∀ origin idx, Leads R (Engine.pay c origin idx)) :
    Leads R (m c) := by
  have lenient := hR.toLenient
  induction h with
  | silent silent => exact .silently lenient (silent c)
  | bind _ _ first rest => exact first.bind lenient rest
  | calling _ rest => exact (Leads.reads lenient .callingHome).bind lenient rest
  | rethrow g _ body => exact body.rethrow
  | package error id => exact .reads lenient (.packageOr c error id)
  | judge origin => exact .reads lenient (.classOf c origin)
  | deploy entries sources => exact .deploy hR _ entries sources
  | invoke home errand thread => exact .invokeAt lenient invoke home errand thread
  | boot id => exact .instanceFor lenient invoke id
  | loadLatest origin touched silent =>
    refine .touch lenient silent fun s jig t run => ?_
    obtain ⟨o, _, found, making⟩ := runFrom_bind_eq_ok run
    obtain rfl := ReadsOnly.of_ok (.latestOutput c origin) found
    exact stored _ o jig t making
  | loadByLocation location =>
    refine (Leads.reads lenient (.orMissing _ _)).bind lenient fun o => Leads.bind lenient ?_
      fun _ => .reads lenient (.pure _)
    exact .touch lenient (fun _ => (ReadsOnly.fail _).silently) fun s jig t => stored s o jig t
  | construct home classIdx args _ _ call new => exact construct home classIdx args call new
  | method idx method args _ body =>
    refine (Leads.reads lenient (.jigAt idx)).bind lenient fun jig =>
      (Leads.reads lenient (.authority c)).bind lenient fun auth => ?_
    split
    · exact hR.inFrame (body _ _)
    · exact .reads lenient (.fail _)
  | function home function args _ body =>
    exact (Leads.reads lenient .get).bind lenient fun s => hR.inFrame body
  | changeLock idx lock may => exact locking may idx lock
  | pay origin idx may => exact paying may origin idx

end Patient

/-- Whatever is built leads where running guests and making new jigs lead, if coins may be spent. -/
theorem Built.leads {inv : Invoker} {top : Option Nat} {m : Context → Engine α} (hR : Steady c R)
    (h : Built inv top m) (invoke : ∀ guest errand thread, Leads R (inv c guest errand thread))
    (stored : ∀ s o jig t, runFrom s ((inv.host c).rehydrate o) = (.ok jig, t) → R s (t.made jig))
    (construct : ∀ home classIdx args,
      (∀ cls, Leads R ((inv.host c).callConstructor home cls args)) →
      (∀ cls origin word, Leads R ((inv.host c).newJig home classIdx cls origin word)) →
      Leads R ((inv.host c).construct home classIdx args)) : Leads R (m c) :=
  BuiltWith.leads hR.toPatient h invoke stored construct
    (fun _ idx lock s _ t run => by
      obtain ⟨jig, -, -, rfl⟩ := runFrom_changeLock_eq_ok.1 run
      exact hR.relocked s idx lock)
    fun _ origin idx s _ t run => by
      obtain ⟨jig, amount, -, -, -, -, rfl⟩ := runFrom_pay_eq_ok.1 run
      exact hR.spent s idx amount

/-! ### Running guests -/

/-- A computation costs a unit of fuel, and from there a relation leads to its end. -/
def Costs (R : Session → Session → Prop) (m : Engine α) : Prop :=
  ∀ s a t, runFrom s m = (.ok a, t) → 0 < s.fuel ∧ R { s with fuel := s.fuel - 1 } t

/-- Taking a unit of fuel succeeds if there is one. -/
theorem runFrom_burn_eq_ok (run : runFrom s burn = (.ok (), t)) :
    0 < s.fuel ∧ t = { s with fuel := s.fuel - 1 } := by
  rw [burn, runFrom_bind_of_ok (runFrom_get s)] at run
  split at run
  · cases run
  · cases run
    exact ⟨Nat.pos_of_ne_zero ‹_›, rfl⟩

namespace Costs

variable (hR : Lenient R)

include hR

theorem leads {m : Engine α} (h : Costs R m) : Leads R m := fun s a t run =>
  hR.trans (hR.silent (.burnt s)) (h s a t run).2

/-- What is done for an errand costs what it costs to run the guest. -/
theorem onErrand {f : Nat → Thread → Engine (List Wasm.Val)}
    (hf : ∀ guest thread, Costs R (f guest thread)) (guest : Nat) (errand : Errand)
    (thread : Thread) : Costs R (onErrand f guest errand thread) := by
  intro s results t run
  obtain ⟨_, _, noted, running⟩ := runFrom_bind_eq_ok run
  cases noted
  obtain ⟨_, u, ran, finishing⟩ := runFrom_bind_eq_ok running
  obtain ⟨_, _, noted, returned⟩ := runFrom_bind_eq_ok finishing
  cases noted
  cases returned
  obtain ⟨enough, leads⟩ := hf guest thread _ _ _ ran
  exact ⟨enough, hR.trans (hR.noted { s with fuel := s.fuel - 1 } _ rfl)
    (hR.trans leads (hR.noted u _ rfl))⟩

/-- Running a guest costs fuel, and it leads where answering its requests leads. An answer may run
guests in its turn, with what is left of the room. -/
theorem run (answer : ∀ room,
      (∀ guest errand thread, Costs R (Engine.onErrand (Engine.run c room) guest errand thread)) →
      ∀ function args,
        Leads R (Host.answer ⟨c, Engine.onErrand (Engine.run c room)⟩ function args)) :
    ∀ room guest thread, Costs R (Engine.run c room guest thread)
  | 0, _, _ => fun s _ _ run => by cases run
  | room + 1, guest, thread => by
    intro s results t run
    obtain ⟨_, _, burnt, running⟩ := runFrom_bind_eq_ok run
    obtain ⟨enough, rfl⟩ := runFrom_burn_eq_ok burnt
    refine ⟨enough, ?_⟩
    have again guest thread := leads hR (Costs.run answer room guest thread)
    obtain ⟨found, _, looked, stepping⟩ := runFrom_bind_eq_ok running
    obtain rfl := ReadsOnly.of_ok (.guestAt guest) looked
    revert stepping
    dsimp only
    suffices next : Leads R _ from next _ results t
    cases found.machine.step thread with
    | running machine thread =>
      exact (Leads.silently hR (.setMachine guest machine)).bind hR fun _ => again guest thread
    | finished results => exact .reads hR (.pure _)
    | trapped trap => exact .reads hR (.throw _)
    | stuck => exact .reads hR (.fail _)
    | waiting function args thread =>
      dsimp only
      cases found.links[function]? with
      | none => exact .reads hR (.fail _)
      | some function =>
        have noting (function : HostImport) (top : Option Frame) :
            Leads R (note (.requested guest function top)) := by
          rintro s _ _ ⟨⟩
          exact hR.noted s _ rfl
        have asking : Leads R
            (Host.request ⟨c, Engine.onErrand (Engine.run c room)⟩ guest function args.reverse) :=
          (Leads.reads hR .get).bind hR fun s => (noting _ _).bind hR fun _ =>
            answer room (onErrand hR (Costs.run answer room)) function args.reverse
        exact asking.bind hR fun results => again guest _

end Costs

/-! ### Relations that do not look at jigs -/

/-- A relation that does not mind either that pointers are taken and that jigs are noted, where new
ones are unlocked. So guests may do whatever they are free to do, but for replacing locks. -/
structure Casual (c : Context) (R : Session → Session → Prop) : Prop extends Patient c R where
  pointed : ∀ s n, R s { s with nextIndex := n }
  made : ∀ s (jig : TouchedJig), (jig.previous = none → jig.lock = .unlocked) → R s (s.made jig)

/-- A relation that does not mind replacing locks either. -/
structure Oblivious (c : Context) (R : Session → Session → Prop) : Prop extends Casual c R where
  relocked : ∀ s idx lock, R s (s.relocked idx lock)

namespace Casual

variable {pays locks : Prop} {inv : Invoker} {top : Option Nat} {m : Context → Engine α}
  (hR : Casual c R)

include hR

/-- Constructing a jig leads where its constructor leads. -/
theorem construct (inv : Invoker)
    (home classIdx : Nat) (args : List Value)
    (call : ∀ cls, Leads R ((inv.host c).callConstructor home cls args))
    (new : ∀ cls origin word, Leads R ((inv.host c).newJig home classIdx cls origin word)) :
    Leads R ((inv.host c).construct home classIdx args) := by
  have lenient := hR.toLenient
  have placed : Leads R (inv.host c).newOrigin := by
    refine (Leads.reads lenient .get).bind lenient fun s => ?_
    split
    · exact .reads lenient (.pure _)
    · rintro s _ _ ⟨⟩
      exact hR.pointed s _
  refine (Leads.reads lenient (.instanceAt home)).bind lenient fun inst =>
    (Leads.reads lenient (.orPlain _ _)).bind lenient fun cls => placed.bind lenient fun origin =>
      .touch lenient (fun _ => (ReadsOnly.fail _).silently) fun s jig t run => ?_
  have inner := Leads.bind lenient (hR.inFrame (call cls)) (new cls origin) s jig t run
  obtain ⟨word, u, -, making⟩ := runFrom_bind_eq_ok run
  exact lenient.trans inner (hR.made t jig fun _ => (runFrom_newJig_eq_ok making).2.2)

/-- Whatever is built leads where running guests, replacing locks and paying lead. -/
theorem leads (h : BuiltWith pays locks inv top m)
    (invoke : ∀ guest errand thread, Leads R (inv c guest errand thread))
    (locking : locks → ∀ idx lock, Leads R (changeLock c idx lock))
    (paying : pays → ∀ origin idx, Leads R (pay c origin idx)) : Leads R (m c) := by
  have lenient := hR.toLenient
  refine h.leads hR.toPatient invoke (fun s o jig t run => ?_) (hR.construct inv) locking paying
  refine lenient.trans (Leads.rehydrate (h := inv.host c) lenient invoke o s jig t run)
    (hR.made t jig fun new => ?_)
  rw [(runFrom_rehydrate_eq_ok run).2.2] at new
  cases new

/-- A guest that runs does not pay. It replaces locks by one request only. -/
theorem invoke (jigLock : ∀ room,
      (∀ guest errand thread, Leads R (Engine.onErrand (Engine.run c room) guest errand thread)) →
      ∀ jig kind data,
        Leads R (Host.jigLock ⟨c, Engine.onErrand (Engine.run c room)⟩ jig kind data))
    (room guest : Nat) (errand : Errand) (thread : Thread) :
    Leads R (Engine.onErrand (Engine.run c room) guest errand thread) := by
  have lenient := hR.toLenient
  refine (Costs.onErrand lenient (.run lenient (fun room again function args => ?_) room)
    guest errand thread).leads lenient
  let inv : Invoker := fun c => Engine.onErrand (Engine.run c room)
  have again guest errand thread : Leads R (inv c guest errand thread) :=
    (again guest errand thread).leads lenient
  by_cases asked : function = .jigLock
  case neg =>
    have built : BuiltWith False False inv none fun c => (inv.host c).answer function args :=
      .answer function args asked
    exact hR.leads built again False.elim False.elim
  case pos =>
    subst asked
    change Leads R (withThreeWords (fun jig kind data =>
      Host.jigLock ⟨c, inv c⟩ jig kind data >>= fun _ => pure []) args)
    unfold withThreeWords
    split
    · exact (jigLock room again _ _ _).bind lenient fun _ => .reads lenient (.pure _)
    · exact .reads lenient (.fail _)

end Casual

namespace Oblivious

variable {pays locks : Prop} {top : Option Nat} {m : Context → Engine α} (hR : Oblivious c R)

include hR

theorem changeLock (idx : Nat) (lock : Lock) : Leads R (changeLock c idx lock) := by
  intro s _ t run
  obtain ⟨jig, -, -, rfl⟩ := runFrom_changeLock_eq_ok.1 run
  exact hR.relocked s idx lock

/-- A guest that runs does not pay. -/
theorem invoke (room guest : Nat) (errand : Errand) (thread : Thread) :
    Leads R (Engine.onErrand (Engine.run c room) guest errand thread) := by
  refine hR.toCasual.invoke (fun room again jig kind data => ?_) room guest errand thread
  let inv : Invoker := fun c => Engine.onErrand (Engine.run c room)
  have built : BuiltWith False True inv none fun c => (inv.host c).jigLock jig kind data :=
    .jigLock jig kind data trivial
  exact hR.toCasual.leads built again (fun _ => hR.changeLock) False.elim

/-- Whatever is done in a transaction leads where paying leads. -/
theorem leads_host (h : BuiltWith pays locks invoker top m)
    (paying : pays → ∀ origin idx, Leads R (pay c origin idx)) : Leads R (m c) :=
  hR.toCasual.leads h (hR.invoke _) (fun _ => hR.changeLock) paying

end Oblivious

end JigLedger.Engine
