import JigLedger.Proofs.Engine.Success

/-!
# However a computation ends

A failure ends the transaction, but what happened before it has happened. For relations that have to
hold in this case as well, every part of a computation counts, up to the one that fails. They are
worked out once for every relation between sessions that only the beginning of an instruction and
the calls can disturb: for all that the engine is built from, and for running guests.
-/

namespace JigLedger.Engine

open Wasm (Thread)

variable {α β : Type} {R : Session → Session → Prop} {c : Context} {s t : Session}

/-- The event neither begins an instruction, nor enters or leaves a call. -/
def Event.isInert : Event → Bool
  | .began _ | .entered .. | .left => false
  | _ => true

/-- A relation that holds from a session to a later one if meanwhile no instruction has begun, and
no call was entered or left. -/
structure Tolerant (R : Session → Session → Prop) : Prop where
  inert : ∀ {s t : Session} (events : List Event), t.journal = events ++ s.journal →
    (∀ e ∈ events, e.isInert = true) → t.current = s.current → t.frames = s.frames → R s t
  trans : ∀ {s t u}, R s t → R t u → R s u

/-- A relation that holds from a session to a later one if meanwhile no instruction has begun, no
call was entered or left, and no package was started. -/
structure Enduring (R : Session → Session → Prop) : Prop where
  quiet : ∀ {s t}, Quiet s t → R s t
  trans : ∀ {s t u}, R s t → R t u → R s u
  noted : ∀ s {e : Event}, e.isInert = true → R s (s.record e)
  launched : ∀ s guest, R s (s.launched guest)
  made : ∀ s jig, R s (s.made jig)
  relocked : ∀ s idx lock, R s (s.relocked idx lock)
  spent : ∀ s idx amount, R s (s.spent idx amount)
  deployed : ∀ s package, R s { s with deploys := s.deploys ++ [package] }

theorem Enduring.refl (hR : Enduring R) (s : Session) : R s s := hR.quiet (.refl s)

/-- A relation that does not mind either that a package is started whose imports have been looked
up. -/
structure Welcoming (c : Context) (R : Session → Session → Prop) : Prop extends Enduring R where
  started : ∀ {s t : Session} {id : PackageId} {p : Package} {targets : List (Option Nat)}
    (guest allocator : Nat), R s t → s.package? c id = some p →
    runFrom s (p.abi.imports.mapM (importTarget c)) = (.ok targets, s) →
    R t (t.started ⟨p, guest, allocator, targets⟩)

namespace Tolerant

variable (hR : Tolerant R)

include hR

/-- One event has happened that is inert. -/
theorem event {e : Event} (inert : e.isInert = true) (journal : t.journal = e :: s.journal)
    (current : t.current = s.current) (frames : t.frames = s.frames) : R s t := by
  refine hR.inert [e] journal (fun e' mem => ?_) current frames
  rw [List.mem_singleton.1 mem]
  exact inert

theorem quiet (h : Quiet s t) : R s t := by
  obtain ⟨texts, journal⟩ := h.journal
  refine hR.inert _ journal (fun e mem => ?_) h.current h.frames
  obtain ⟨text, -, rfl⟩ := List.mem_map.1 mem
  rfl

theorem enduring : Enduring R where
  quiet := hR.quiet
  trans := hR.trans
  noted _ _ inert := hR.event inert rfl rfl rfl
  launched s _ := hR.event (e := .launched s.guests.length) rfl rfl rfl rfl
  made _ jig := hR.event (e := .made jig) rfl rfl rfl rfl
  relocked _ idx lock := hR.event (e := .relocked idx lock) rfl rfl rfl rfl
  spent _ idx _ := hR.event (e := .spent idx) rfl rfl rfl rfl
  deployed _ _ := hR.inert [] rfl nofun rfl rfl

theorem welcoming (c : Context) : Welcoming c R where
  toEnduring := hR.enduring
  started _ _ _ _ _ := hR.event (e := .started _) rfl rfl rfl rfl

end Tolerant

/-- However a computation ends, a relation holds between the sessions before and after it. -/
def Ends (R : Session → Session → Prop) (m : Engine α) : Prop := ∀ s, R s (runFrom s m).2

/-- A relation that does not mind either that something is done in a frame. -/
structure Unruffled (c : Context) (R : Session → Session → Prop) : Prop extends Tolerant R where
  inFrame : ∀ {α : Type} {entry : Entry} {frame : Frame} {callee : Abi.Callable}
    {args : List Value} {body : Engine α},
    Ends R body → Ends R (inFrame c entry frame callee args body)

namespace Ends

theorem rethrow {m : Engine α} {g : Failure → Failure} (h : Ends R m) :
    Ends R (tryCatch m fun e => throw (g e)) := by
  intro s
  have body := h s
  rw [runFrom_tryCatch]
  rcases run : runFrom s m with ⟨e | a, t⟩ <;> rw [run] at body <;> exact body

section Enduring

variable (hR : Enduring R)

include hR

/-- A computation goes on from a session that an earlier one has led to. If its first part fails,
the relation still holds from the earlier one, so only success of that part is left to consider. -/
theorem onward {m : Engine α} {f : α → Engine β} (since : R s t) (hm : Ends R m)
    (hf : ∀ a u, runFrom t m = (.ok a, u) → R t u → R s (runFrom u (f a)).2) :
    R s (runFrom t (m >>= f)).2 := by
  have first := hm t
  rw [runFrom_bind]
  rcases run : runFrom t m with ⟨e | a, u⟩ <;> rw [run] at first
  · exact hR.trans since first
  · exact hf a u run first

/-- The second part of a computation counts from where the first part has led. -/
theorem before {m : Engine α} {f : α → Engine β} (hm : Ends R m)
    (hf : ∀ a t, runFrom s m = (.ok a, t) → R s t → R t (runFrom t (f a)).2) :
    R s (runFrom s (m >>= f)).2 :=
  onward hR (hR.refl s) hm fun a t run led => hR.trans led (hf a t run led)

theorem bind {m : Engine α} {f : α → Engine β} (hm : Ends R m) (hf : ∀ a, Ends R (f a)) :
    Ends R (m >>= f) := fun _ => before hR hm fun a t _ _ => hf a t

theorem quietly {m : Engine α} (h : Quietly m) : Ends R m := fun s => hR.quiet (h s)

theorem reads {m : Engine α} (h : ReadsOnly m) : Ends R m := quietly hR h.quietly

theorem note {e : Event} (inert : e.isInert = true) : Ends R (note e) := fun s => hR.noted s inert

theorem addGuest (guest : Guest) : Ends R (Host.addGuest guest) := fun s => hR.launched s guest

theorem register (jig : TouchedJig) : Ends R (register jig) := fun s => hR.made s jig

theorem touch {origin : Pointer} {touched : Nat → Engine Nat} {make : Engine TouchedJig}
    (known : ∀ idx, Ends R (touched idx)) (made : Ends R make) :
    Ends R (touch origin touched make) := by
  refine bind hR (reads hR .get) fun s => ?_
  cases s.jigIndex? origin
  · exact bind hR (note hR rfl) fun _ => bind hR made (register hR)
  · exact known _

theorem changeLock (idx : Nat) (lock : Lock) : Ends R (changeLock c idx lock) := by
  refine bind hR (reads hR (.jigAt idx)) fun jig => bind hR (reads hR (.authority c)) fun auth => ?_
  split
  · exact fun s => hR.relocked s idx lock
  · exact reads hR (.fail _)

theorem pay (origin : Pointer) (idx : Nat) : Ends R (pay c origin idx) := by
  refine bind hR (reads hR (.jigAt idx)) fun jig => bind hR (reads hR (.classOfJig jig))
    fun cls => ?_
  split
  · exact reads hR (.fail _)
  refine bind hR (reads hR (.orMissing _ _)) fun field => bind hR (reads hR (.authority c))
    fun auth => bind hR (reads hR (.orError _ _)) fun _ => bind hR (reads hR (.look _ _))
      fun value => ?_
  cases value.asU64?
  · exact reads hR (.failPlain _)
  dsimp only
  split
  · exact reads hR (.fail _)
  · exact fun s => hR.spent s idx _

theorem deploy (h : Host) (entries : List String) (sources : Sources) :
    Ends R (h.deploy entries sources) := by
  refine bind hR (reads hR (.orPlain _ _)) fun id =>
    bind hR (reads hR (ReadsOnly.get.bind fun _ => .pure _)) fun known => ?_
  split
  · exact reads hR (.fail _)
  refine bind hR (reads hR (.orError _ _)) fun _ => bind hR (reads hR (.orError _ _))
    fun package => bind hR ?_ fun _ => reads hR (.pure _)
  exact fun s => hR.deployed s package

/-- A call pushes its frame, runs, and pops the frame. -/
theorem framed {entry : Entry} {frame : Frame} {callee : Abi.Callable} {args : List Value}
    {body : Engine α} (entered : ∀ s, R s (s.entered entry frame callee args))
    (left : ∀ s, R s s.left) (h : Ends R body) :
    Ends R (inFrame c entry frame callee args body) := by
  have push : Ends R (pushFrame c entry frame callee args) := by
    intro s
    rw [runFrom_pushFrame]
    split
    · exact entered s
    · exact hR.refl s
  have pop : Ends R popFrame := by
    intro s
    rw [runFrom_popFrame]
    split
    · exact hR.refl s
    · exact left s
  exact bind hR push fun _ => bind hR h fun result => bind hR pop fun _ => reads hR (.pure result)

section Guests

variable {h : Host} (invoke : ∀ guest errand thread, Ends R (h.invoke guest errand thread))

include invoke

theorem invokeAt (home : Nat) (errand : Errand) (thread : PackageInstance → Thread) :
    Ends R (h.invokeAt home errand thread) :=
  bind hR (reads hR (.instanceAt home)) fun _ => invoke _ _ _

theorem alloc (home : Nat) (errand : Errand) (size : UInt32) :
    Ends R (h.alloc home errand size) := by
  refine bind hR (invokeAt hR invoke home errand _) fun results =>
    bind hR (reads hR (.resultWord results)) fun word => ?_
  dsimp only
  split
  · exact reads hR (.failPlain _)
  · exact bind hR (reads hR (.look _ _)) fun _ => reads hR (.pure _)

/-- Using the memory of a package ends where running its allocator ends. -/
theorem heap (home : Nat) (errand : Errand) :
    OfHeap (fun _ m => Ends R (m h.context)) fun _ => h.heap home errand where
  pure _ := reads hR (.pure _)
  bind hm hf := bind hR hm hf
  alloc := alloc hR invoke home errand
  write _ _ := quietly hR (Silently.writeBytes _ _ _).quietly
  fail _ := reads hR (.failPlain _)

theorem buildObject (home : Nat) (cls : Abi.Class) (origin : Pointer) (values : List Value) :
    Ends R (h.buildObject home cls origin values) := by
  have heap := heap hR invoke home (.object home)
  exact bind hR (heap.alloc _) fun address => bind hR (heap.writeOrigin _ _) fun _ =>
    bind hR (heap.writeRecord _ _ _) fun _ => reads hR (.pure _)

theorem newJig (home classIdx : Nat) (cls : Abi.Class) (origin : Pointer) (word : Option UInt64) :
    Ends R (h.newJig home classIdx cls origin word) := by
  have heap := heap hR invoke home (.origin home)
  unfold Host.newJig
  dsimp only
  split
  · exact reads hR (.fail _)
  · exact bind hR (reads hR (.look _ _)) fun _ => bind hR (heap.writeOrigin _ _) fun _ =>
      reads hR (.pure _)

theorem runStart (m : Wasm.Module) (guest : Nat) : Ends R (h.runStart m guest) := by
  unfold Host.runStart
  cases m.start
  · exact reads hR (.pure _)
  · exact bind hR (invoke _ _ _) fun _ => reads hR (.pure _)

end Guests

/-! ### Running guests -/

/-- Noting an errand around a run makes no difference. -/
theorem onErrand {f : Nat → Thread → Engine (List Wasm.Val)}
    (hf : ∀ guest thread, Ends R (f guest thread)) (guest : Nat) (errand : Errand)
    (thread : Thread) : Ends R (onErrand f guest errand thread) :=
  bind hR (note hR rfl) fun _ => bind hR (hf guest thread) fun results =>
    bind hR (note hR rfl) fun _ => reads hR (.pure results)

/-- Running a guest ends where answering its requests ends. An answer may run guests in its turn,
with what is left of the room. -/
theorem run (answer : ∀ room,
      (∀ guest errand thread, Ends R (Engine.onErrand (Engine.run c room) guest errand thread)) →
      ∀ function args,
        Ends R (Host.answer ⟨c, Engine.onErrand (Engine.run c room)⟩ function args)) :
    ∀ room guest thread, Ends R (Engine.run c room guest thread)
  | 0, _, _ => reads hR (.throw _)
  | room + 1, guest, thread => by
    refine bind hR (quietly hR Silently.burn.quietly) fun _ =>
      bind hR (reads hR (.guestAt guest)) fun found => ?_
    dsimp only
    cases found.machine.step thread with
    | running machine thread =>
      exact bind hR (quietly hR (Silently.setMachine guest machine).quietly) fun _ =>
        run answer room guest thread
    | finished results => exact reads hR (.pure _)
    | trapped trap => exact reads hR (.throw _)
    | stuck => exact reads hR (.fail _)
    | waiting function args thread =>
      dsimp only
      cases found.links[function]? with
      | none => exact reads hR (.fail _)
      | some function =>
        have request : Ends R (Host.request ⟨c, Engine.onErrand (Engine.run c room)⟩ guest function
            args.reverse) :=
          bind hR (reads hR .get) fun s => bind hR (note hR rfl) fun _ =>
            answer room (onErrand hR (run answer room)) function args.reverse
        exact bind hR request fun results => run answer room guest _

end Enduring

section Welcoming

variable {h : Host} (hR : Welcoming h.context R)
  (invoke : ∀ guest errand thread, Ends R (h.invoke guest errand thread))

include hR invoke

/-- A package is started after its imports have been looked up. -/
theorem instantiate {id : PackageId} {p : Package}
    {targets : List (Option Nat)} (found : s.package? h.context id = some p)
    (resolved : runFrom s (p.abi.imports.mapM (importTarget h.context)) = (.ok targets, s)) :
    R s (runFrom s (h.instantiate p targets)).2 := by
  have enduring := hR.toEnduring
  refine before enduring (rethrow (reads enduring (.linkedGuest h p.module)))
    fun guest t _ linked => ?_
  refine before enduring (addGuest enduring guest) fun idx u _ added => ?_
  refine before enduring (rethrow (runStart enduring invoke p.module idx)) fun _ v _ ran => ?_
  refine before enduring (reads enduring (.allocatorOf p)) fun allocator w _ named => ?_
  have led : R s w := hR.trans (hR.trans (hR.trans linked added) ran) named
  exact hR.started idx allocator led found resolved

theorem instanceFor (id : PackageId) : Ends R (h.instanceFor id) := by
  have enduring := hR.toEnduring
  refine fun s => before enduring (reads enduring .get) fun u t looked _ => ?_
  cases looked
  cases s.instanceIndex? id
  case some => exact reads enduring (.pure _) s
  refine before enduring (reads enduring (.packageOr h.context _ id)) fun p t packaged _ => ?_
  obtain ⟨found, rfl⟩ := runFrom_packageOr_eq_ok.1 packaged
  refine before enduring (reads enduring (.mapM (.importTarget h.context) p.abi.imports))
    fun targets u resolved _ => ?_
  obtain rfl := ReadsOnly.of_ok (.mapM (.importTarget h.context) p.abi.imports) resolved
  exact instantiate hR invoke found resolved

end Welcoming

section Loading

variable (hR : Enduring R) {h : Host} (boots : ∀ id, Ends R (h.instanceFor id))
  (invoke : ∀ guest errand thread, Ends R (h.invoke guest errand thread))

include hR boots invoke

theorem rehydrate (o : Output) : Ends R (h.rehydrate o) :=
  bind hR (reads hR (.orError _ _)) fun _ => bind hR (reads hR (.packageOf _ _)) fun _ =>
    bind hR (boots _) fun home => bind hR (reads hR (.instanceAt home)) fun _ =>
      bind hR (reads hR (.orError _ _)) fun cls => bind hR (reads hR (.orError _ _)) fun _ =>
        bind hR (buildObject hR invoke home cls _ _) fun _ => reads hR (.pure _)

theorem loadLatest (origin : Pointer) {touched : Nat → Engine Nat}
    (silent : ∀ idx, Silently (touched idx)) : Ends R (h.loadLatest origin touched) :=
  touch hR (fun idx => quietly hR (silent idx).quietly)
    (bind hR (reads hR (.latestOutput h.context origin)) (rehydrate hR boots invoke))

theorem loadByLocation (location : Pointer) : Ends R (h.loadByLocation location) :=
  bind hR (reads hR (.orMissing _ _)) fun o =>
    bind hR (touch hR (fun _ => reads hR (.fail _)) (rehydrate hR boots invoke o))
      fun _ => reads hR (.pure _)

end Loading

end Ends

/-! ### Whatever is built -/

/-- Packages are looked up and started with an end that suits a relation, if guests run with one. -/
def Boots (c : Context) (R : Session → Session → Prop) : Prop :=
  ∀ inv : Invoker, (∀ guest errand thread, Ends R (inv c guest errand thread)) →
    ∀ id, Ends R ((inv.host c).instanceFor id)

theorem Welcoming.boots (hR : Welcoming c R) : Boots c R := fun _ invoke => .instanceFor hR invoke

section Built

variable {inv : Invoker} {top : Option Nat} {m : Context → Engine α} (hR : Enduring R)
  (boots : Boots c R)
  (framed : ∀ {α : Type} {entry : Entry} {frame : Frame} {callee : Abi.Callable}
    {args : List Value} {body : Engine α},
    Ends R body → Ends R (Engine.inFrame c entry frame callee args body))

include hR boots framed

/-- Whatever is built ends where running guests ends, if calls end where their bodies do. -/
theorem Built.ends_of_framed (h : Built inv top m)
    (invoke : ∀ guest errand thread, Ends R (inv c guest errand thread)) : Ends R (m c) := by
  have booting := boots inv invoke
  induction h with
  | silent silent => exact .quietly hR (silent c).quietly
  | bind _ _ first rest => exact first.bind hR rest
  | calling _ rest => exact (Ends.reads hR .callingHome).bind hR rest
  | rethrow g _ body => exact body.rethrow
  | package error id => exact .reads hR (.packageOr c error id)
  | judge origin => exact .reads hR (.classOf c origin)
  | deploy entries sources => exact .deploy hR _ entries sources
  | invoke home errand thread => exact .invokeAt hR invoke home errand thread
  | boot id => exact booting id
  | loadLatest origin touched silent => exact .loadLatest hR booting invoke origin silent
  | loadByLocation location => exact .loadByLocation hR booting invoke location
  | construct home classIdx args _ _ call new =>
    exact (Ends.reads hR (.instanceAt home)).bind hR fun inst =>
      (Ends.reads hR (.orPlain _ _)).bind hR fun cls =>
        (Ends.quietly hR (.newOrigin _)).bind hR fun origin =>
          .touch hR (fun idx => .reads hR (.fail _))
            ((framed (call cls)).bind hR fun word => new cls origin word)
  | method idx method args _ body =>
    refine (Ends.reads hR (.jigAt idx)).bind hR fun jig =>
      (Ends.reads hR (.authority c)).bind hR fun auth => ?_
    split
    · exact framed (body _ _)
    · exact .reads hR (.fail _)
  | function home function args _ body =>
    exact (Ends.reads hR .get).bind hR fun s => framed body
  | changeLock idx lock _ => exact .changeLock hR idx lock
  | pay origin idx => exact .pay hR origin idx

/-- Running a guest ends as its requests do, whatever it asks for. -/
theorem Ends.guest_of_framed (room guest : Nat) (errand : Errand) (thread : Thread) :
    Ends R (Engine.onErrand (Engine.run c room) guest errand thread) := by
  refine .onErrand hR (.run hR (fun room invoke function args => ?_) room)
    guest errand thread
  have built : Built (fun c => Engine.onErrand (Engine.run c room)) none fun c =>
    Host.answer ⟨c, Engine.onErrand (Engine.run c room)⟩ function args := .answer function args
  exact built.ends_of_framed hR boots framed invoke

/-- However an instruction ends. -/
theorem Ends.instruction_of_framed (i : Instruction) : Ends R ((host c).instruction i) := by
  have built : Built invoker none fun c => (invoker.host c).instruction i := .instruction i
  exact built.ends_of_framed hR boots framed (.guest_of_framed hR boots framed _)

section Transactions

variable (began : ∀ s idx, R s (s.began idx))
  (stated : ∀ s statements, R s { s with statements := statements })

include began stated

/-- However the instructions from some index on end. -/
theorem Ends.steps : ∀ (instructions : List Instruction) (idx : Nat),
    Ends R (steps (host c) idx instructions)
  | [], _ => .reads hR (.pure _)
  | i :: rest, idx => by
    have step : Ends R (step (host c) idx i) :=
      (Ends.reads hR .get).bind hR fun _ => bind hR (fun s => began s idx) fun _ =>
        (Ends.instruction_of_framed hR boots framed i).bind hR fun _ =>
          bind hR (fun s => stated s _) fun _ =>
            (Ends.reads hR .get).bind hR fun _ => .reads hR (.pure _)
    exact step.rethrow.bind hR fun _ => (steps rest (idx + 1)).bind hR fun _ =>
      .reads hR (.pure _)

/-- However a transaction ends. -/
theorem Ends.transact (tx : Transaction) : Ends R (transact c tx) :=
  (Ends.steps hR boots framed began stated _ _).bind hR fun _ =>
    (Ends.quietly hR (.finalize c)).bind hR fun _ =>
      (Ends.reads hR .get).bind hR fun _ => .reads hR (.pure _)

end Transactions

end Built

section Unruffled

variable {inv : Invoker} {top : Option Nat} {m : Context → Engine α} (hR : Unruffled c R)

include hR

/-- Whatever is built ends where running guests ends. -/
theorem Built.ends (h : Built inv top m)
    (invoke : ∀ guest errand thread, Ends R (inv c guest errand thread)) : Ends R (m c) :=
  h.ends_of_framed hR.enduring (hR.welcoming c).boots hR.inFrame invoke

/-- Running a guest ends as its requests do, whatever it asks for. -/
theorem Ends.guest (room guest : Nat) (errand : Errand) (thread : Thread) :
    Ends R (Engine.onErrand (Engine.run c room) guest errand thread) :=
  .guest_of_framed hR.enduring (hR.welcoming c).boots hR.inFrame room guest errand thread

/-- However an instruction ends. -/
theorem Ends.instruction (i : Instruction) : Ends R ((host c).instruction i) :=
  .instruction_of_framed hR.enduring (hR.welcoming c).boots hR.inFrame i

end Unruffled

end JigLedger.Engine
