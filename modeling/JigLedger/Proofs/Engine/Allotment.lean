import JigLedger.Proofs.Allocator
import JigLedger.Proofs.Engine.Calm
import JigLedger.Proofs.Engine.Footprint

/-!
# Allocations between calls

While no call is on the stack, running a guest changes the machine of this guest and nothing else,
and the machine gets there by itself. So when the engine asks the allocator of a package for bytes,
the package goes on with one of the histories that its allocator is relied on for, and the heap of
the package serves the engine.
-/

namespace JigLedger.Engine

open Wasm (Val Thread Finishes)

variable {c : Context} {s t u : Session} {idx : Nat} {guest : Guest}

/-! ### Changing one guest -/

/-- Nothing of what the transaction has done has changed, and no guest but one. -/
structure OnlyGuest (idx : Nat) (s t : Session) : Prop extends Unmoved s t where
  instances : t.instances = s.instances
  count : t.guests.length = s.guests.length
  others : ∀ i, i ≠ idx → t.guests[i]? = s.guests[i]?

theorem OnlyGuest.refl (idx : Nat) (s : Session) : OnlyGuest idx s s :=
  ⟨⟨rfl, rfl, rfl, rfl, rfl, rfl, rfl⟩, rfl, rfl, fun _ _ => rfl⟩

theorem OnlyGuest.trans (h : OnlyGuest idx s t) (h' : OnlyGuest idx t u) : OnlyGuest idx s u :=
  ⟨h.toUnmoved.trans h'.toUnmoved, h'.instances.trans h.instances, h'.count.trans h.count,
    fun i other => (h'.others i other).trans (h.others i other)⟩

theorem onlyGuest_record (idx : Nat) (s : Session) (e : Event) : OnlyGuest idx s (s.record e) :=
  ⟨⟨rfl, rfl, rfl, rfl, rfl, rfl, rfl⟩, rfl, rfl, fun _ _ => rfl⟩

/-- A guest that is there has the new machine afterwards. -/
theorem runFrom_setMachine_eq_ok {machine : Wasm.Instance} (found : s.guests[idx]? = some guest)
    (run : runFrom s (setMachine idx machine) = (.ok (), t)) :
    OnlyGuest idx s t ∧ t.guests[idx]? = some { guest with machine := machine } := by
  cases run
  refine ⟨⟨⟨rfl, rfl, rfl, rfl, rfl, rfl, rfl⟩, rfl, List.length_modify .., ?_⟩, ?_⟩
  · intro i other
    simp [other.symm]
  · simp [found]

/-! ### Running a guest -/

/-- A guest that has been run without a frame has come to the end of its thread by itself. -/
theorem runFrom_run_eq_ok {room : Nat} {thread : Thread} {results : List Val}
    (frameless : s.frames = []) (found : s.guests[idx]? = some guest)
    (ran : runFrom s (run c room idx thread) = (.ok results, t)) :
    OnlyGuest idx s t ∧ ∃ machine,
      Finishes (Unanswered c.env.config guest.links) guest.machine thread results machine ∧
      t.guests[idx]? = some { guest with machine := machine } := by
  induction room generalizing s thread guest with
  | zero => cases ran
  | succ room ih =>
    obtain ⟨_, _, burnt, running⟩ := runFrom_bind_eq_ok ran
    obtain ⟨-, rfl⟩ := runFrom_burn_eq_ok burnt
    obtain ⟨guest', _, looked, stepping⟩ := runFrom_bind_eq_ok running
    obtain ⟨here, rfl⟩ := runFrom_guestAt_eq_ok.1 looked
    obtain rfl : guest' = guest := Option.some.inj (here.symm.trans found)
    have burning : OnlyGuest idx s { s with fuel := s.fuel - 1 } :=
      ⟨⟨rfl, rfl, rfl, rfl, rfl, rfl, rfl⟩, rfl, rfl, fun _ _ => rfl⟩
    split at stepping
    case h_1 machine next stepped =>
      obtain ⟨_, u, placed, going⟩ := runFrom_bind_eq_ok stepping
      obtain ⟨only, there⟩ := runFrom_setMachine_eq_ok here placed
      have quiet := burning.trans only
      obtain ⟨rest, last, finishes, at'⟩ := ih (quiet.frames.trans frameless) there going
      exact ⟨quiet.trans rest, last, .step stepped finishes, at'⟩
    case h_2 stepped =>
      cases stepping
      exact ⟨burning, guest'.machine, .done stepped, here⟩
    case h_3 => cases stepping
    case h_4 => cases stepping
    case h_5 f args next stepped =>
      split at stepping
      case h_1 => cases stepping
      case h_2 function linked =>
        obtain ⟨answers, u, asked, going⟩ := runFrom_bind_eq_ok stepping
        obtain ⟨_, _, looked, noting⟩ := runFrom_bind_eq_ok asked
        cases looked
        obtain ⟨_, _, noted, answered⟩ := runFrom_bind_eq_ok noting
        cases noted
        obtain ⟨rfl, rfl, rfl, unwanted, text⟩ := runFrom_answer_eq_ok (by exact frameless) answered
        obtain ⟨rest, last, finishes, at'⟩ := ih (by exact frameless) (by exact here) going
        have requested := burning.trans
          (onlyGuest_record idx _ (.requested idx .debugStr s.frames.head?))
        exact ⟨requested.trans rest, last, .pass stepped ⟨unwanted, linked, text⟩ finishes, at'⟩

/-- Running a guest for an errand is running it. -/
theorem runFrom_invoke_eq_ok {errand : Errand} {thread : Thread} {results : List Val}
    (frameless : s.frames = []) (found : s.guests[idx]? = some guest)
    (ran : runFrom s ((host c).invoke idx errand thread) = (.ok results, t)) :
    OnlyGuest idx s t ∧ ∃ machine,
      Finishes (Unanswered c.env.config guest.links) guest.machine thread results machine ∧
      t.guests[idx]? = some { guest with machine := machine } := by
  obtain ⟨_, _, noted, running⟩ := runFrom_bind_eq_ok ran
  cases noted
  obtain ⟨_, u, going, finishing⟩ := runFrom_bind_eq_ok running
  obtain ⟨_, _, noted, returned⟩ := runFrom_bind_eq_ok finishing
  cases noted
  cases returned
  have invoked := onlyGuest_record idx s (.invoked idx errand)
  obtain ⟨only, machine, finishes, there⟩ :=
    runFrom_run_eq_ok (by exact frameless) (by exact found) going
  exact ⟨(invoked.trans only).trans (onlyGuest_record idx u _), machine, finishes, there⟩

/-- A start function that has been run has come to its end by itself. -/
theorem runFrom_runStart_eq_ok {m : Wasm.Module} (frameless : s.frames = [])
    (found : s.guests[idx]? = some guest)
    (ran : runFrom s ((host c).runStart m idx) = (.ok (), t)) :
    OnlyGuest idx s t ∧ ∃ machine,
      Begins c.env.config guest.links m guest.machine machine ∧
      t.guests[idx]? = some { guest with machine := machine } := by
  rw [Host.runStart] at ran
  rcases start : m.start with _ | f <;> rw [start] at ran <;> simp only [Begins, start]
  · cases ran
    exact ⟨.refl _ _, guest.machine, rfl, found⟩
  · obtain ⟨results, _, invoked, returned⟩ := runFrom_bind_eq_ok ran
    cases returned
    obtain ⟨only, machine, finishes, there⟩ := runFrom_invoke_eq_ok frameless found invoked
    exact ⟨only, machine, ⟨results, finishes⟩, there⟩

/-! ### The heap of a package -/

/-- A package runs as a guest. Its module has been started and used by the engine, its allocator has
returned the bytes of an area, and it can be relied on. -/
structure Leased (c : Context) (inst : PackageInstance) (guest : Guest) (A : Set Nat) : Prop where
  linked : inst.package.module.imports.mapM HostImport.link = .ok guest.links
  exported : inst.package.module.exportedFunc? Package.allocExport = some inst.allocator
  allotted : Allotted c.env.config inst.package guest.links guest.machine A
  valid : inst.package.module.validate = .ok ()
  apart : KeepsApart c.env.config inst.package

/-- What a session shows of a package while nothing else has changed since an earlier session: the
memory of the package, and what its allocator has returned. -/
def yard (c : Context) (inst : PackageInstance) (s₀ : Session) : View := fun s mem A =>
  OnlyGuest inst.guest s₀ s ∧ ∃ guest, s.guests[inst.guest]? = some guest ∧
    guest.machine.memory = mem ∧ Leased c inst guest A

/-- A word in the results of an allocator is an address. -/
theorem address?_of_resultWord {results : List Val} {word : UInt64}
    (run : runFrom s (resultWord results) = (.ok word, t)) (nonzero : word.toUInt32 ≠ 0) :
    address? results = some word.toUInt32 ∧ t = s := by
  unfold resultWord at run
  split at run
  case h_1 n rest =>
    cases n <;> cases run
    · exact ⟨by simp [address?], rfl⟩
    · exact ⟨rfl, rfl⟩
  case h_2 =>
    cases run
    exact absurd rfl nonzero

/-- Between calls the heap of a package serves the engine. -/
theorem serves_heap {inst : PackageInstance} {s₀ : Session} {home : Nat} {errand : Errand}
    (frameless : s₀.frames = []) (there : s₀.instances[home]? = some inst) :
    Serves (yard c inst s₀) ((host c).heap home errand) where
  size := by
    rintro s _ A ⟨-, guest, -, rfl, leased⟩
    exact leased.allotted.isAddressable leased.valid
  alloc := by
    rintro s _ A size p t ⟨only, guest, here, rfl, leased⟩ run
    have quiet : s.frames = [] := only.frames.trans frameless
    have same : s.instances[home]? = some inst := by rwa [only.instances]
    obtain ⟨results, u, invoked, lifting⟩ := runFrom_bind_eq_ok run
    obtain ⟨inst', _, looked, running⟩ := runFrom_bind_eq_ok invoked
    obtain ⟨found, rfl⟩ := runFrom_instanceAt_eq_ok.1 looked
    obtain rfl : inst' = inst := Option.some.inj (found.symm.trans same)
    obtain ⟨only', machine, finishes, there'⟩ := runFrom_invoke_eq_ok quiet here running
    obtain ⟨word, _, lifted, checking⟩ := runFrom_bind_eq_ok lifting
    obtain rfl := ReadsOnly.of_ok (.resultWord results) lifted
    dsimp only at checking
    split at checking
    case isTrue => cases checking
    case isFalse nonzero =>
      obtain ⟨_, _, ranged, returned⟩ := runFrom_bind_eq_ok checking
      cases returned
      obtain ⟨rfl, inst'', guest', found', here', checked⟩ := runFrom_look_eq_ok ranged
      rw [only'.instances, same] at found'
      cases found'
      rw [there'] at here'
      cases here'
      have returns : Returns c.env.config inst'.package guest.links guest.machine size
          word.toUInt32 machine :=
        ⟨⟨_, results, leased.exported, finishes, (address?_of_resultWord lifted nonzero).1⟩,
          nonzero, LinearMemory.checkRange_eq_ok.1 checked⟩
      obtain ⟨apart, agrees⟩ := leased.apart leased.linked leased.allotted returns
      refine ⟨nonzero, machine.memory, ⟨only.trans only', _, there', rfl, ?_⟩, agrees,
        returns.within, apart⟩
      exact ⟨leased.linked, leased.exported, leased.allotted.given returns, leased.valid,
        leased.apart⟩
  write := by
    rintro s _ A address bs t ⟨only, guest, here, rfl, leased⟩ run
    have same : s.instances[home]? = some inst := by rwa [only.instances]
    obtain ⟨inst', _, looked, guesting⟩ := runFrom_bind_eq_ok run
    obtain ⟨found, rfl⟩ := runFrom_instanceAt_eq_ok.1 looked
    obtain rfl : inst' = inst := Option.some.inj (found.symm.trans same)
    obtain ⟨guest', _, looked, writing⟩ := runFrom_bind_eq_ok guesting
    obtain ⟨here', rfl⟩ := runFrom_guestAt_eq_ok.1 looked
    obtain rfl : guest' = guest := Option.some.inj (here'.symm.trans here)
    obtain ⟨mem', _, wrote, placing⟩ := runFrom_bind_eq_ok writing
    obtain ⟨written, rfl⟩ := runFrom_orPlain_eq_ok.1 wrote
    obtain ⟨only', there'⟩ := runFrom_setMachine_eq_ok here placing
    refine ⟨mem', written, fun inside => ⟨only.trans only', _, there', rfl, ?_⟩⟩
    obtain ⟨-, rfl⟩ := LinearMemory.write_eq_ok.1 written
    exact ⟨leased.linked, leased.exported, leased.allotted.written inside, leased.valid,
      leased.apart⟩
  fail := nofun

end JigLedger.Engine
