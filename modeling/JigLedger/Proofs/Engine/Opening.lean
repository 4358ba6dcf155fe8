import JigLedger.Proofs.Engine.Calm
import JigLedger.Proofs.Engine.Provenance

/-!
# The opening of a transaction

Until a transaction has been paid for, its instructions can only import packages, load jigs and
sign. So the touched jigs are those that were loaded, in the order of the instructions, each as it
is stored. At any time an instruction that loads a jig finds it in the store, and the transaction
spends it in the end.
-/

namespace JigLedger

namespace Instruction

/-- The output that an instruction loads from a store. -/
def loaded? (store : Store) : Instruction → Option Output
  | load location => store.byLocation location
  | loadByOrigin origin => store.byOrigin origin
  | _ => none

/-- The instruction loads a jig. -/
def isLoad : Instruction → Bool
  | load _ | loadByOrigin _ => true
  | _ => false

/-- The instruction pays for the transaction, or needs that it has been paid for. -/
def isPaid (i : Instruction) : Bool := i.opcode = .fund || i.opcode.requiresFunding

end Instruction

namespace Engine

variable {c : Context} {h : Host} {s t u : Session} {i : Instruction}

/-! ### One instruction after the other -/

/-- An instruction that has run has noted its statement. -/
theorem runFrom_step_eq_ok {idx fuel : Nat} (run : runFrom s (step h idx i) = (.ok fuel, t)) :
    ∃ statement u, runFrom (s.began idx) (h.instruction i) = (.ok statement, u) ∧
      t = { u with statements := u.statements ++ [statement] } := by
  obtain ⟨_, _, looked, rest⟩ := runFrom_bind_eq_ok run
  cases looked
  obtain ⟨_, _, began, performing⟩ := runFrom_bind_eq_ok rest
  cases began
  obtain ⟨statement, u, performed, noting⟩ := runFrom_bind_eq_ok performing
  obtain ⟨_, _, noted, counting⟩ := runFrom_bind_eq_ok noting
  cases noted
  obtain ⟨_, _, looked, returned⟩ := runFrom_bind_eq_ok counting
  cases looked
  cases returned
  exact ⟨statement, u, performed, rfl⟩

/-- What needs funds runs only when they are there. -/
theorem runFrom_instruction_eq_ok {statement : Statement}
    (run : runFrom s (h.instruction i) = (.ok statement, t)) :
    (i.opcode.requiresFunding = true → s.funded = true) ∧
      runFrom s (h.perform i) = (.ok statement, t) := by
  obtain ⟨_, _, looked, rest⟩ := runFrom_bind_eq_ok run
  cases looked
  split at rest
  case isTrue => cases rest
  case isFalse free =>
    refine ⟨fun needs => ?_, rest⟩
    simpa [needs] using free

theorem runFrom_instruction_of_free (free : i.opcode.requiresFunding = false) :
    runFrom s (h.instruction i) = runFrom s (h.perform i) := by
  rw [Host.instruction, runFrom_bind_of_ok (runFrom_get s), free, Bool.false_and]
  rfl

/-- The other instructions run after one that has succeeded. -/
theorem runFrom_steps_cons_of_ok {later : List Instruction} {idx : Nat} {fuels : List Nat}
    {statement : Statement}
    (here : runFrom (s.began idx) (h.instruction i) = (.ok statement, t))
    (rest : runFrom { t with statements := t.statements ++ [statement] }
      (steps h (idx + 1) later) = (.ok fuels, u)) :
    ∃ fuels, runFrom s (steps h idx (i :: later)) = (.ok fuels, u) := by
  have stepped : runFrom s (step h idx i) =
      (.ok (s.fuel - t.fuel), { t with statements := t.statements ++ [statement] }) := by
    rw [step, runFrom_bind_of_ok (runFrom_get s), runFrom_bind_of_ok (runFrom_modify s _),
      runFrom_bind_of_ok here, runFrom_bind_of_ok (runFrom_modify t _)]
    rfl
  refine ⟨(s.fuel - t.fuel) :: fuels, ?_⟩
  rw [steps, runFrom_bind_of_ok (runFrom_rethrow_eq_ok.2 stepped), runFrom_bind_of_ok rest]
  rfl

/-- An instruction that fails is the last one. -/
theorem runFrom_steps_cons_of_error {later : List Instruction} {idx : Nat} {failure : Failure}
    (here : runFrom (s.began idx) (h.instruction i) = (.error failure, t)) :
    runFrom s (steps h idx (i :: later)) =
      (.error (.ofError (failure.toError.withInstruction idx)), t) := by
  have stepped : runFrom s (step h idx i) = (.error failure, t) := by
    rw [step, runFrom_bind_of_ok (runFrom_get s), runFrom_bind_of_ok (runFrom_modify s _),
      runFrom_bind, here]
  rw [steps, runFrom_bind, runFrom_tryCatch, stepped]
  rfl

/-- Instructions have run one after the other. -/
theorem runFrom_steps_append_eq_ok {earlier later : List Instruction} {idx : Nat}
    {fuels : List Nat} (run : runFrom s (steps h idx (earlier ++ later)) = (.ok fuels, u)) :
    ∃ first t second, runFrom s (steps h idx earlier) = (.ok first, t) ∧
      runFrom t (steps h (idx + earlier.length) later) = (.ok second, u) := by
  induction earlier generalizing s idx fuels with
  | nil => exact ⟨[], s, fuels, rfl, run⟩
  | cons i earlier ih =>
    obtain ⟨fuel, t, here, rest⟩ := runFrom_bind_eq_ok run
    obtain ⟨more, _, others, returned⟩ := runFrom_bind_eq_ok rest
    cases returned
    obtain ⟨first, v, second, before, after⟩ := ih others
    have shifted : idx + (i :: earlier).length = idx + 1 + earlier.length := by
      simp only [List.length_cons]
      omega
    refine ⟨fuel :: first, v, second, ?_, shifted ▸ after⟩
    rw [steps, runFrom_bind_of_ok here, runFrom_bind_of_ok before, runFrom_pure]

/-- Instructions that succeed one after the other succeed together. -/
theorem runFrom_steps_append {earlier later : List Instruction} {idx : Nat}
    {first second : List Nat} (before : runFrom s (steps h idx earlier) = (.ok first, t))
    (after : runFrom t (steps h (idx + earlier.length) later) = (.ok second, u)) :
    runFrom s (steps h idx (earlier ++ later)) = (.ok (first ++ second), u) := by
  induction earlier generalizing s idx first with
  | nil =>
    cases before
    exact after
  | cons i earlier ih =>
    obtain ⟨fuel, v, here, rest⟩ := runFrom_bind_eq_ok before
    obtain ⟨more, _, others, returned⟩ := runFrom_bind_eq_ok rest
    cases returned
    have shifted : idx + (i :: earlier).length = idx + 1 + earlier.length := by
      simp only [List.length_cons]
      omega
    rw [List.cons_append, steps, runFrom_bind_of_ok here,
      runFrom_bind_of_ok (ih others (shifted ▸ after)), runFrom_pure]
    rfl

theorem runFrom_steps_cons_eq_ok {later : List Instruction} {idx : Nat} {fuels : List Nat}
    (run : runFrom s (steps h idx (i :: later)) = (.ok fuels, u)) :
    ∃ fuel t second, runFrom s (step h idx i) = (.ok fuel, t) ∧
      runFrom t (steps h (idx + 1) later) = (.ok second, u) := by
  obtain ⟨fuel, t, here, rest⟩ := runFrom_bind_eq_ok run
  obtain ⟨more, _, others, returned⟩ := runFrom_bind_eq_ok rest
  cases returned
  exact ⟨fuel, t, more, runFrom_rethrow_eq_ok.1 here, others⟩

/-- After each instruction the session is lawful, and nothing is in progress. -/
theorem after_steps {instructions : List Instruction} {idx : Nat} {fuels : List Nat}
    (lawful : Lawful c s) (idle : Idle s)
    (run : runFrom s (steps (host c) idx instructions) = (.ok fuels, t)) :
    Lawful c t ∧ Idle t ∧ Grown s t := by
  obtain ⟨s₀, idle₀, safe⟩ := Safe.steps instructions idx s lawful idle
  obtain ⟨lawful', grown, restored⟩ := safe.of_ok run
  exact ⟨lawful', idle₀.restored restored, grown⟩

theorem after_step {idx fuel : Nat} (lawful : Lawful c s) (idle : Idle s)
    (run : runFrom s (step (host c) idx i) = (.ok fuel, t)) : Lawful c t ∧ Idle t := by
  obtain ⟨lawful', -, restored⟩ := (Safe.step lawful idle idx i).of_ok run
  have began : Idle (s.began idx) := ⟨idle.frames, idle.making, idle.starting, idle.running⟩
  exact ⟨lawful', began.restored restored⟩

theorem Idle.frameless (idle : Idle s) (lawful : Lawful c s) : s.frames = [] :=
  lawful.shows.frames.symm.trans idle.frames

/-- A transaction that succeeds has run all its instructions and written down what they left. -/
theorem runTransaction_eq_ok_steps {tx : Transaction} {r : ExecutionResult}
    (run : runTransaction c tx = (.ok r, u)) : ∃ fuels t,
      runFrom (.start c.env.config.fuelLimit tx.size) (steps (host c) 0 tx.instructions) =
        (.ok fuels, t) ∧ runFrom t (finalize c) = (.ok (r.outputs, r.spends), u) := by
  obtain ⟨fuels, t, ran, finishing⟩ := runFrom_bind_eq_ok run
  obtain ⟨left, v, finalized, rest⟩ := runFrom_bind_eq_ok finishing
  obtain ⟨_, _, looked, returned⟩ := runFrom_bind_eq_ok rest
  cases looked
  cases returned
  exact ⟨fuels, t, ran, finalized⟩

/-! ### Loading -/

/-- A jig is the one that an instruction loads. -/
def Brings (c : Context) (i : Instruction) (jig : TouchedJig) : Prop :=
  ∃ o, i.loaded? c.env.store = some o ∧ Host.storedLock o = .ok jig.lock ∧
    jig.origin = o.origin ∧ jig.previous = some o.location

section Loading

variable (keyed : c.env.store.Keyed) (frameless : s.frames = []) {statement : Statement}

include keyed frameless

/-- An instruction that loads a jig finds it in the store, and the jig is its statement. -/
theorem runFrom_perform_load (isLoad : i.isLoad = true)
    (run : runFrom s ((host c).perform i) = (.ok statement, t)) :
    ∃ o, i.loaded? c.env.store = some o ∧ statement = .jig o.origin ∧ Arrived o s t := by
  cases i
  case load location =>
    obtain ⟨origin, _, loaded, returned⟩ := runFrom_bind_eq_ok run
    cases returned
    obtain ⟨o, stored, rfl, arrived⟩ := runFrom_loadByLocation_eq_ok frameless loaded
    exact ⟨o, stored, rfl, arrived⟩
  case loadByOrigin asked =>
    obtain ⟨origin, _, loaded, returned⟩ := runFrom_bind_eq_ok run
    cases returned
    obtain ⟨o, stored, rfl, rfl, arrived⟩ := runFrom_loadByOrigin_eq_ok keyed frameless loaded
    exact ⟨o, stored, rfl, arrived⟩
  all_goals cases isLoad

omit keyed in
/-- What neither loads a jig nor has to do with payment changes nothing, and gives no jig. -/
theorem runFrom_perform_idle (unpaid : i.isPaid = false) (isLoad : i.isLoad = false)
    (run : runFrom s ((host c).perform i) = (.ok statement, t)) :
    Unmoved s t ∧ ∀ origin, statement ≠ .jig origin := by
  cases i
  case importPackage id =>
    obtain ⟨home, _, started, returned⟩ := runFrom_bind_eq_ok run
    cases returned
    exact ⟨Leads.calm_instanceFor c id _ _ _ started frameless, nofun⟩
  case sign | signTo =>
    cases run
    exact ⟨⟨rfl, rfl, rfl, rfl, rfl, rfl, rfl⟩, nofun⟩
  case load | loadByOrigin => cases isLoad
  all_goals cases unpaid

end Loading

/-! ### Before the payment -/

/-- What a session is after instructions that have nothing to do with payment: the loaded jigs are
there, and each statement that is a jig is one of them. -/
structure Opened (c : Context) (start : Nat) (done : List Instruction) (s : Session) : Prop where
  frames : s.frames = []
  funded : s.funded = false
  nextIndex : s.nextIndex = start
  deploys : s.deploys = []
  jigs : List.Forall₂ (Brings c) (done.filter (·.isLoad)) s.jigs
  statements : List.Forall₂ (fun i statement => ∀ origin, statement = .jig origin →
    i.isLoad = true ∧ ∃ o, i.loaded? c.env.store = some o ∧ o.origin = origin) done s.statements
  nodup : (s.jigs.map (·.origin)).Nodup

theorem opened_start (c : Context) (fuel start : Nat) : Opened c start [] (.start fuel start) :=
  ⟨rfl, rfl, rfl, rfl, .nil, .nil, .nil⟩

/-- That the next instruction begins makes no difference. -/
theorem Opened.began {start : Nat} {done : List Instruction} (opened : Opened c start done s)
    {idx : Nat} : Opened c start done (s.began idx) :=
  ⟨opened.frames, opened.funded, opened.nextIndex, opened.deploys, opened.jigs, opened.statements,
    opened.nodup⟩

section Opened

variable {start : Nat} {done : List Instruction} (keyed : c.env.store.Keyed)

include keyed

/-- One more instruction that has nothing to do with payment. -/
theorem Opened.step (opened : Opened c start done s) {idx fuel : Nat} (unpaid : i.isPaid = false)
    (run : runFrom s (step (host c) idx i) = (.ok fuel, t)) : Opened c start (done ++ [i]) t := by
  obtain ⟨statement, u, performed, rfl⟩ := runFrom_step_eq_ok run
  obtain ⟨-, performed⟩ := runFrom_instruction_eq_ok performed
  have frameless : (s.began idx).frames = [] := opened.frames
  rcases isLoad : i.isLoad with _ | _
  · obtain ⟨same, noJig⟩ := runFrom_perform_idle frameless unpaid isLoad performed
    refine ⟨same.frames.trans opened.frames, same.funded.trans opened.funded,
      same.nextIndex.trans opened.nextIndex, same.deploys.trans opened.deploys, ?_, ?_, ?_⟩
    · have none : (done ++ [i]).filter (·.isLoad) = done.filter (·.isLoad) := by simp [isLoad]
      rw [none, same.jigs]
      exact opened.jigs
    · rw [same.statements]
      exact List.rel_append opened.statements
        (.cons (fun origin jig => absurd jig (noJig origin)) .nil)
    · rw [same.jigs]
      exact opened.nodup
  · obtain ⟨o, stored, rfl, arrived⟩ := runFrom_perform_load keyed frameless isLoad performed
    obtain ⟨jig, jigs, locked, origin, previous⟩ := arrived.arrived
    have same := arrived.rest
    refine ⟨same.frames.trans opened.frames, same.funded.trans opened.funded,
      same.nextIndex.trans opened.nextIndex, same.deploys.trans opened.deploys, ?_, ?_, ?_⟩
    · rw [List.filter_append, List.filter_singleton, isLoad, jigs]
      exact List.rel_append opened.jigs (.cons ⟨o, stored, locked, origin, previous⟩ .nil)
    · rw [same.statements]
      refine List.rel_append opened.statements (.cons (fun _ same => ?_) .nil)
      cases same
      exact ⟨isLoad, o, stored, rfl⟩
    · rw [jigs, List.map_append, List.nodup_append]
      refine ⟨opened.nodup, List.nodup_singleton _, ?_⟩
      rintro a ha b hb rfl
      obtain ⟨other, ho, same⟩ := List.mem_map.1 ha
      exact arrived.untouched other ho (same.trans ((List.mem_singleton.1 hb).trans origin))

/-- Several more instructions that have nothing to do with payment. -/
theorem Opened.steps {more : List Instruction} (opened : Opened c start done s) {idx : Nat}
    {fuels : List Nat} (unpaid : ∀ i ∈ more, i.isPaid = false)
    (run : runFrom s (steps (host c) idx more) = (.ok fuels, t)) :
    Opened c start (done ++ more) t := by
  induction more generalizing s idx done fuels with
  | nil =>
    cases run
    rwa [List.append_nil]
  | cons i more ih =>
    obtain ⟨fuel, u, second, here, rest⟩ := runFrom_steps_cons_eq_ok run
    have next := opened.step keyed (unpaid i (.head _)) here
    have all := ih next (fun j hj => unpaid j (.tail _ hj)) rest
    rwa [List.append_assoc] at all

end Opened

/-- A transaction that succeeds finds every jig that it asks for in the store, and spends it. -/
theorem loaded_of_run {tx : Transaction} {r : ExecutionResult} (keyed : c.env.store.Keyed)
    (run : runTransaction c tx = (.ok r, u)) (mem : i ∈ tx.instructions)
    (isLoad : i.isLoad = true) : ∃ o lock, i.loaded? c.env.store = some o ∧
      Host.storedLock o = .ok lock ∧ ⟨o.origin, o.location⟩ ∈ r.spends := by
  obtain ⟨fuels, v, ran, finalized⟩ := runTransaction_eq_ok_steps run
  obtain ⟨earlier, later, split⟩ := List.append_of_mem mem
  rw [split] at ran
  obtain ⟨first, s, second, before, ran⟩ := runFrom_steps_append_eq_ok ran
  obtain ⟨fuel, t, third, here, after⟩ := runFrom_steps_cons_eq_ok ran
  obtain ⟨lawful, idle, -⟩ := after_steps (lawful_start c _ _) (idle_start _ _) before
  obtain ⟨lawful', idle'⟩ := after_step lawful idle here
  obtain ⟨statement, w, performed, rfl⟩ := runFrom_step_eq_ok here
  obtain ⟨-, performed⟩ := runFrom_instruction_eq_ok performed
  have frameless : (s.began (0 + earlier.length)).frames = [] := idle.frameless lawful
  obtain ⟨o, stored, -, arrived⟩ := runFrom_perform_load keyed frameless isLoad performed
  obtain ⟨jig, jigs, locked, origin, previous⟩ := arrived.arrived
  have touched : jig ∈ w.jigs := by
    rw [jigs]
    exact List.mem_append_right _ (.head _)
  obtain ⟨-, -, grown⟩ := after_steps lawful' idle' after
  have quiet := Quietly.finalize c v
  rw [finalized] at quiet
  obtain ⟨jig', hj, same, previous'⟩ := (grown.trans quiet.grown).touched touched
  exact ⟨o, jig.lock, stored, locked, (mem_spends_iff run).2
    ⟨jig', hj, same.trans origin, previous'.trans previous⟩⟩

end Engine

end JigLedger
