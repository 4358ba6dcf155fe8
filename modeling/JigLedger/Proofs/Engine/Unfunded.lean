import JigLedger.Proofs.Engine.Custody
import JigLedger.Proofs.Engine.Placement
import JigLedger.Proofs.Lock

/-!
# Transactions that are not funded

A transaction in which nothing is paid with can import packages, load jigs and sign, and that is
all. What it loads is brought into the memory of guests and written down again from there. If the
allocators of all packages can be relied on, every loaded jig is written down as it was stored, at a
new location.
-/

namespace JigLedger

/-- The output at another location. -/
def Output.moved (o : Output) (location : Pointer) : Output := { o with location := location }

/-- The spend that consumes an output. -/
def Output.spend (o : Output) : Spend := ⟨o.origin, o.location⟩

namespace Engine

variable {c : Context} {s t u : Session} {areas : Nat → Set Nat} {start : Nat}
  {loaded : List Output} {i : Instruction}

/-! ### Loading -/

/-- What a session is while nothing has been paid with: the jigs of the outputs that were loaded are
held in the memory of their packages, in the order in which they were loaded. -/
structure Stocked (c : Context) (start : Nat) (areas : Nat → Set Nat) (loaded : List Output)
    (s : Session) : Prop where
  frames : s.frames = []
  funded : s.funded = false
  nextIndex : s.nextIndex = start
  deploys : s.deploys = []
  hosted : Hosted c areas s
  jigs : List.Forall₂ (Held areas s) loaded s.jigs

theorem stocked_start (c : Context) (areas : Nat → Set Nat) (fuel start : Nat) :
    Stocked c start areas [] (.start fuel start) :=
  ⟨rfl, rfl, rfl, rfl, hosted_start c fuel start, .nil⟩

/-- Between two instructions packages may be started, and nothing else matters. -/
theorem Stocked.carries {areas' : Nat → Set Nat} (stocked : Stocked c start areas loaded s)
    (unmoved : Unmoved s t) (hosted : Hosted c areas' t) (carries : Carries areas areas' s t) :
    Stocked c start areas' loaded t := by
  refine ⟨unmoved.frames.trans stocked.frames, unmoved.funded.trans stocked.funded,
    unmoved.nextIndex.trans stocked.nextIndex, unmoved.deploys.trans stocked.deploys, hosted, ?_⟩
  rw [unmoved.jigs]
  exact stocked.jigs.imp fun _ _ held => held.carries carries

/-- Which instruction is running, and what has been noted, does not matter. -/
theorem Stocked.noted (stocked : Stocked c start areas loaded s) (current : Nat)
    (statements : List Statement) (journal : List Event) :
    Stocked c start areas loaded
      { s with current := current, statements := statements, journal := journal } :=
  ⟨stocked.frames, stocked.funded, stocked.nextIndex, stocked.deploys,
    stocked.hosted.of_same rfl rfl,
    stocked.jigs.imp fun _ _ held => held.carries (.of_same areas rfl rfl)⟩

section Reliable

variable (reliable : c.env.Reliable)

include reliable

/-- One more output is brought into memory, and its jig is noted. -/
theorem Stocked.rehydrate (stocked : Stocked c start areas loaded s) {o : Output}
    {jig : TouchedJig} (run : runFrom s ((host c).rehydrate o) = (.ok jig, u)) :
    ∃ areas', Stocked c start areas' (loaded ++ [o]) (u.made jig) := by
  have unmoved := Leads.rehydrate lenient_calm (Leads.calm_invoke c) o s jig u run stocked.frames
  obtain ⟨areas', hosted, carries, held⟩ :=
    held_rehydrate reliable stocked.hosted stocked.frames stocked.deploys run
  have next := stocked.carries unmoved hosted carries
  have same : Carries areas' areas' u (u.made jig) := .of_same areas' rfl rfl
  refine ⟨areas', next.frames, next.funded, next.nextIndex, next.deploys,
    hosted.of_same rfl rfl, ?_⟩
  exact List.rel_append (next.jigs.imp fun _ _ held => held.carries same)
    (.cons (held.carries same) .nil)

/-- An instruction that has nothing to do with payment loads what it asks for. -/
theorem Stocked.perform (stocked : Stocked c start areas loaded s) {statement : Statement}
    (unpaid : i.isPaid = false) (run : runFrom s ((host c).perform i) = (.ok statement, t)) :
    ∃ areas' more, Stocked c start areas' (loaded ++ more) t ∧
      List.Forall₂ (fun i o => i.loaded? c.env.store = some o) ([i].filter (·.isLoad)) more := by
  cases i
  case importPackage id =>
    obtain ⟨home, _, started, returned⟩ := runFrom_bind_eq_ok run
    cases returned
    have unmoved := Leads.calm_instanceFor c id _ _ _ started stocked.frames
    obtain ⟨areas', hosted, carries, -⟩ :=
      hosted_instanceFor (reliable.trusts id) stocked.hosted stocked.frames stocked.deploys started
    refine ⟨areas', [], ?_, .nil⟩
    rw [List.append_nil]
    exact stocked.carries unmoved hosted carries
  case load location =>
    obtain ⟨origin, _, loading, returned⟩ := runFrom_bind_eq_ok run
    cases returned
    obtain ⟨o, _, found, touching⟩ := runFrom_bind_eq_ok loading
    obtain ⟨stored, rfl⟩ := runFrom_orMissing_eq_ok.1 found
    obtain ⟨idx, _, touched, returned⟩ := runFrom_bind_eq_ok touching
    cases returned
    obtain ⟨i, -, twice⟩ | ⟨-, jig, u, made, -, rfl⟩ := runFrom_touch_eq_ok touched
    · cases twice
    · obtain ⟨areas', next⟩ := (stocked.noted _ _ _).rehydrate reliable made
      exact ⟨areas', [o], next, .cons stored .nil⟩
  case loadByOrigin origin =>
    obtain ⟨origin, _, loading, returned⟩ := runFrom_bind_eq_ok run
    cases returned
    obtain ⟨idx, _, touched, returned⟩ := runFrom_bind_eq_ok loading
    cases returned
    obtain ⟨i, -, twice⟩ | ⟨-, jig, u, making, -, rfl⟩ := runFrom_touch_eq_ok touched
    · cases twice
    · obtain ⟨o, _, found, made⟩ := runFrom_bind_eq_ok making
      obtain ⟨stored, rfl⟩ := runFrom_orMissing_eq_ok.1 found
      obtain ⟨areas', next⟩ := (stocked.noted _ _ _).rehydrate reliable made
      exact ⟨areas', [o], next, .cons stored .nil⟩
  case sign | signTo =>
    cases run
    refine ⟨areas, [], ?_, .nil⟩
    rwa [List.append_nil]
  all_goals cases unpaid

/-- An instruction that does not pay has run. So it needs no payment either, and it has loaded what
it asks for. -/
theorem Stocked.step (stocked : Stocked c start areas loaded s) {idx fuel : Nat}
    (free : i.opcode ≠ .fund) (run : runFrom s (step (host c) idx i) = (.ok fuel, t)) :
    i.isPaid = false ∧ ∃ areas' more, Stocked c start areas' (loaded ++ more) t ∧
      List.Forall₂ (fun i o => i.loaded? c.env.store = some o) ([i].filter (·.isLoad)) more := by
  obtain ⟨statement, u, instructed, rfl⟩ := runFrom_step_eq_ok run
  obtain ⟨needs, performed⟩ := runFrom_instruction_eq_ok instructed
  have unpaid : i.isPaid = false := by
    rw [Instruction.isPaid, Bool.or_eq_false_iff, decide_eq_false_iff_not]
    refine ⟨free, Bool.eq_false_iff.2 fun paid => ?_⟩
    exact Bool.false_ne_true (stocked.funded.symm.trans (needs paid))
  obtain ⟨areas', more, next, loads⟩ := (stocked.noted _ _ _).perform reliable unpaid performed
  exact ⟨unpaid, areas', more, next.noted _ _ _, loads⟩

/-- Instructions that do not pay have run one after the other. -/
theorem Stocked.steps {instructions : List Instruction}
    (stocked : Stocked c start areas loaded s) {idx : Nat} {fuels : List Nat}
    (free : ∀ i ∈ instructions, i.opcode ≠ .fund)
    (run : runFrom s (steps (host c) idx instructions) = (.ok fuels, t)) :
    (∀ i ∈ instructions, i.isPaid = false) ∧ ∃ areas' more,
      Stocked c start areas' (loaded ++ more) t ∧
      List.Forall₂ (fun i o => i.loaded? c.env.store = some o) (instructions.filter (·.isLoad))
        more := by
  induction instructions generalizing s areas loaded idx fuels with
  | nil =>
    cases run
    refine ⟨nofun, areas, [], ?_, .nil⟩
    rwa [List.append_nil]
  | cons i rest ih =>
    obtain ⟨fuel, u, second, here, others⟩ := runFrom_steps_cons_eq_ok run
    obtain ⟨unpaid, areas₁, first, stocked₁, loads₁⟩ :=
      stocked.step reliable (free i (.head _)) here
    obtain ⟨unpaid', areas₂, later, stocked₂, loads₂⟩ :=
      ih stocked₁ (fun j hj => free j (.tail _ hj)) others
    refine ⟨List.forall_mem_cons.2 ⟨unpaid, unpaid'⟩, areas₂, first ++ later,
      List.append_assoc loaded first later ▸ stocked₂, ?_⟩
    rw [← List.singleton_append, List.filter_append]
    exact List.rel_append loads₁ loads₂

/-! ### Writing down -/

/-- A jig that is held is written down as the output that it was loaded from, at the next pointer.
-/
theorem Held.settle (hosted : Hosted c areas s) {o : Output} {jig : TouchedJig} {l : Leaving}
    {n : Nat} (held : Held areas s o jig)
    (run : runFrom { s with nextIndex := n } (settle c jig) = (.ok l, t)) :
    l = ⟨some o.spend, some (o.moved (c.pointer n))⟩ ∧ t = { s with nextIndex := n + 1 } := by
  obtain ⟨rebuilt, thawed, named⟩ := storedLock_eq_ok held.lock
  obtain ⟨frozen, -⟩ | ⟨-, lock, cls, state, location, recorded, rfl, placed⟩ :=
    runFrom_settle_eq_ok run
  · rw [thawed] at frozen
    cases frozen
  have old : jig.previous ≠ none := by
    rw [held.previous]
    nofun
  obtain ⟨-, rfl, rfl⟩ := placed.resolve_left fun new => old new.1
  refine ⟨?_, rfl⟩
  obtain ⟨inst, guest, cls', values, there, here, id, classed, row, reads⟩ := held.object
  obtain ⟨inst', guest', values', there', classed', here', read, encoded⟩ := recorded.fields
  obtain rfl : inst' = inst := Option.some.inj (there'.symm.trans there)
  obtain ⟨at', registered, -⟩ := hosted.tenants _ _ there
  obtain rfl : guest' = guest := by
    rw [at'] at here'
    exact Option.some.inj (here'.symm.trans here)
  obtain rfl : cls' = cls := Except.ok.inj (classed.symm.trans classed')
  obtain rfl := reads _ (Set.eqOn_refl _ _) _ read
  obtain rfl : state = o.state :=
    Except.ok.inj (encoded.symm.trans (Ty.encodeState_eq_ok.2 row))
  obtain rfl : lock = o.lock := by
    have same := recorded.lock
    rw [held.origin, ← named, Lock.toRecord_of_ofRecord rebuilt] at same
    exact (Except.ok.inj same).symm
  have built := (reliable.sound _ _ registered).2
  have package : cls'.ref.package = ⟨o.classPtr.id⟩ := (built.ref_package classed).trans id
  rw [spendOf, outputOf, held.previous, held.origin, held.classIdx, package, UInt32.ofNat_toNat]
  rfl

/-- Jigs that are held are written down one after the other, at one pointer after the other. -/
theorem runFrom_mapM_settle_held (hosted : Hosted c areas s) {jigs : List TouchedJig}
    (held : List.Forall₂ (Held areas s) loaded jigs) {n : Nat} {ls : List Leaving}
    (run : runFrom { s with nextIndex := n } (jigs.mapM (settle c)) = (.ok ls, t)) :
    ls.filterMap (·.output) = loaded.mapIdx (fun k o => o.moved (c.pointer (n + k))) ∧
      ls.filterMap (·.spend) = loaded.map (·.spend) := by
  induction held generalizing n ls with
  | nil =>
    simp only [List.mapM_nil] at run
    cases run
    exact ⟨rfl, rfl⟩
  | @cons o jig loaded jigs here _ ih =>
    simp only [List.mapM_cons] at run
    obtain ⟨l, v, settled, rest⟩ := runFrom_bind_eq_ok run
    obtain ⟨ls, _, others, returned⟩ := runFrom_bind_eq_ok rest
    cases returned
    obtain ⟨rfl, rfl⟩ := here.settle reliable hosted settled
    obtain ⟨outputs, spends⟩ := ih others
    refine ⟨?_, congrArg (o.spend :: ·) spends⟩
    rw [List.filterMap_cons, outputs, List.mapIdx_cons]
    simp only [Nat.add_zero, Nat.add_assoc, Nat.add_comm 1]

/-- A transaction that is not paid for deploys nothing. It writes down what its instructions load,
at the pointers behind them. -/
theorem moved_of_run {tx : Transaction} {r : ExecutionResult}
    (run : runTransaction c tx = (.ok r, u)) (free : ∀ i ∈ tx.instructions, i.opcode ≠ .fund) :
    r.deploys = [] ∧ ∃ loaded,
      List.Forall₂ (fun i o => i.loaded? c.env.store = some o) (tx.instructions.filter (·.isLoad))
        loaded ∧
      r.outputs = loaded.mapIdx (fun k o => o.moved (c.pointer (tx.size + k))) ∧
      r.spends = loaded.map (·.spend) ∧
      (c.env.store.Keyed → (loaded.map (·.origin)).Nodup) := by
  obtain ⟨fuels, v, ls, ran, settled, outputs, spends⟩ := settled_of_run run
  obtain ⟨unpaid, areas, loaded, stocked, loads⟩ :=
    (stocked_start c (fun _ => ∅) _ tx.size).steps reliable free ran
  have quiet := Quietly.mapM (Quietly.settle c) v.jigs v
  rw [settled] at quiet
  obtain ⟨moved, spent⟩ := runFrom_mapM_settle_held reliable stocked.hosted stocked.jigs settled
  rw [stocked.nextIndex] at moved
  refine ⟨(runTransaction_eq_ok run).1.trans (quiet.deploys.trans stocked.deploys), loaded, loads,
    outputs.trans moved, spends.trans spent, fun keyed => ?_⟩
  have nodup := ((opened_start c _ tx.size).steps keyed unpaid ran).nodup
  have origins : v.jigs.map (·.origin) = loaded.map (·.origin) := by
    refine List.forall₂_eq_eq_eq ▸ ?_
    exact List.forall₂_map_left_iff.2 (List.forall₂_map_right_iff.2
      (stocked.jigs.flip.imp fun _ _ held => held.origin))
  rwa [origins] at nodup

end Reliable

end Engine

end JigLedger
