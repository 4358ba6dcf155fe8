import JigLedger.Proofs.Engine.Computation
import JigLedger.Proofs.Except
import Mathlib.Data.List.Forall2

/-!
# What a transaction leaves behind

A transaction that succeeds has written down each touched jig, in the order in which they were
touched: a jig that was loaded spends its output, and every jig that is not frozen has a new one,
of the class that it had while it was touched.
-/

namespace JigLedger.Engine

variable {c : Context} {s t : Session}

/-- What is written down of a jig: its lock, the class that it has in its package, and the state
that its fields have in memory. -/
structure Recorded (s : Session) (jig : TouchedJig) (lock : LockRecord) (cls : Abi.Class)
    (state : Bytes) : Prop where
  lock : jig.lock.toRecord jig.origin = .ok lock
  fields : ∃ inst guest values, s.instances[jig.home]? = some inst ∧
    inst.package.abi.classAt jig.classIdx = .ok cls ∧ s.guests[inst.guest]? = some guest ∧
    Ty.readFieldsAt guest.machine.memory cls.fields jig.address = .ok values ∧
    Ty.encodeState cls.fieldTypes values = .ok state

/-- A frozen jig leaves nothing. Another one is written down with its class: where it was made if it
is new, and at the next pointer if it was loaded. -/
theorem runFrom_settle_eq_ok {jig : TouchedJig} {l : Leaving}
    (run : runFrom s (settle c jig) = (.ok l, t)) :
    (jig.lock.isFrozen = true ∧ l = ⟨spendOf jig, none⟩ ∧ t = s) ∨
      jig.lock.isFrozen = false ∧ ∃ lock cls state location, Recorded s jig lock cls state ∧
        l = ⟨spendOf jig, some (outputOf jig lock cls state location)⟩ ∧
        (jig.previous = none ∧ location = jig.origin ∧ t = s ∨
          jig.previous ≠ none ∧ location = ⟨c.txHash, UInt32.ofNat s.nextIndex⟩ ∧
            t = { s with nextIndex := s.nextIndex + 1 }) := by
  unfold settle at run
  dsimp only at run
  split at run
  case isTrue frozen =>
    cases run
    exact .inl ⟨frozen, rfl, rfl⟩
  case isFalse thawed =>
    obtain ⟨lock, _, locked, classing⟩ := runFrom_bind_eq_ok run
    obtain ⟨hlock, rfl⟩ := runFrom_orError_eq_ok.1 locked
    obtain ⟨cls, _, classed, reading⟩ := runFrom_bind_eq_ok classing
    obtain ⟨inst, _, looked, resolved⟩ := runFrom_bind_eq_ok classed
    obtain ⟨hinst, rfl⟩ := runFrom_instanceAt_eq_ok.1 looked
    obtain ⟨hcls, rfl⟩ := runFrom_orPlain_eq_ok.1 resolved
    obtain ⟨values, _, read, encoding⟩ := runFrom_bind_eq_ok reading
    obtain ⟨rfl, inst', guest, hinst', hguest, hvalues⟩ := runFrom_look_eq_ok read
    obtain rfl : inst' = inst := Option.some.inj (hinst'.symm.trans hinst)
    obtain ⟨state, _, encoded, placing⟩ := runFrom_bind_eq_ok encoding
    obtain ⟨hstate, rfl⟩ := runFrom_orError_eq_ok.1 encoded
    refine .inr ⟨by simpa using thawed, lock, cls, state, ?_⟩
    have recorded : Recorded _ jig lock cls state :=
      ⟨hlock, inst', guest, values, hinst, hcls, hguest, hvalues, hstate⟩
    rcases hp : jig.previous with _ | previous <;>
      simp only [spendOf, hp, Option.map_none, Option.map_some] at placing ⊢
    · cases placing
      exact ⟨jig.origin, recorded, rfl, .inl ⟨trivial, rfl, rfl⟩⟩
    · obtain ⟨location, _, placed, returned⟩ := runFrom_bind_eq_ok placing
      cases placed
      cases returned
      exact ⟨_, recorded, rfl, .inr ⟨nofun, rfl, rfl⟩⟩

/-- What is left behind for a touched jig. -/
structure Settled (instances : List PackageInstance) (jig : TouchedJig) (l : Leaving) : Prop where
  spend : l.spend = spendOf jig
  frozen : jig.lock.isFrozen = true → l.output = none
  origin : ∀ o, l.output = some o → o.origin = jig.origin
  /-- A new jig is where it was made. -/
  place : ∀ o, l.output = some o → jig.previous = none → o.location = jig.origin
  cls : ∀ o, l.output = some o → ∃ inst cls, instances[jig.home]? = some inst ∧
    inst.package.abi.classAt jig.classIdx = .ok cls ∧
    o.classPtr = .ofExport cls.ref.package (UInt32.ofNat jig.classIdx)

/-- A jig is written down as what it is. -/
theorem Settled.of_settle {jig : TouchedJig} {l : Leaving}
    (run : runFrom s (settle c jig) = (.ok l, t)) : Settled s.instances jig l := by
  obtain ⟨frozen, rfl, -⟩ | ⟨thawed, lock, cls, state, location, recorded, rfl, placed⟩ :=
    runFrom_settle_eq_ok run
  · exact ⟨rfl, fun _ => rfl, nofun, nofun, nofun⟩
  · refine ⟨rfl, fun frozen => ?_, ?_, ?_, ?_⟩
    · rw [thawed] at frozen
      cases frozen
    · rintro o ⟨⟩
      rfl
    · rintro o ⟨⟩ new
      exact (placed.resolve_right fun old => old.1 new).2.1
    · rintro o ⟨⟩
      obtain ⟨inst, -, -, hinst, hcls, -⟩ := recorded.fields
      exact ⟨inst, cls, hinst, hcls, rfl⟩

/-- Jigs are written down one after the other. -/
theorem runFrom_mapM_settle_eq_ok : ∀ {jigs : List TouchedJig} {s : Session} {ls : List Leaving},
    runFrom s (jigs.mapM (settle c)) = (.ok ls, t) →
      List.Forall₂ (Settled s.instances) jigs ls
  | [], _, _, run => by
    simp only [List.mapM_nil] at run
    cases run
    exact .nil
  | jig :: jigs, s, _, run => by
    simp only [List.mapM_cons] at run
    obtain ⟨l, u, settled, rest⟩ := runFrom_bind_eq_ok run
    obtain ⟨ls, _, others, returned⟩ := runFrom_bind_eq_ok rest
    cases returned
    have quiet := Quietly.settle c jig s
    rw [settled] at quiet
    have tail := runFrom_mapM_settle_eq_ok others
    rw [quiet.instances] at tail
    exact .cons (.of_settle settled) tail

/-- Each output is the record of a jig that is not frozen. -/
theorem runFrom_mapM_settle_recorded : ∀ {jigs : List TouchedJig} {s : Session} {ls : List Leaving},
    runFrom s (jigs.mapM (settle c)) = (.ok ls, t) → ∀ o ∈ ls.filterMap (·.output),
      ∃ jig ∈ jigs, ∃ u lock cls state location, u.instances = s.instances ∧
        jig.lock.isFrozen = false ∧ Recorded u jig lock cls state ∧
        o = outputOf jig lock cls state location
  | [], _, _, run, _, mem => by
    simp only [List.mapM_nil] at run
    cases run
    cases mem
  | jig :: jigs, s, _, run, o, mem => by
    simp only [List.mapM_cons] at run
    obtain ⟨l, v, settled, rest⟩ := runFrom_bind_eq_ok run
    obtain ⟨ls, _, others, returned⟩ := runFrom_bind_eq_ok rest
    cases returned
    have quiet := Quietly.settle c jig s
    rw [settled] at quiet
    have later (mem : o ∈ ls.filterMap (·.output)) :
        ∃ jig' ∈ jig :: jigs, ∃ u lock cls state location, u.instances = s.instances ∧
          jig'.lock.isFrozen = false ∧ Recorded u jig' lock cls state ∧
          o = outputOf jig' lock cls state location := by
      obtain ⟨jig', hj, u, lock, cls, state, location, same, recorded⟩ :=
        runFrom_mapM_settle_recorded others o mem
      exact ⟨jig', .tail _ hj, u, lock, cls, state, location, same.trans quiet.instances, recorded⟩
    obtain ⟨-, rfl, -⟩ | ⟨thawed, lock, cls, state, location, recorded, rfl, -⟩ :=
      runFrom_settle_eq_ok settled
    · exact later mem
    · rcases List.mem_cons.1 mem with rfl | mem
      · exact ⟨jig, .head _, s, lock, cls, state, location, rfl, thawed, recorded, rfl⟩
      · exact later mem

/-- The result of a transaction is what is left behind for the jigs that it has touched. -/
theorem runTransaction_eq_ok {tx : Transaction} {r : ExecutionResult}
    (run : runTransaction c tx = (.ok r, s)) :
    r.deploys = s.deploys ∧ ∃ ls, List.Forall₂ (Settled s.instances) s.jigs ls ∧
      r.outputs = ls.filterMap (·.output) ∧ r.spends = ls.filterMap (·.spend) := by
  obtain ⟨fuel, t, -, finishing⟩ := runFrom_bind_eq_ok run
  obtain ⟨left, u, finalized, rest⟩ := runFrom_bind_eq_ok finishing
  obtain ⟨u', _, looked, returned⟩ := runFrom_bind_eq_ok rest
  cases looked
  cases returned
  have quiet := Quietly.finalize c t
  rw [finalized] at quiet
  obtain ⟨t', _, looked, settling⟩ := runFrom_bind_eq_ok finalized
  cases looked
  obtain ⟨ls, _, settled, returned⟩ := runFrom_bind_eq_ok settling
  cases returned
  refine ⟨rfl, ls, ?_, rfl, rfl⟩
  rw [quiet.jigs, quiet.instances]
  exact runFrom_mapM_settle_eq_ok settled

/-- The result of a transaction carries its hash. -/
theorem txHash_of_run {tx : Transaction} {r : ExecutionResult}
    (run : runTransaction c tx = (.ok r, s)) : r.txHash = c.txHash := by
  obtain ⟨_, _, -, finishing⟩ := runFrom_bind_eq_ok run
  obtain ⟨_, _, -, rest⟩ := runFrom_bind_eq_ok finishing
  obtain ⟨_, _, -, returned⟩ := runFrom_bind_eq_ok rest
  cases returned
  rfl

/-! ### Executions -/

/-- A transaction runs in the environment that it is executed in, and under its own hash. -/
theorem contextOf_eq_ok {env : Env} {tx : Transaction} (h : contextOf env tx = .ok c) :
    c.env = env ∧ tx.hash = .ok c.txHash := by
  simp only [contextOf, bind_eq_ok, mapError_eq_ok, pure, Except.pure, Except.ok.injEq] at h
  obtain ⟨_, hash, _, -, rfl⟩ := h
  exact ⟨rfl, hash⟩

/-- What comes of executing a transaction comes of running it in a session. -/
theorem execute_eq_ok {env : Env} {tx : Transaction} {r : ExecutionResult} :
    (execute env tx).1 = .ok r ↔ ∃ c s, contextOf env tx = .ok c ∧
      runTransaction c tx = (.ok r, s) := by
  rw [execute]
  rcases contextOf env tx with e | c
  · simp
  · rcases hr : runTransaction c tx with ⟨result, s⟩
    simp [hr, mapError_eq_ok]

/-! ### Lists of leavings -/

section Settled

variable {instances : List PackageInstance} {jigs : List TouchedJig} {ls : List Leaving}

/-- The origins of the outputs are those of jigs, in their order. -/
theorem Settled.outputs_sublist (h : List.Forall₂ (Settled instances) jigs ls) :
    ((ls.filterMap (·.output)).map (·.origin)).Sublist (jigs.map (·.origin)) := by
  induction h with
  | nil => exact .slnil
  | @cons jig l _ _ settled _ ih =>
    rcases ho : l.output with _ | o
    · simpa [ho] using ih.cons jig.origin
    · simpa [ho, settled.origin o ho] using ih.cons_cons jig.origin

/-- The outputs that are consumed are those that jigs were loaded from. -/
theorem Settled.spends_eq (h : List.Forall₂ (Settled instances) jigs ls) :
    ls.filterMap (·.spend) = jigs.filterMap spendOf := by
  induction h with
  | nil => rfl
  | cons settled _ ih => simp only [List.filterMap_cons, settled.spend, ih]

/-- Every output was written down for a jig. -/
theorem Settled.of_output (h : List.Forall₂ (Settled instances) jigs ls) {o : Output}
    (mem : o ∈ ls.filterMap (·.output)) :
    ∃ jig ∈ jigs, ∃ l, Settled instances jig l ∧ l.output = some o := by
  induction h with
  | nil => cases mem
  | @cons jig l _ _ settled _ ih =>
    rw [List.filterMap_cons] at mem
    rcases ho : l.output with _ | o' <;> simp only [ho] at mem
    · obtain ⟨jig', hj, found⟩ := ih mem
      exact ⟨jig', .tail _ hj, found⟩
    · rcases List.mem_cons.1 mem with rfl | mem
      · exact ⟨jig, .head _, l, settled, ho⟩
      · obtain ⟨jig', hj, found⟩ := ih mem
        exact ⟨jig', .tail _ hj, found⟩

end Settled

/-- The origins of the spent outputs are those of jigs, in their order. -/
theorem spends_sublist (jigs : List TouchedJig) :
    ((jigs.filterMap spendOf).map (·.origin)).Sublist (jigs.map (·.origin)) := by
  induction jigs with
  | nil => exact .slnil
  | cons jig jigs ih =>
    rcases hp : jig.previous with _ | p
    · simpa [spendOf, hp] using ih.cons jig.origin
    · simpa [spendOf, hp] using ih.cons_cons jig.origin

end JigLedger.Engine
