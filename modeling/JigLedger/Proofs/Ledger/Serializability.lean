import JigLedger.Proofs.Engine.Reproduction
import JigLedger.Proofs.Ledger.History

/-!
# Results that are committed late

A result is committed to a ledger that has changed since the transaction was executed. The commit
checks that each jig that is spent is still at the place where it was found, and that no package of
the result has been deployed. Whatever else the transaction may have seen cannot have changed, so
executing it again comes to the same result, unless another output is now at one of these places.
-/

namespace JigLedger.Ledger

variable {p : Policy} {l l' : Ledger} {e : Execution}

/-- At the places that a result spends there is what was there when it was computed. -/
def Execution.Unchanged (e : Execution) (l : Ledger) : Prop :=
  ∀ spend ∈ e.result.spends,
    l.store.byLocation spend.location = e.ledger.store.byLocation spend.location

/-- What a result was computed from is what its jigs are now. -/
def Execution.IsCurrent (e : Execution) (l : Ledger) : Prop :=
  ∀ spend ∈ e.result.spends,
    l.store.byOrigin spend.origin = e.ledger.store.byLocation spend.location

/-- A commit that succeeds finds the jigs of the result where they were found before. -/
theorem byOrigin_of_commit (sound : l.Sound) {r : ExecutionResult} (done : l.commit r = .ok l')
    {spend : Spend} (hs : spend ∈ r.spends) :
    l.store.byOrigin spend.origin = l.store.byLocation spend.location :=
  Store.byOrigin_of_current ((sound.store.apply_eq_ok.1 (commit_eq_ok.1 done).2.1).1 spend hs)

/-- The signatures of a transaction are checked without looking at the ledger. -/
theorem contextOf_over {tx : Transaction} {c : Engine.Context}
    (h : Engine.contextOf (l.env p) tx = .ok c) (l' : Ledger) :
    Engine.contextOf (l'.env p) tx = .ok (c.over l'.registry l'.store) := by
  simp only [Engine.contextOf, bind_eq_ok, mapError_eq_ok, pure, Except.pure, Except.ok.injEq] at h ⊢
  obtain ⟨hash, hashed, signers, signed, rfl⟩ := h
  exact ⟨hash, hashed, signers, signed, rfl⟩

/-- The ledger that a result can be committed to agrees with the session that has led to it. -/
theorem agrees_of_commit (sound : l.Sound) {c : Engine.Context} {s : Engine.Session}
    {tx : Transaction} {r : ExecutionResult} (consistent : c.env.store.Consistent)
    (run : Engine.runTransaction c tx = (.ok r, s)) (done : l.commit r = .ok l')
    (unchanged : ∀ spend ∈ r.spends,
      l.store.byLocation spend.location = c.env.store.byLocation spend.location) :
    Engine.Agrees c l.registry l.store s where
  deploys q hq := by
    rw [← (Engine.runTransaction_eq_ok run).1] at hq
    exact (commit_eq_ok.1 done).1 q hq
  latest jig hj o found previous locked := by
    obtain ⟨lock, locked⟩ := locked
    have spent : ⟨jig.origin, o.location⟩ ∈ r.spends :=
      (Engine.mem_spends_iff run).2 ⟨jig, hj, rfl, previous⟩
    rw [byOrigin_of_commit sound done spent, unchanged _ spent]
    exact (consistent.byOrigin found).2.resolve_right (Engine.not_frozen_of_storedLock locked)
  located jig hj location previous :=
    unchanged ⟨jig.origin, location⟩ ((Engine.mem_spends_iff run).2 ⟨jig, hj, rfl, previous⟩)

/-- A past execution is repeated when its result can be committed and is computed from what is
there. -/
theorem Execution.IsPast.again (past : e.IsPast p l) (sound : l.Sound)
    (done : l.commit e.result = .ok l') (unchanged : e.Unchanged l) :
    (l.execute p e.tx).1 = .ok e.result := by
  obtain ⟨c, s, context, run⟩ := execute_eq_ok.1 past.done
  have env := env_of_contextOf context
  have consistent : c.env.store.Consistent := env ▸ past.sound.store
  have cont : Engine.Continues c l.registry l.store :=
    ⟨consistent, env ▸ past.leads.registry, env ▸ past.leads.store⟩
  have agrees : Engine.Agrees c l.registry l.store s :=
    agrees_of_commit sound consistent run done (env ▸ unchanged)
  exact execute_eq_ok.2
    ⟨_, s, contextOf_over context l, Engine.runTransaction_reproduced cont run agrees⟩

end JigLedger.Ledger
