import JigLedger.Proofs.Ledger.Places

/-!
# Results that are committed at once

A result is committed to the ledger that it was computed over. Nothing that a transaction deploys
has been deployed, and what it writes down is new or spent. So the commit can fail for two reasons
only: an output that is spent is not the current one of its jig, or a place is in use. The first
comes from results with two outputs of one jig, and the second from a transaction that is not paid
for and has been committed before.
-/

namespace JigLedger.Ledger

variable {p : Policy} {l : Ledger} {log : List Deed} {tx : Transaction} {r : ExecutionResult}

/-- The packages of a result can be registered over the ledger that it was computed over. -/
theorem deployable_of_execute (done : (l.execute p tx).1 = .ok r) :
    (∀ package ∈ r.deploys, l.registry.get? package.id = none) ∧
      ∃ registry, registerAll l.registry r.deploys = .ok registry := by
  obtain ⟨c, s, context, run⟩ := execute_eq_ok.1 done
  have registry : c.env.registry = l.registry :=
    congrArg Engine.Env.registry (env_of_contextOf context)
  have deployable := (Engine.lawful_of_run run).deploys
  rw [← (Engine.runTransaction_eq_ok run).1] at deployable
  have unregistered := deployable.unregistered
  rw [registry] at unregistered
  exact ⟨unregistered, Registry.exists_foldlM_add unregistered deployable.nodup⟩

/-- As long as no result had two outputs of one jig, the store is consistent. -/
theorem Chronicle.consistent (h : Chronicle p l log) (numbered : Numbered p log)
    (apart : ∀ e, .committed e ∈ log → (e.result.outputs.map (·.origin)).Nodup) :
    l.store.Consistent := by
  induction log generalizing l with
  | nil =>
    cases h
    exact Store.consistent_empty
  | cons deed log ih =>
    obtain ⟨l', before, done⟩ := h.change
    have consistent := ih before numbered.tail fun e he => apart e (.tail _ he)
    refine (consistent.apply ?_ (h.nodup_outputs numbered (.head _))
      (done consistent.toIndexed)).1
    cases deed with
    | minted => exact List.nodup_singleton _
    | committed e => exact apart e (.head _)
    | deployed | executed => exact .nil

/-- What is known of a jig began with an output at the origin of the jig. -/
theorem Chronicle.rooted (h : Chronicle p l log) (numbered : Numbered p log) {o : Output}
    (placed : o ∈ log.flatMap Deed.outputs) :
    ∃ first ∈ log.flatMap Deed.outputs, first.origin = o.origin ∧ first.location = o.origin := by
  induction log generalizing l o with
  | nil => cases placed
  | cons deed log ih =>
    obtain ⟨l', before, applied⟩ := h.applied numbered
    have older {o : Output} (placed : o ∈ log.flatMap Deed.outputs) :
        ∃ first ∈ (deed :: log).flatMap Deed.outputs, first.origin = o.origin ∧
          first.location = o.origin := by
      obtain ⟨first, hf, root⟩ := ih before numbered.tail placed
      exact ⟨first, List.mem_append_right _ hf, root⟩
    rcases List.mem_append.1 placed with ho | placed
    · cases deed with
      | minted owner amount seed minted =>
        cases List.mem_singleton.1 ho
        obtain ⟨-, -, origin, -⟩ := h.minted (.head _)
        exact ⟨o, placed, rfl, origin.symm⟩
      | committed e =>
        have executed := h.executed_of_committed (.head _)
        obtain ⟨c, s, -, run⟩ := execute_eq_ok.1 (h.executed executed).1
        rcases Engine.origin_of_run run ho with new | spent
        · exact ⟨o, placed, rfl, new⟩
        · obtain ⟨spend, hs, same⟩ := List.mem_map.1 spent
          have known : l'.store.knows o.origin = true := by
            rw [Store.knows_iff, ← same, applied.due spend hs]
            exact .inl rfl
          obtain ⟨o', placed', same'⟩ :=
            List.mem_map.1 ((before.knows_iff numbered.tail).1 known)
          rw [← same']
          exact older placed'
      | deployed | executed => cases ho
    · exact older placed

/-- A transaction that is not paid for spends all that it writes down. -/
theorem spent_of_unpaid (coherent : l.store.Coherent) (done : (l.execute p tx).1 = .ok r)
    (unpaid : tx.isPaid = false) {o : Output} (ho : o ∈ r.outputs) :
    o.origin ∈ r.spentOrigins := by
  obtain ⟨-, -, -, loads⟩ := outputs_of_unpaid coherent done unpaid
  obtain ⟨length, loads⟩ := List.forall₂_iff_get.1 loads
  obtain ⟨idx, hi, rfl⟩ := List.mem_iff_getElem.1 ho
  obtain ⟨last, loaded, origin⟩ := loads idx (length ▸ hi) hi
  have mem : (tx.instructions.filter (·.isLoad))[idx] ∈ tx.instructions :=
    List.mem_of_mem_filter (List.getElem_mem _)
  obtain ⟨o', lock, loaded', -, spent⟩ := spent_of_execute coherent done mem
    (Instruction.asksFor_of_loaded coherent loaded)
  cases loaded.symm.trans loaded'
  rw [List.get_eq_getElem] at origin
  rw [origin]
  exact List.mem_map_of_mem spent

section Fresh

variable (h : Chronicle p l log) (done : (l.execute p tx).1 = .ok r)
  (collisionless : Collisionless p (.executed ⟨l, tx, r⟩ :: log))

include h done collisionless

/-- What is at a place that a result needs was put there by the same transaction, which is not paid
for. -/
theorem repeated_of_place {o o' : Output} (ho : o ∈ r.outputs)
    (placed : o' ∈ log.flatMap Deed.outputs) (here : o.location = o'.location) :
    tx.isPaid = false ∧ ∃ e, .committed e ∈ log ∧ e.tx = tx := by
  have now : Chronicle p l (.executed ⟨l, tx, r⟩ :: log) := h.execute done
  obtain ⟨e, mem, -, same⟩ := now.committed_of_place collisionless (.head _) ho placed here
  have committed : .committed e ∈ log := by simpa using mem
  have same : tx = e.tx := same
  refine ⟨?_, e, committed, same.symm⟩
  rw [← Bool.not_eq_true]
  intro paid
  obtain ⟨coin, -, gone⟩ := (h.placing collisionless.tail).coins e committed (same ▸ paid)
  rw [← same] at gone
  exact gone.not_execute (h.coherent collisionless.tail.numbers) done

/-- What a result writes down for a jig that is known spends the jig. -/
theorem spent_of_known {o : Output} (ho : o ∈ r.outputs) (known : l.store.knows o.origin = true) :
    o.origin ∈ r.spentOrigins := by
  obtain ⟨c, s, -, run⟩ := execute_eq_ok.1 done
  rcases Engine.origin_of_run run ho with new | spent
  · -- A new jig that is known was made by the same transaction, but it makes none.
    obtain ⟨o', placed', same'⟩ := List.mem_map.1 ((h.knows_iff collisionless.tail.numbers).1 known)
    obtain ⟨first, placed, -, root⟩ := h.rooted collisionless.tail.numbers placed'
    have here : o.location = first.location := new.trans (same'.symm.trans root.symm)
    obtain ⟨unpaid, -⟩ := repeated_of_place h done collisionless ho placed here
    exact spent_of_unpaid (h.coherent collisionless.tail.numbers) done unpaid ho
  · exact spent

/-- Committing a result to the ledger that it was computed over fails only if a spend is not current
or a place is in use. A place is in use only when the same transaction has been committed before,
and it is not paid for. All spends are current as long as no result that was committed had two
outputs of one jig. -/
theorem commit_fresh_iff :
    ((∃ l', l.commit r = .ok l') ↔ (∀ spend ∈ r.spends, l.store.IsCurrent spend) ∧
      ∀ o ∈ r.outputs, l.store.byLocation o.location = none) ∧
    ((∃ o ∈ r.outputs, l.store.byLocation o.location ≠ none) →
      tx.isPaid = false ∧ ∃ e, .committed e ∈ log ∧ e.tx = tx) ∧
    ((∀ e, .committed e ∈ log → (e.result.outputs.map (·.origin)).Nodup) →
      ∀ spend ∈ r.spends, l.store.IsCurrent spend) := by
  have coherent := h.coherent collisionless.tail.numbers
  refine ⟨⟨fun ⟨l', committed⟩ => ?_, fun ⟨due, free⟩ => ?_⟩, fun ⟨o, ho, used⟩ => ?_,
    fun apart spend hs => ?_⟩
  · obtain ⟨due, room, -⟩ := coherent.toIndexed.apply_eq_ok.1 (commit_eq_ok.1 committed).2.1
    exact ⟨due, fun o ho => (room o ho).1⟩
  · obtain ⟨unregistered, registry, registered⟩ := deployable_of_execute done
    have room : ∀ o ∈ r.outputs, l.store.live[o.location]? = none ∧
        (l.store.byOrigin o.origin = none ∨ o.origin ∈ r.spentOrigins) := by
      intro o ho
      refine ⟨free o ho, or_iff_not_imp_left.2 fun known => ?_⟩
      refine spent_of_known h done collisionless ho ?_
      rw [coherent.toIndexed.knows_eq, Option.isSome_iff_ne_none]
      exact known
    exact ⟨⟨registry, _⟩, commit_eq_ok.2
      ⟨unregistered, coherent.toIndexed.apply_eq_ok.2 ⟨due, room, rfl⟩, registered⟩⟩
  · obtain ⟨o', found⟩ := Option.ne_none_iff_exists'.1 used
    exact repeated_of_place h done collisionless ho (h.placed_of_live found)
      (coherent.place _ _ found).symm
  · have consistent := h.consistent collisionless.tail.numbers apart
    obtain ⟨c, s, context, run⟩ := execute_eq_ok.1 done
    have store : c.env.store = l.store := congrArg Engine.Env.store (env_of_contextOf context)
    obtain ⟨o, found, origin⟩ := Engine.spent_of_run (store ▸ consistent) run hs
    rw [store] at found
    rw [Store.IsCurrent, ← origin]
    exact (consistent.live _ _ found).2

end Fresh

/-- What was committed can be executed again, but it needs a place that is in use. -/
def Deed.isStuck (p : Policy) (l : Ledger) (log : List Deed) : Deed → Bool
  | committed e =>
    match (l.execute p e.tx).1 with
    | .ok r => decide (Unambiguous (.executed ⟨l, e.tx, r⟩ :: log)) &&
        r.outputs.any fun o => (l.store.byLocation o.location).isSome
    | .error _ => false
  | deployed _ | minted _ _ _ _ | executed _ => false

/-- A coin has been loaded by a transaction that is not paid for, and now it is loaded once more. -/
theorem commit_fresh_iff_of_return :
    ∃ (p : Policy) (l : Ledger) (log : List Deed) (tx : Transaction) (r : ExecutionResult),
      Chronicle p l log ∧ (l.execute p tx).1 = .ok r ∧
      Collisionless p (.executed ⟨l, tx, r⟩ :: log) ∧
      (∃ o ∈ r.outputs, l.store.byLocation o.location ≠ none) ∧
      ((∃ l', l.commit r = .ok l') ↔ (∀ spend ∈ r.spends, l.store.IsCurrent spend) ∧
        ∀ o ∈ r.outputs, l.store.byLocation o.location = none) ∧
      ((∃ o ∈ r.outputs, l.store.byLocation o.location ≠ none) →
        tx.isPaid = false ∧ ∃ e, .committed e ∈ log ∧ e.tx = tx) ∧
      ((∀ e, .committed e ∈ log → (e.result.outputs.map (·.origin)).Nodup) →
        ∀ spend ∈ r.spends, l.store.IsCurrent spend) := by
  obtain ⟨l, log, chronicle, -, told⟩ := Till.exists_chronicle
    (fun coin => [⟨[.loadByOrigin coin]⟩]) (fun l log => log.any (Deed.isStuck Till.policy l log))
    (by decide +kernel)
  obtain ⟨deed, -, stuck⟩ := List.any_eq_true.1 told
  cases deed with
  | committed e =>
    rcases done : (l.execute Till.policy e.tx).1 with error | r
    · simp [Deed.isStuck, done] at stuck
    · simp only [Deed.isStuck, done, Bool.and_eq_true, decide_eq_true_eq] at stuck
      obtain ⟨digests, used⟩ := stuck
      have collisionless := Till.collisionless (chronicle.execute done) digests
      obtain ⟨o, ho, used⟩ := List.any_eq_true.1 used
      exact ⟨_, l, log, e.tx, r, chronicle, done, collisionless,
        ⟨o, ho, Option.isSome_iff_ne_none.1 used⟩, commit_fresh_iff chronicle done collisionless⟩
  | deployed | minted | executed => cases stuck

end JigLedger.Ledger
