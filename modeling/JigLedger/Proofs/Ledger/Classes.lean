import JigLedger.Proofs.Ledger.Loadable

/-!
# Jigs keep their class

A jig that is loaded and written down again keeps its class, and a new jig that is written down is
not known to the store: its origin is a pointer of the transaction, and whoever has put something
there before was the same transaction, which makes new jigs only if it is paid for, and then it is
not executed twice. So all outputs of one jig, including its tombstone, are of one class.
-/

namespace JigLedger.Ledger

variable {p : Policy} {l : Ledger} {log : List Deed} {tx : Transaction} {r : ExecutionResult}
  {c : Engine.Context} {s : Engine.Session} {o o' : Output} {e : Execution}

namespace Chronicle

/-- What a transaction can load has been put into the store. -/
theorem placed_of_stored (h : Chronicle p l log) (store : c.env.store = l.store)
    (stored : Engine.Stored c o) {lock : Lock} (locked : Engine.Host.storedLock o = .ok lock)
    (coherent : l.store.Coherent) : o ∈ log.flatMap Deed.outputs := by
  rw [Engine.Stored, store] at stored
  rcases stored with ⟨origin, found⟩ | ⟨location, found⟩
  · rcases Store.live_or_destroyed_of_byOrigin found with ⟨location, there⟩ | left
    · exact h.placed_of_live there
    · exact absurd (coherent.gone origin o left).1 (Engine.not_frozen_of_storedLock locked)
  · exact h.placed_of_live found

section Executions

variable (h : Chronicle p l log) (context : Engine.contextOf (l.env p) tx = .ok c)
  (run : Engine.runTransaction c tx = (.ok r, s))

include h context run

/-- What is spent has been put into the store. -/
theorem placed_of_spent (numbered : Numbered p log) {spend : Spend} (hs : spend ∈ r.spends) :
    ∃ o ∈ log.flatMap Deed.outputs, o.origin = spend.origin := by
  have store : c.env.store = l.store := congrArg Engine.Env.store (env_of_contextOf context)
  obtain ⟨o, lock, stored, locked, origin, -⟩ := Engine.stored_of_spent run hs
  exact ⟨o, h.placed_of_stored store stored locked (h.coherent numbered), origin⟩

variable (collisionless : Collisionless p (.executed ⟨l, tx, r⟩ :: log))

include collisionless

/-- A touched jig that the store knows has been loaded from there, if the transaction succeeds. -/
theorem previous_of_known {jig : Engine.TouchedJig} (hj : jig ∈ s.jigs)
    (known : l.store.knows jig.origin = true) : jig.previous ≠ none := by
  intro new
  have coherent := h.coherent collisionless.tail.numbers
  have done : (l.execute p tx).1 = .ok r := execute_eq_ok.2 ⟨c, s, context, run⟩
  -- Something is at the origin of the jig, which is a pointer of this transaction.
  obtain ⟨o, placed, same⟩ := List.mem_map.1 ((h.knows_iff collisionless.tail.numbers).1 known)
  obtain ⟨first, placed, -, root⟩ := h.rooted collisionless.tail.numbers placed
  obtain ⟨bs, written, hash⟩ := txHash_of_contextOf context
  have here : first.location.id = Sha256.digest bs := by
    rw [root, same, Engine.id_of_new run hj new, hash]
  obtain ⟨e, mem, -, again⟩ := (h.execute done).committed_of_id collisionless (.head _) written
    (List.mem_append_right _ placed) here
  have mem : .committed e ∈ log := by simpa using mem
  have again : tx = e.tx := again
  rcases paid : tx.isPaid
  · have store : c.env.store = l.store := congrArg Engine.Env.store (env_of_contextOf context)
    have unpaid : ∀ i ∈ tx.instructions, i.isPaid = false := by
      simpa [Transaction.isPaid] using paid
    exact Engine.loaded_of_unpaid run (store ▸ coherent.toIndexed.keyed) unpaid jig hj new
  · obtain ⟨coin, -, gone⟩ := (h.placing collisionless.tail).coins e mem (again ▸ paid)
    rw [← again] at gone
    exact gone.not_execute coherent done

/-- An output is that of a jig that was not known, or it goes on with an earlier output. -/
theorem new_or_kept (ho : o ∈ r.outputs) :
    (l.store.knows o.origin = false ∧ o.location = o.origin) ∨
      ∃ last ∈ log.flatMap Deed.outputs, last.origin = o.origin ∧ last.classPtr = o.classPtr := by
  have env := env_of_contextOf context
  have registry : c.env.registry.Sound := by
    rw [env]
    exact h.sound_registry
  rcases Engine.new_or_kept_of_run run registry ho with
    ⟨jig, hj, origin, new, root⟩ | ⟨last, lock, stored, locked, origin, cls⟩
  · refine .inl ⟨?_, root⟩
    rw [← Bool.not_eq_true, ← origin]
    exact fun known => h.previous_of_known context run collisionless hj known new
  · have store : c.env.store = l.store := congrArg Engine.Env.store env
    have coherent := h.coherent collisionless.tail.numbers
    exact .inr ⟨last, h.placed_of_stored store stored locked coherent, origin, cls⟩

end Executions

/-- What an execution writes down is new, or it goes on with an earlier output. What is new was not
known to the store then, so the execution does not spend it. -/
theorem new_or_kept_of_executed (h : Chronicle p l log) (collisionless : Collisionless p log)
    (mem : .executed e ∈ log) (ho : o ∈ e.result.outputs) :
    (e.ledger.store.knows o.origin = false ∧ o.location = o.origin ∧
      o.origin ∉ e.result.spentOrigins) ∨
      e.ledger.store.knows o.origin = true ∧
      ∃ last ∈ log.flatMap Deed.outputs, last.origin = o.origin ∧ last.classPtr = o.classPtr := by
  obtain ⟨c, s, context, run⟩ := execute_eq_ok.1 (h.executed mem).1
  obtain ⟨earlier, hs, before, apart⟩ := h.before_executed collisionless mem
  have known {origin : Pointer} {o : Output} (placed : o ∈ earlier.flatMap Deed.outputs)
      (same : o.origin = origin) : e.ledger.store.knows origin = true :=
    (before.knows_iff apart.tail.numbers).2 (List.mem_map.2 ⟨o, placed, same⟩)
  rcases before.new_or_kept context run apart ho with ⟨unknown, root⟩ | ⟨last, placed, kept⟩
  · refine .inl ⟨unknown, root, fun spent => ?_⟩
    obtain ⟨spend, hs, same⟩ := List.mem_map.1 spent
    obtain ⟨old, placed, origin⟩ := before.placed_of_spent context run apart.tail.numbers hs
    rw [known placed (origin.trans same)] at unknown
    cases unknown
  · exact .inr ⟨known placed kept.1, last, (hs.flatMap _).subset placed, kept⟩

/-- All outputs of a jig have the same class. -/
theorem classPtr_eq (h : Chronicle p l log) (collisionless : Collisionless p log) :
    ∀ o ∈ log.flatMap Deed.outputs, ∀ o' ∈ log.flatMap Deed.outputs, o.origin = o'.origin →
      o.classPtr = o'.classPtr := by
  induction log generalizing l with
  | nil => exact nofun
  | cons deed log ih =>
    obtain ⟨l', before, applied⟩ := h.applied collisionless.numbers
    have ih := ih before collisionless.tail
    -- What is put down now for a jig that has been known has the class that the jig has had.
    have settled {o o' : Output} (ho : o ∈ deed.outputs) (ho' : o' ∈ log.flatMap Deed.outputs)
        (same : o.origin = o'.origin) : o.classPtr = o'.classPtr := by
      have known : l'.store.knows o.origin = true :=
        (before.knows_iff collisionless.tail.numbers).2 (List.mem_map.2 ⟨o', ho', same.symm⟩)
      have spent := applied.room o ho known
      cases deed with
      | minted => cases spent
      | committed e =>
        have mem : .executed e ∈ log := by simpa using h.executed_of_committed (.head _)
        rcases before.new_or_kept_of_executed collisionless.tail mem ho with
          ⟨-, -, unspent⟩ | ⟨-, last, placed, origin, cls⟩
        · exact absurd spent unspent
        · exact cls.symm.trans (ih last placed o' ho' (origin.trans same))
      | deployed | executed => cases ho
    intro o ho o' ho' same
    rcases List.mem_append.1 ho with ho | ho <;> rcases List.mem_append.1 ho' with ho' | ho'
    · cases deed with
      | minted =>
        cases List.mem_singleton.1 ho
        cases List.mem_singleton.1 ho'
        rfl
      | committed e =>
        have mem : .executed e ∈ log := by simpa using h.executed_of_committed (.head _)
        rcases before.new_or_kept_of_executed collisionless.tail mem ho with
            ⟨unknown, root, -⟩ | ⟨known, last, placed, origin, cls⟩ <;>
          rcases before.new_or_kept_of_executed collisionless.tail mem ho' with
            ⟨unknown', root', -⟩ | ⟨known', last', placed', origin', cls'⟩
        · -- Two new outputs of one jig have one place.
          have here : o.location = o'.location := root.trans (same.trans root'.symm)
          have nodup := h.nodup_outputs collisionless.numbers (.head _)
          rw [List.inj_on_of_nodup_map nodup ho ho' here]
        · rw [same, known'] at unknown
          cases unknown
        · rw [← same, known] at unknown'
          cases unknown'
        · rw [← cls, ← cls']
          exact ih last placed last' placed' (origin.trans (same.trans origin'.symm))
      | deployed | executed => cases ho
    · exact settled ho ho' same
    · exact (settled ho' ho same.symm).symm
    · exact ih o ho o' ho' same

/-- Whoever asks for a jig finds an output, or a tombstone, that has the class of the jig. -/
theorem exists_of_byOrigin (h : Chronicle p l log) (numbered : Numbered p log)
    {origin : Pointer} (found : l.store.byOrigin origin = some o) :
    ∃ last ∈ log.flatMap Deed.outputs, last.origin = origin ∧ last.classPtr = o.classPtr := by
  induction log generalizing l o with
  | nil =>
    cases h
    simp [Ledger.empty, Store.empty, Store.byOrigin] at found
  | cons deed log ih =>
    obtain ⟨l', before, applied⟩ := h.applied numbered
    have keyed := (h.coherent numbered).toIndexed.keyed origin o found
    have older {o : Output} (found : l'.store.byOrigin origin = some o) :
        ∃ last ∈ (deed :: log).flatMap Deed.outputs, last.origin = origin ∧
          last.classPtr = o.classPtr := by
      obtain ⟨last, placed, same⟩ := ih before numbered.tail found
      exact ⟨last, List.mem_append_right _ placed, same⟩
    rcases Store.live_or_destroyed_of_byOrigin found with ⟨location, there⟩ | left
    · exact ⟨o, h.placed_of_live there, keyed, rfl⟩
    · rw [applied.destroyed] at left
      split at left
      case isTrue =>
        obtain ⟨last, latest, rfl⟩ := Option.map_eq_some_iff.1 left
        -- A tombstone has the class of the output that it was made from.
        obtain ⟨first, placed, same⟩ := older latest
        exact ⟨first, placed, same⟩
      case isFalse =>
        exact older ((before.coherent numbered.tail).byOrigin_of_destroyed left)

end Chronicle

end JigLedger.Ledger
