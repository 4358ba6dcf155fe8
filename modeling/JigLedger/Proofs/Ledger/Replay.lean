import JigLedger.Proofs.Ledger.Places

/-!
# What can be done twice

A transaction that has been paid for takes effect at most once: after one of its results has been
committed, it is not executed any more, and no other result of it is committed. A transaction that
only loads jigs can be executed again and again. It gives out the same places each time, and this is
the only way in which a place is used again.
-/

namespace JigLedger.Ledger

variable {p : Policy} {l l' : Ledger} {log : List Deed} {deed earlier : Deed} {e e' : Execution}

/-! ### Paid transactions -/

/-- What was committed has been paid for. -/
def Deed.isPaid : Deed → Bool
  | committed e => e.tx.instructions.any (·.isPaid)
  | deployed _ | minted _ _ _ _ | executed _ => false

/-- The same transaction, which is not paid for but loads jigs, is committed once more. -/
def Deed.Repeats (later earlier : Deed) : Prop :=
  ∃ e e', later = .committed e ∧ earlier = .committed e' ∧ e.tx = e'.tx ∧ e.tx.isPaid = false ∧
    ∃ i ∈ e.tx.instructions, i.isLoad = true

/-- Something puts an output where something else has put one. -/
def Deed.SharesPlace (later earlier : Deed) : Prop :=
  ∃ o ∈ later.outputs, ∃ o' ∈ earlier.outputs, o.location = o'.location

section Last

variable (h : Chronicle p l' (deed :: log)) (collisionless : Collisionless p (deed :: log))
  (mem : earlier ∈ log)

include h collisionless mem

/-- A place is used again only by repeating a commit. -/
theorem Chronicle.repeats_of_sharesPlace (shares : deed.SharesPlace earlier) :
    deed.Repeats earlier := by
  obtain ⟨l, before, applied⟩ := h.applied collisionless.numbers
  obtain ⟨o, ho, o', ho', here⟩ := shares
  cases deed with
  | minted owner amount seed minted =>
    -- The jig of the new coin is known, so the coin is refused.
    cases List.mem_singleton.1 ho
    have placed : o' ∈ log.flatMap Deed.outputs := List.mem_flatMap.2 ⟨earlier, mem, ho'⟩
    have same := h.origin_of_minted collisionless (.head _) (List.mem_append_right _ placed) here
    have known : l.store.knows o.origin = true :=
      (before.knows_iff collisionless.tail.numbers).2 (List.mem_map.2 ⟨o', placed, same.symm⟩)
    cases applied.room o (.head _) known
  | committed e =>
    have executed : .executed e ∈ log := by simpa using h.executed_of_committed (.head _)
    cases earlier with
    | minted owner' amount' seed' minted' =>
      cases List.mem_singleton.1 ho'
      exact absurd here.symm
        (before.location_ne_of_minted collisionless.tail mem executed ho)
    | committed e' =>
      have executed' := before.executed_of_committed mem
      have same := before.tx_eq collisionless.tail executed executed' ho ho' here
      have unpaid := (before.placing collisionless.tail).unpaid_of_due before collisionless.tail
        executed mem same applied.due
      have coherent := before.coherent_of_executed collisionless.tail.numbers executed
      have loads := (exists_load_iff coherent (before.executed executed).1 unpaid).2 ⟨o, ho⟩
      exact ⟨e, e', rfl, rfl, same, unpaid, loads⟩
    | deployed | executed => cases ho'
  | deployed | executed => cases ho

/-- Repeating a commit uses places again. -/
theorem Chronicle.sharesPlace_of_repeats (repeats : deed.Repeats earlier) :
    deed.SharesPlace earlier := by
  obtain ⟨e, e', rfl, rfl, same, unpaid, loads⟩ := repeats
  have executed := h.executed_of_committed (.head _)
  have executed' := h.executed_of_committed (.tail _ mem)
  have equal := locations_of_unpaid h collisionless executed executed' same unpaid
  have coherent := h.coherent_of_executed collisionless.numbers executed
  obtain ⟨o, ho⟩ := (exists_load_iff coherent (h.executed executed).1 unpaid).1 loads
  have here : o.location ∈ e'.result.outputs.map (·.location) :=
    equal ▸ List.mem_map_of_mem ho
  obtain ⟨o', ho', here⟩ := List.mem_map.1 here
  exact ⟨o, ho, o', ho', here.symm⟩

end Last

/-- Executions put their outputs at different places, and outputs that are ever put at one place
are those of one jig. A place that was used before is used again exactly by committing a transaction
once more that is not paid for and loads jigs. -/
theorem sharesPlace_iff_repeats (h : Chronicle p l log) (collisionless : Collisionless p log) :
    (∀ e, .executed e ∈ log → (e.result.outputs.map (·.location)).Nodup) ∧
    (∀ o ∈ log.flatMap Deed.outputs, ∀ o' ∈ log.flatMap Deed.outputs,
      o.location = o'.location → o.origin = o'.origin) ∧
    log.Pairwise fun later earlier => later.SharesPlace earlier ↔ later.Repeats earlier := by
  refine ⟨fun e mem => h.nodup_locations collisionless.numbers mem,
    (h.placing collisionless).origins, ?_⟩
  induction log generalizing l with
  | nil => exact .nil
  | cons deed log ih =>
    obtain ⟨l', before, -⟩ := h.applied collisionless.numbers
    refine .cons (fun earlier mem => ?_) (ih before collisionless.tail)
    exact ⟨h.repeats_of_sharesPlace collisionless mem, h.sharesPlace_of_repeats collisionless mem⟩

/-- A coin is loaded by two transactions in turn, and by the first one again. -/
def Till.moves (coin : Pointer) : List Transaction :=
  [⟨[.loadByOrigin coin]⟩, ⟨[.loadByOrigin coin, .sign [] []]⟩, ⟨[.loadByOrigin coin]⟩]

/-- A coin that is moved without payment comes back to where it was before. -/
theorem sharesPlace_iff_repeats_of_return :
    ∃ (p : Policy) (l : Ledger) (log : List Deed), Chronicle p l log ∧ Collisionless p log ∧
      ¬ ((log.flatMap Deed.outputs).map (·.location)).Nodup ∧
      (∀ e, .executed e ∈ log → (e.result.outputs.map (·.location)).Nodup) ∧
      (∀ o ∈ log.flatMap Deed.outputs, ∀ o' ∈ log.flatMap Deed.outputs,
        o.location = o'.location → o.origin = o'.origin) ∧
      log.Pairwise fun later earlier => later.SharesPlace earlier ↔ later.Repeats earlier := by
  obtain ⟨l, log, chronicle, collisionless, again⟩ := Till.exists_chronicle Till.moves
    (fun _ log => decide (¬ ((log.flatMap Deed.outputs).map Output.location).Nodup))
    (by decide +kernel)
  exact ⟨_, l, log, chronicle, collisionless, of_decide_eq_true again,
    sharesPlace_iff_repeats chronicle collisionless⟩

end JigLedger.Ledger
