import JigLedger.Proofs.Ledger.Chronicle

/-!
# The places of outputs

A place is given to an output again only by the same transaction. If the transaction was paid for,
this does not happen: it asks for the output that it has spent to pay, and this output is gone for
ever. If it was not, it puts the same jigs at the same places. So outputs that were ever at one
place are those of one jig. Both are shown together, by induction on the chronicle: as long as the
outputs at a place are those of one jig, nothing comes back to the place of a jig that is destroyed.
-/

namespace JigLedger

/-- An instruction of the transaction pays for it, or needs that it has been paid for. -/
def Transaction.isPaid (tx : Transaction) : Bool := tx.instructions.any (·.isPaid)

/-- An instruction asks for an output by its place or by its jig. -/
def Instruction.AsksFor (i : Instruction) (spend : Spend) : Prop :=
  i = .load spend.location ∨ i = .loadByOrigin spend.origin

/-- What an instruction finds is what it asks for. -/
theorem Instruction.asksFor_of_loaded {store : Store} (coherent : store.Coherent) {i : Instruction}
    {o : Output} (loaded : i.loaded? store = some o) : i.AsksFor ⟨o.origin, o.location⟩ := by
  cases i
  case load location =>
    exact .inl (congrArg _ (coherent.place location o loaded).symm)
  case loadByOrigin origin =>
    exact .inr (congrArg _ (coherent.toIndexed.keyed origin o loaded).symm)
  all_goals cases loaded

namespace Store

variable {s t : Store} {spend : Spend} {spends : List Spend} {outputs : List Output}

/-- An output is gone for ever: its jig is destroyed, and nothing is at its place. -/
structure Buried (s : Store) (spend : Spend) : Prop where
  destroyed : (s.destroyed[spend.origin]?).isSome
  empty : s.live[spend.location]? = none

/-- What is buried stays so, if nothing is put at its place. -/
theorem Applied.keeps (h : Applied s t spends outputs) (coherent : s.Coherent)
    (buried : s.Buried spend) (elsewhere : ∀ o ∈ outputs, o.location ≠ spend.location) :
    t.Buried spend := by
  obtain ⟨o, gone⟩ := Option.isSome_iff_exists.1 buried.destroyed
  refine ⟨by rw [h.stays coherent gone]; rfl, ?_⟩
  rcases found : t.live[spend.location]? with _ | o
  · rfl
  · rcases h.live _ o found with ⟨ho, here⟩ | ⟨before, -⟩
    · exact absurd here (elsewhere o ho)
    · rw [buried.empty] at before
      cases before

/-- What is spent without a new output of its jig is buried. -/
theorem Applied.buries (h : Applied s t spends outputs) (indexed : s.Indexed) (hs : spend ∈ spends)
    (unwritten : ∀ o ∈ outputs, o.origin ≠ spend.origin) : t.Buried spend := by
  refine ⟨h.destroys indexed hs unwritten, ?_⟩
  obtain ⟨last, there, -⟩ := indexed.current _ _ (h.due spend hs)
  rcases found : t.live[spend.location]? with _ | o
  · rfl
  · rcases h.live _ o found with ⟨ho, here⟩ | ⟨-, unspent⟩
    · have free := h.free o ho
      rw [here, there] at free
      cases free
    · exact absurd (List.mem_map_of_mem hs) unspent

/-- What asks for a buried output finds nothing, or only a frozen tombstone. -/
theorem Buried.not_loaded (h : s.Buried spend) (coherent : s.Coherent) {i : Instruction}
    (asks : i.AsksFor spend) {o : Output} {lock : Lock} (loaded : i.loaded? s = some o)
    (stored : Engine.Host.storedLock o = .ok lock) : False := by
  rcases asks with rfl | rfl
  · have found : s.live[spend.location]? = some o := loaded
    rw [h.empty] at found
    cases found
  · obtain ⟨last, gone⟩ := Option.isSome_iff_exists.1 h.destroyed
    have found : s.byOrigin spend.origin = some o := loaded
    rw [coherent.byOrigin_of_destroyed gone] at found
    cases found
    exact Engine.not_frozen_of_storedLock stored (coherent.gone _ _ gone).1

/-- When an output is buried, nothing that can be asked for in its stead is current. -/
theorem Buried.not_current (h : s.Buried spend) (coherent : s.Coherent) {i : Instruction}
    (asks : i.AsksFor spend) {other : Spend} (asks' : i.AsksFor other) : ¬ s.IsCurrent other := by
  intro current
  rcases asks with rfl | rfl
  · have same : spend.location = other.location := by simpa [Instruction.AsksFor] using asks'
    obtain ⟨o, there, -⟩ := coherent.toIndexed.current _ _ current
    rw [← same, h.empty] at there
    cases there
  · obtain ⟨o, gone⟩ := Option.isSome_iff_exists.1 h.destroyed
    have same : spend.origin = other.origin := by simpa [Instruction.AsksFor] using asks'
    rw [IsCurrent, ← same, (coherent.gone _ _ gone).2] at current
    cases current

end Store

namespace Ledger

variable {p : Policy} {l l' : Ledger} {log : List Deed} {deed : Deed} {e e' : Execution}

/-! ### Paying -/

/-- Something that a transaction asks for is gone for ever. -/
def Exhausted (l : Ledger) (tx : Transaction) (spend : Spend) : Prop :=
  l.store.Buried spend ∧ ∃ load ∈ tx.instructions, load.AsksFor spend

/-- What the instructions of a transaction ask for is there and is spent. -/
theorem spent_of_execute (coherent : l.store.Coherent) {tx : Transaction} {r : ExecutionResult}
    (done : (l.execute p tx).1 = .ok r) {load : Instruction} (mem : load ∈ tx.instructions)
    {spend : Spend} (asks : load.AsksFor spend) :
    ∃ o lock, load.loaded? l.store = some o ∧ Engine.Host.storedLock o = .ok lock ∧
      ⟨o.origin, o.location⟩ ∈ r.spends := by
  obtain ⟨c, s, context, run⟩ := execute_eq_ok.1 done
  have store : c.env.store = l.store := congrArg Engine.Env.store (env_of_contextOf context)
  have isLoad : load.isLoad = true := by rcases asks with rfl | rfl <;> rfl
  have keyed : c.env.store.Keyed := store ▸ coherent.toIndexed.keyed
  obtain ⟨o, lock, loaded, stored, spent⟩ := Engine.loaded_of_run keyed run mem isLoad
  exact ⟨o, lock, store ▸ loaded, stored, spent⟩

/-- A transaction that asks for something that is gone is not executed. -/
theorem Exhausted.not_execute {tx : Transaction} {spend : Spend} (h : l.Exhausted tx spend)
    (coherent : l.store.Coherent) {r : ExecutionResult} : (l.execute p tx).1 ≠ .ok r := by
  intro done
  obtain ⟨buried, load, mem, asks⟩ := h
  obtain ⟨o, lock, loaded, stored, -⟩ := spent_of_execute coherent done mem asks
  exact buried.not_loaded coherent asks loaded stored

/-- A result of a transaction that asks for something that is gone spends something that is not
current. -/
theorem Exhausted.not_due {spend : Spend} (h : l.Exhausted e.tx spend)
    (coherent : l.store.Coherent) (past : e.ledger.store.Coherent)
    (done : (e.ledger.execute p e.tx).1 = .ok e.result) :
    ¬ ∀ spend ∈ e.result.spends, l.store.IsCurrent spend := by
  intro due
  obtain ⟨buried, load, mem, asks⟩ := h
  obtain ⟨o, lock, loaded, -, spent⟩ := spent_of_execute past done mem asks
  exact buried.not_current coherent asks (Instruction.asksFor_of_loaded past loaded) (due _ spent)

/-- A transaction that is paid for asks for an output that it spends without writing its jig down
again. -/
theorem coin_of_execute (coherent : l.store.Coherent) {tx : Transaction} {r : ExecutionResult}
    (done : (l.execute p tx).1 = .ok r) (paid : tx.isPaid = true) :
    ∃ spend ∈ r.spends, (∀ o ∈ r.outputs, o.origin ≠ spend.origin) ∧
      ∃ load ∈ tx.instructions, load.AsksFor spend := by
  obtain ⟨c, s, context, run⟩ := execute_eq_ok.1 done
  have store : c.env.store = l.store := congrArg Engine.Env.store (env_of_contextOf context)
  have keyed : c.env.store.Keyed := store ▸ coherent.toIndexed.keyed
  obtain ⟨i, mem, pays⟩ := List.any_eq_true.1 paid
  obtain ⟨load, hload, -, o, loaded, spent, unwritten⟩ := Engine.coin_of_run keyed run mem pays
  rw [store] at loaded
  exact ⟨_, spent, unwritten, load, hload, Instruction.asksFor_of_loaded coherent loaded⟩

/-! ### Places -/

/-- A transaction that is not paid for writes down what its instructions load, at places that depend
on the transaction only. -/
theorem outputs_of_unpaid (coherent : l.store.Coherent) {tx : Transaction} {r : ExecutionResult}
    (done : (l.execute p tx).1 = .ok r) (unpaid : tx.isPaid = false) :
    ∃ bs, tx.toBytes = .ok bs ∧
    r.outputs.map (·.location) =
      (List.range' tx.size (tx.instructions.filter (·.isLoad)).length).map
        (fun k => ⟨Sha256.digest bs, UInt32.ofNat k⟩) ∧
    List.Forall₂ (fun i o => ∃ last, i.loaded? l.store = some last ∧ o.origin = last.origin)
      (tx.instructions.filter (·.isLoad)) r.outputs := by
  obtain ⟨c, s, context, run⟩ := execute_eq_ok.1 done
  have store : c.env.store = l.store := congrArg Engine.Env.store (env_of_contextOf context)
  have keyed : c.env.store.Keyed := store ▸ coherent.toIndexed.keyed
  obtain ⟨bs, written, hash⟩ := txHash_of_contextOf context
  have free : ∀ i ∈ tx.instructions, i.isPaid = false := by
    simpa [Transaction.isPaid] using unpaid
  obtain ⟨places, loads⟩ := Engine.outputs_of_unpaid run keyed free
  rw [store] at loads
  exact ⟨bs, written, hash ▸ places, loads⟩

/-- A transaction that is not paid for writes something down exactly if it loads something. -/
theorem exists_load_iff (coherent : l.store.Coherent) {tx : Transaction} {r : ExecutionResult}
    (done : (l.execute p tx).1 = .ok r) (unpaid : tx.isPaid = false) :
    (∃ i ∈ tx.instructions, i.isLoad = true) ↔ ∃ o, o ∈ r.outputs := by
  obtain ⟨-, -, -, loads⟩ := outputs_of_unpaid coherent done unpaid
  constructor
  · rintro ⟨i, hi, isLoad⟩
    have some := List.length_pos_of_mem (List.mem_filter.2 ⟨hi, isLoad⟩)
    exact List.exists_mem_of_length_pos (loads.length_eq ▸ some)
  · rintro ⟨o, ho⟩
    have some := List.length_pos_of_mem ho
    obtain ⟨i, hi⟩ := List.exists_mem_of_length_pos (loads.length_eq ▸ some)
    exact ⟨i, List.mem_filter.1 hi⟩

/-- What the places of a chronicle are like: outputs that have been put at one place are those of
one jig, and for each transaction that was paid for and committed, what it asks for is gone. -/
structure Placing (l : Ledger) (log : List Deed) : Prop where
  origins : ∀ o ∈ log.flatMap Deed.outputs, ∀ o' ∈ log.flatMap Deed.outputs,
    o.location = o'.location → o.origin = o'.origin
  coins : ∀ e, .committed e ∈ log → e.tx.isPaid = true → ∃ o ∈ log.flatMap Deed.outputs,
    l.Exhausted e.tx ⟨o.origin, o.location⟩

section Executions

variable (h : Chronicle p l log) (collisionless : Collisionless p log)
  (mem : .executed e ∈ log) (mem' : .executed e' ∈ log)

include h collisionless mem mem'

/-- Whenever a transaction is executed that is not paid for, it uses the same places. -/
theorem locations_of_unpaid (same : e.tx = e'.tx) (unpaid : e.tx.isPaid = false) :
    e.result.outputs.map (·.location) = e'.result.outputs.map (·.location) := by
  obtain ⟨bs, written, places, -⟩ := outputs_of_unpaid
    (h.coherent_of_executed collisionless.numbers mem) (h.executed mem).1 unpaid
  rw [same] at unpaid written places
  obtain ⟨bs', written', places', -⟩ := outputs_of_unpaid
    (h.coherent_of_executed collisionless.numbers mem') (h.executed mem').1 unpaid
  cases written.symm.trans written'
  exact places.trans places'.symm

variable (origins : ∀ o ∈ log.flatMap Deed.outputs, ∀ o' ∈ log.flatMap Deed.outputs,
  o.location = o'.location → o.origin = o'.origin)

include origins

/-- What instructions find at any time for the same question is of the same jig. -/
theorem origin_of_loaded {i : Instruction} {o o' : Output}
    (loaded : i.loaded? e.ledger.store = some o)
    (loaded' : i.loaded? e'.ledger.store = some o') : o.origin = o'.origin := by
  obtain ⟨-, earlier, hs, before⟩ := h.executed mem
  obtain ⟨-, earlier', hs', before'⟩ := h.executed mem'
  have coherent := before.coherent (collisionless.numbers.of_suffix hs)
  have coherent' := before'.coherent (collisionless.numbers.of_suffix hs')
  cases i
  case load location =>
    have placed := before.placed_of_live loaded
    have placed' := before'.placed_of_live loaded'
    exact origins o ((hs.flatMap _).subset placed) o' ((hs'.flatMap _).subset placed')
      ((coherent.place _ _ loaded).trans (coherent'.place _ _ loaded').symm)
  case loadByOrigin origin =>
    exact (coherent.toIndexed.keyed _ _ loaded).trans (coherent'.toIndexed.keyed _ _ loaded').symm
  all_goals cases loaded

/-- Whenever a transaction is executed that is not paid for, it puts the same jigs at the places
that it uses. -/
theorem origin_of_unpaid (same : e.tx = e'.tx) (unpaid : e.tx.isPaid = false) {o o' : Output}
    (ho : o ∈ e.result.outputs) (ho' : o' ∈ e'.result.outputs) (here : o.location = o'.location) :
    o.origin = o'.origin := by
  have equal := locations_of_unpaid h collisionless mem mem' same unpaid
  obtain ⟨-, -, -, loads⟩ := outputs_of_unpaid
    (h.coherent_of_executed collisionless.numbers mem) (h.executed mem).1 unpaid
  rw [same] at unpaid loads
  obtain ⟨-, -, -, loads'⟩ := outputs_of_unpaid
    (h.coherent_of_executed collisionless.numbers mem') (h.executed mem').1 unpaid
  obtain ⟨length, loads⟩ := List.forall₂_iff_get.1 loads
  obtain ⟨length', loads'⟩ := List.forall₂_iff_get.1 loads'
  obtain ⟨idx, hi, rfl⟩ := List.mem_iff_getElem.1 ho
  obtain ⟨idx', hi', rfl⟩ := List.mem_iff_getElem.1 ho'
  -- The places are different, so the two outputs are those of one instruction.
  have nodup := h.nodup_locations collisionless.numbers mem
  have index : idx = idx' := by
    refine (List.getElem?_inj (by simpa using hi) nodup).1 ?_
    calc (e.result.outputs.map (·.location))[idx]?
        = some e.result.outputs[idx].location := by simp [hi]
      _ = (e'.result.outputs.map (·.location))[idx']? := by simp [hi', here]
      _ = (e.result.outputs.map (·.location))[idx']? := by rw [equal]
  subst index
  obtain ⟨last, loaded, origin⟩ := loads idx (length ▸ hi) hi
  obtain ⟨last', loaded', origin'⟩ := loads' idx (length' ▸ hi') hi'
  rw [List.get_eq_getElem] at origin origin'
  rw [origin, origin']
  exact origin_of_loaded h collisionless mem mem' origins loaded loaded'

end Executions

/-- What a transaction spends that has been committed before is not current any more, if it was paid
for. -/
theorem Placing.unpaid_of_due (placing : Placing l log) (h : Chronicle p l log)
    (collisionless : Collisionless p log) (mem : .executed e ∈ log) (mem' : .committed e' ∈ log)
    (same : e.tx = e'.tx) (due : ∀ spend ∈ e.result.spends, l.store.IsCurrent spend) :
    e.tx.isPaid = false := by
  rw [← Bool.not_eq_true]
  intro paid
  obtain ⟨coin, -, gone⟩ := placing.coins e' mem' (same ▸ paid)
  rw [← same] at gone
  exact gone.not_due (h.coherent collisionless.numbers)
    (h.coherent_of_executed collisionless.numbers mem) (h.executed mem).1 due

section Growth

variable (h : Chronicle p l' (deed :: log)) (collisionless : Collisionless p (deed :: log))
  (before : Chronicle p l log)
  (applied : Store.Applied l.store l'.store deed.spends deed.outputs)

include h collisionless before applied

/-- An output that is put at a place where another one has been is of the same jig. -/
theorem Placing.origin_of_new (placing : Placing l log) {o o' : Output} (ho : o ∈ deed.outputs)
    (ho' : o' ∈ log.flatMap Deed.outputs) (here : o.location = o'.location) :
    o.origin = o'.origin := by
  cases deed with
  | minted owner amount seed minted =>
    cases List.mem_singleton.1 ho
    exact h.origin_of_minted collisionless (.head _) (List.mem_append_right _ ho') here
  | committed e =>
    have executed : .executed e ∈ log := by simpa using h.executed_of_committed (.head _)
    obtain ⟨e', hd', ho', same⟩ :=
      before.committed_of_place collisionless.tail executed ho ho' here
    have unpaid := placing.unpaid_of_due before collisionless.tail executed hd' same applied.due
    exact origin_of_unpaid before collisionless.tail executed (before.executed_of_committed hd')
      placing.origins same unpaid ho ho' here
  | deployed | executed => cases ho

/-- What a transaction that was paid for asks for stays gone. -/
theorem Placing.stays (placing : Placing l log) {tx : Transaction} {o : Output}
    (mem : o ∈ log.flatMap Deed.outputs)
    (gone : l.Exhausted tx ⟨o.origin, o.location⟩) : l'.Exhausted tx ⟨o.origin, o.location⟩ := by
  have coherent := before.coherent collisionless.tail.numbers
  refine ⟨applied.keeps coherent gone.1 fun written hw here => ?_, gone.2⟩
  have same := placing.origin_of_new h collisionless before applied hw mem here
  have standing := applied.standing written hw
  have destroyed := gone.1.destroyed
  rw [same] at standing
  rw [standing] at destroyed
  cases destroyed

/-- When a transaction that was paid for is committed, something that it asks for is gone. -/
theorem Chronicle.exhausts (commit : deed = .committed e) (paid : e.tx.isPaid = true) :
    ∃ o ∈ log.flatMap Deed.outputs, l'.Exhausted e.tx ⟨o.origin, o.location⟩ := by
  subst commit
  have executed : .executed e ∈ log := by simpa using h.executed_of_committed (.head _)
  have coherent := before.coherent collisionless.tail.numbers
  obtain ⟨spend, spent, unwritten, asks⟩ := coin_of_execute
    (before.coherent_of_executed collisionless.tail.numbers executed)
    (before.executed executed).1 paid
  obtain ⟨o, there, origin⟩ := coherent.toIndexed.current _ _ (applied.due spend spent)
  have same : (⟨o.origin, o.location⟩ : Spend) = spend := by
    rw [origin, coherent.place _ _ there]
  refine ⟨o, before.placed_of_live there, ?_⟩
  rw [same]
  exact ⟨applied.buries coherent.toIndexed spent unwritten, asks⟩

end Growth

/-- In every chronicle the outputs at a place are those of one jig, and no transaction that was paid
for and committed finds again what it asks for. -/
theorem Chronicle.placing (h : Chronicle p l log) (collisionless : Collisionless p log) :
    Placing l log := by
  induction log generalizing l with
  | nil => exact ⟨nofun, nofun⟩
  | cons deed log ih =>
    obtain ⟨l', before, applied⟩ := h.applied collisionless.numbers
    have placing := ih before collisionless.tail
    refine ⟨fun o ho o' ho' here => ?_, fun e he paid => ?_⟩
    · rw [List.flatMap_cons, List.mem_append] at ho ho'
      rcases ho with ho | ho <;> rcases ho' with ho' | ho'
      · rw [List.inj_on_of_nodup_map (h.nodup_outputs collisionless.numbers (.head _)) ho ho' here]
      · exact placing.origin_of_new h collisionless before applied ho ho' here
      · exact (placing.origin_of_new h collisionless before applied ho' ho here.symm).symm
      · exact placing.origins o ho o' ho' here
    · rw [List.flatMap_cons]
      rcases List.mem_cons.1 he with commit | old
      · obtain ⟨o, ho, gone⟩ := Chronicle.exhausts h collisionless before applied commit.symm paid
        exact ⟨o, List.mem_append_right _ ho, gone⟩
      · obtain ⟨o, ho, gone⟩ := placing.coins e old paid
        exact ⟨o, List.mem_append_right _ ho,
          placing.stays h collisionless before applied ho gone⟩

end Ledger

end JigLedger
