import Mathlib
import JigLedger.Proofs.Engine.Recall
import JigLedger.Proofs.Ledger.Frozen

/-!
# Payments

A transaction is paid for with coins, one for each of its instructions that pay. Nothing else adds
to the funded amount, neither other instructions nor the code of guests, whatever is called between
two payments. A coin that has paid is frozen, and a frozen lock opens to nobody. So no coin pays
twice, and in the end each of them is consumed.
-/

namespace JigLedger.Engine

variable {c : Context} {tx : Transaction} {s t u : Session} {idx : Nat} {i : Instruction}

/-! ### Without payment -/

/-- Nothing has been paid in between. -/
structure Unpaid (s t : Session) : Prop where
  funded : t.funded = s.funded
  fundedAmount : t.fundedAmount = s.fundedAmount

theorem oblivious_unpaid (c : Context) : Oblivious c Unpaid where
  silent h := ⟨h.funded, h.fundedAmount⟩
  trans h h' := ⟨h'.funded.trans h.funded, h'.fundedAmount.trans h.fundedAmount⟩
  noted s _ _ := ⟨rfl, rfl⟩
  launched s _ := ⟨rfl, rfl⟩
  started s _ := ⟨rfl, rfl⟩
  deployed s _ := ⟨rfl, rfl⟩
  relocked s _ _ := ⟨rfl, rfl⟩
  inFrame body := by
    intro s a t run
    obtain ⟨u, ran, rfl⟩ := runFrom_inFrame_eq_ok run
    have inner := body _ _ _ ran
    exact ⟨inner.funded, inner.fundedAmount⟩
  pointed s _ := ⟨rfl, rfl⟩
  made s _ _ := ⟨rfl, rfl⟩

/-- An instruction of another kind pays nothing. -/
theorem Leads.unpaid_instruction (c : Context) (other : i.opcode ≠ .fund) :
    Leads Unpaid ((host c).instruction i) := by
  have built : BuiltWith False True invoker none fun c => (invoker.host c).instruction i :=
    .instruction i other fun _ => trivial
  exact (oblivious_unpaid c).leads_host built False.elim

/-- Looking for a coin pays nothing. -/
theorem Leads.unpaid_resolve (c : Context) (origin : Pointer) :
    Leads Unpaid ((host c).resolve origin) := by
  have built : BuiltWith False False invoker none fun c => (invoker.host c).resolve origin :=
    .resolve origin
  exact (oblivious_unpaid c).leads_host built False.elim

/-- A transaction that succeeds comes to the end of its instructions. The jigs that are touched then
and the amount that is funded are those of its result. -/
theorem exists_arrives_of_run {r : ExecutionResult} (run : runTransaction c tx = (.ok r, u)) :
    ∃ v, Arrives c tx tx.size v ∧ u.jigs = v.jigs ∧ r.fundedAmount = v.fundedAmount := by
  obtain ⟨fuels, v, ran, finishing⟩ := runFrom_bind_eq_ok run
  obtain ⟨_, w, finalized, rest⟩ := runFrom_bind_eq_ok finishing
  obtain ⟨_, _, looked, returned⟩ := runFrom_bind_eq_ok rest
  cases looked
  cases returned
  have quiet := Quietly.finalize c v
  rw [finalized] at quiet
  refine ⟨v, ⟨fuels, ?_⟩, quiet.jigs, quiet.fundedAmount⟩
  rw [Transaction.size, List.take_length]
  exact ran

/-! ### What is frozen -/

/-- A jig that is frozen is the same in every later session. -/
theorem Lawful.frozen (later : Lawful c t) (lawful : Lawful c s) (hs : s.journal <:+ t.journal)
    {jig : TouchedJig} (hj : s.jigs[idx]? = some jig) (frozen : jig.lock = .frozen) :
    t.jigs[idx]? = some jig := by
  rw [← lawful.shows.jigs] at hj
  rw [← later.shows.jigs]
  exact Scene.frozen_of_suffix later.due hs hj frozen

/-- The jig, frozen. -/
def TouchedJig.spent (jig : TouchedJig) : TouchedJig := { jig with lock := .frozen }

/-! ### Payments -/

/-- A payment for a transaction. -/
structure Payment where
  /-- The index of the instruction that pays. -/
  instruction : Nat
  /-- The index of the statement that names the coin. -/
  statement : UInt16
  /-- The origin that the statement names. -/
  origin : Pointer
  /-- The index of the coin among the touched jigs. -/
  idx : Nat
  /-- The coin, before it is spent. -/
  coin : TouchedJig
  /-- The amount that is read from the coin. -/
  amount : UInt64

/-- The payment is made by the transaction: when its instruction begins, its statement names its
origin, and the jig that is found under this origin is a coin of its amount. -/
def Payment.IsMade (c : Context) (tx : Transaction) (p : Payment) : Prop :=
  ∃ s t, Arrives c tx p.instruction s ∧ s.statements[p.statement.toNat]? = some (.jig p.origin) ∧
    runFrom (s.began p.instruction) ((host c).resolve p.origin) = (.ok p.idx, t) ∧
    t.jigs[p.idx]? = some p.coin ∧ Bears c t p.coin p.amount

/-- The instructions that pay: for each its index, and that of the statement that names the coin. -/
def fundings (instructions : List Instruction) : List (Nat × UInt16) :=
  instructions.zipIdx.filterMap fun
    | (.fund coin, idx) => some (idx, coin)
    | _ => none

/-- The sum of amounts, or the highest number if it is larger. -/
def saturatingSum (amounts : List UInt64) : Nat :=
  min (amounts.map (·.toNat)).sum (UInt64.size - 1)

theorem fundings_concat_fund (instructions : List Instruction) (coin : UInt16) :
    fundings (instructions ++ [.fund coin]) =
      fundings instructions ++ [(instructions.length, coin)] := by
  simp [fundings, List.zipIdx_append]

theorem fundings_concat (instructions : List Instruction) (other : i.opcode ≠ .fund) :
    fundings (instructions ++ [i]) = fundings instructions := by
  cases i
  case fund => exact absurd rfl other
  all_goals simp [fundings, List.zipIdx_append]

/-- One more coin of an amount has been spent. -/
theorem saturatingSum_concat {amounts : List UInt64} {amount : UInt64}
    (h : s.fundedAmount.toNat = saturatingSum amounts) :
    (s.spent idx amount).fundedAmount.toNat = saturatingSum (amounts ++ [amount]) := by
  have below : min (s.fundedAmount.toNat + amount.toNat) (UInt64.size - 1) < UInt64.size :=
    Nat.lt_of_le_of_lt (Nat.min_le_right ..) (by decide)
  rw [Session.spent, Session.record, UInt64.toNat_ofNat_of_lt' below, h]
  simp only [saturatingSum, List.map_append, List.sum_append, List.map_cons, List.map_nil,
    List.sum_singleton]
  omega

/-! ### One instruction after the other -/

/-- The account of the first instructions of a transaction: their payments have been made with
different coins, which are frozen now, and nothing else has been paid. -/
structure Booked (c : Context) (tx : Transaction) (idx : Nat) (payments : List Payment)
    (s : Session) : Prop where
  fundings : payments.map (fun p => (p.instruction, p.statement)) =
    fundings (tx.instructions.take idx)
  made : ∀ p ∈ payments, p.IsMade c tx
  enough : ∀ p ∈ payments, c.env.config.minFundAmount ≤ p.amount
  amount : s.fundedAmount.toNat = saturatingSum (payments.map (·.amount))
  funded : s.funded = true → payments ≠ []
  earlier : ∀ p ∈ payments, p.instruction < idx
  frozen : ∀ p ∈ payments, s.jigs[p.idx]? = some p.coin.spent
  distinct : (payments.map (·.idx)).Nodup
  /-- What needs payment comes after the first payment. -/
  gate : ∀ k i, k < idx → tx.instructions[k]? = some i → i.opcode.requiresFunding = true →
    ∃ p ∈ payments, p.instruction < k

theorem booked_zero (c : Context) (tx : Transaction) :
    Booked c tx 0 [] (.start c.env.config.fuelLimit tx.size) where
  fundings := by rw [List.take_zero]; rfl
  made := nofun
  enough := nofun
  amount := rfl
  funded := nofun
  earlier := nofun
  frozen := nofun
  distinct := .nil
  gate := nofun

/-- Where an instruction begins, the session is lawful and nothing is in progress. -/
theorem Arrives.lawful (arrives : Arrives c tx idx s) : Lawful c s ∧ Lawful c (s.began idx) := by
  obtain ⟨fuel, run⟩ := arrives
  obtain ⟨lawful, idle, -⟩ := after_steps (lawful_start c _ _) (idle_start _ _) run
  exact ⟨lawful, lawful.began ⟨idle.frames, idle.making, idle.starting, idle.running⟩⟩

/-- What needs payment runs after a payment. -/
theorem Booked.gate_succ {payments more : List Payment} (booked : Booked c tx idx payments s)
    (here : tx.instructions[idx]? = some i)
    (needs : i.opcode.requiresFunding = true → s.funded = true) :
    ∀ k i, k < idx + 1 → tx.instructions[k]? = some i → i.opcode.requiresFunding = true →
      ∃ p ∈ payments ++ more, p.instruction < k := by
  intro k j lt at_k requires
  rcases Nat.lt_succ_iff_lt_or_eq.1 lt with before | rfl
  · obtain ⟨p, hp, first⟩ := booked.gate k j before at_k requires
    exact ⟨p, List.mem_append_left _ hp, first⟩
  · cases here.symm.trans at_k
    obtain ⟨p, hp⟩ := List.exists_mem_of_ne_nil _ (booked.funded (needs requires))
    exact ⟨p, List.mem_append_left _ hp, booked.earlier p hp⟩

/-- An instruction that pays adds a payment. Its coin is none of those that have paid before, since
they are frozen. -/
theorem Booked.fund {payments : List Payment} {coin : UInt16} {statement : Statement}
    (booked : Booked c tx idx payments s) (here : tx.instructions[idx]? = some (.fund coin))
    (arrives : Arrives c tx idx s)
    (run : runFrom (s.began idx) ((host c).instruction (.fund coin)) = (.ok statement, t)) :
    ∃ p : Payment, Booked c tx (idx + 1) (payments ++ [p]) t := by
  obtain ⟨lawful, began⟩ := arrives.lawful
  obtain ⟨needs, performed⟩ := runFrom_instruction_eq_ok run
  obtain ⟨_, _, funding, returned⟩ := runFrom_bind_eq_ok performed
  cases returned
  obtain ⟨origin, _, stated, resolving⟩ := runFrom_bind_eq_ok funding
  obtain ⟨named, rfl⟩ := runFrom_jigStatement_eq_ok stated
  obtain ⟨k, w, resolved, paying⟩ := runFrom_bind_eq_ok resolving
  obtain ⟨jig, amount, hj, opened, bears, enough, rfl⟩ := runFrom_pay_eq_ok.1 paying
  have built : Built invoker none fun c => (invoker.host c).resolve origin := .resolve origin
  obtain ⟨lawful', grown, -⟩ := (built.safe (isSafe_invoker c) _ began (.none _)).of_ok resolved
  have unpaid := Leads.unpaid_resolve c origin _ _ _ resolved
  have frozen (p) (hp : p ∈ payments) : w.jigs[p.idx]? = some p.coin.spent :=
    lawful'.frozen began grown.journal (booked.frozen p hp) rfl
  have fresh : k ∉ payments.map (·.idx) := by
    rintro mem
    obtain ⟨p, hp, rfl⟩ := List.mem_map.1 mem
    obtain rfl : p.coin.spent = jig := Option.some.inj ((frozen p hp).symm.trans hj)
    cases opened
  have taken : tx.instructions.take (idx + 1) = tx.instructions.take idx ++ [.fund coin] := by
    rw [List.take_add_one, here]
    rfl
  have length : (tx.instructions.take idx).length = idx :=
    List.length_take_of_le (Nat.le_of_lt (List.getElem?_eq_some_iff.1 here).1)
  let p : Payment := ⟨idx, coin, origin, k, jig, amount⟩
  have all {P : Payment → Prop} (old : ∀ q ∈ payments, P q) (new : P p) :
      ∀ q ∈ payments ++ [p], P q := fun q hq =>
    (List.mem_append.1 hq).elim (old q) fun hq => List.mem_singleton.1 hq ▸ new
  refine ⟨p, ?_, all booked.made ⟨s, w, arrives, named, resolved, hj, bears⟩,
    all booked.enough enough, ?_, fun _ => by simp, ?_, ?_, ?_, booked.gate_succ here needs⟩
  · rw [taken, fundings_concat_fund, List.map_append, booked.fundings, length]
    rfl
  · rw [List.map_append]
    exact saturatingSum_concat (unpaid.fundedAmount ▸ booked.amount)
  · exact all (fun q hq => Nat.lt_succ_of_lt (booked.earlier q hq)) (Nat.lt_succ_self idx)
  · refine all (fun q hq => ?_) ?_
    · have other : k ≠ q.idx := fun same => fresh (same ▸ List.mem_map_of_mem hq)
      simp [Session.spent, Session.record, Session.withLock, other, frozen q hq]
    · simp [Session.spent, Session.record, Session.withLock, p, hj, TouchedJig.spent]
  · rw [List.map_append, List.nodup_append]
    refine ⟨booked.distinct, List.nodup_singleton _, ?_⟩
    rintro _ mem _ mem' rfl
    rw [List.mem_singleton.1 mem'] at mem
    exact fresh mem

/-- Another instruction leaves the account as it was. -/
theorem Booked.pass {payments : List Payment} {statement : Statement}
    (booked : Booked c tx idx payments s) (here : tx.instructions[idx]? = some i)
    (other : i.opcode ≠ .fund) (arrives : Arrives c tx idx s)
    (run : runFrom (s.began idx) ((host c).instruction i) = (.ok statement, t)) :
    Booked c tx (idx + 1) payments t := by
  obtain ⟨lawful, began⟩ := arrives.lawful
  obtain ⟨needs, -⟩ := runFrom_instruction_eq_ok run
  have unpaid := Leads.unpaid_instruction c other _ _ _ run
  obtain ⟨lawful', grown, -⟩ :=
    ((Built.instruction i).safe (isSafe_invoker c) _ began (.none _)).of_ok run
  have taken : tx.instructions.take (idx + 1) = tx.instructions.take idx ++ [i] := by
    rw [List.take_add_one, here]
    rfl
  refine ⟨?_, booked.made, booked.enough, ?_, fun paid => ?_, fun p hp => ?_, fun p hp => ?_,
    booked.distinct, ?_⟩
  · rw [taken, fundings_concat _ other, booked.fundings]
  · rw [unpaid.fundedAmount]
    exact booked.amount
  · exact booked.funded (unpaid.funded.symm.trans paid)
  · exact Nat.lt_succ_of_lt (booked.earlier p hp)
  · exact lawful'.frozen began grown.journal (booked.frozen p hp) rfl
  · simpa using @Booked.gate_succ _ _ _ _ _ payments [] booked here needs

/-- Where an instruction begins, there is an account of the earlier ones. -/
theorem Arrives.exists_booked (arrives : Arrives c tx idx s) (le : idx ≤ tx.size) :
    ∃ payments, Booked c tx idx payments s := by
  induction idx generalizing s with
  | zero =>
    obtain ⟨fuel, run⟩ := arrives
    cases run
    exact ⟨[], booked_zero c tx⟩
  | succ idx ih =>
    have here := List.getElem?_eq_getElem le
    obtain ⟨u, fuel, before, stepped⟩ := (arrives_succ here).1 arrives
    obtain ⟨payments, booked⟩ := ih before (Nat.le_of_succ_le le)
    obtain ⟨statement, v, performed, rfl⟩ := runFrom_step_eq_ok stepped
    -- Noting the statement changes nothing that the account is about.
    suffices done : ∃ payments, Booked c tx (idx + 1) payments v by
      obtain ⟨payments, booked⟩ := done
      exact ⟨payments, { booked with }⟩
    by_cases other : tx.instructions[idx].opcode = .fund
    · obtain ⟨coin, pays⟩ : ∃ coin, tx.instructions[idx] = .fund coin := by
        cases hi : tx.instructions[idx] <;> simp [hi, Instruction.opcode] at other
        exact ⟨_, rfl⟩
      rw [pays] at here performed
      obtain ⟨p, booked⟩ := booked.fund here before performed
      exact ⟨_, booked⟩
    · exact ⟨payments, booked.pass here other before performed⟩

/-! ### Whole transactions -/

/-- The jig that is found under an origin has this origin, if the store finds for an origin only
outputs of its jig. -/
theorem origin_of_resolve (keyed : c.env.store.Keyed) {origin : Pointer} {jig : TouchedJig}
    (run : runFrom s ((host c).resolve origin) = (.ok idx, t)) (hj : t.jigs[idx]? = some jig) :
    jig.origin = origin := by
  obtain ⟨k, found, returned⟩ | ⟨-, made, u, making, rfl, rfl⟩ := runFrom_touch_eq_ok run
  · cases returned
    obtain ⟨jig', hj', same⟩ := Session.jigIndex?_eq_some found
    cases hj.symm.trans hj'
    exact same
  · obtain ⟨o, _, latest, loaded⟩ := runFrom_bind_eq_ok making
    obtain ⟨stored, rfl⟩ := runFrom_orMissing_eq_ok.1 latest
    have last : (u.made made).jigs[u.jigs.length]? = some made := by
      simp [Session.made, Session.record]
    cases hj.symm.trans last
    exact (runFrom_rehydrate_eq_ok loaded).2.1.trans (keyed origin o stored)

/-- The payments of a transaction that has succeeded, and what has come of them. -/
structure PaidWith (c : Context) (tx : Transaction) (r : ExecutionResult)
    (payments : List Payment) : Prop where
  /-- There is one for each instruction that pays, in their order. -/
  asked : payments.map (fun p => (p.instruction, p.statement)) = fundings tx.instructions
  made : ∀ p ∈ payments, p.IsMade c tx
  enough : ∀ p ∈ payments, c.env.config.minFundAmount ≤ p.amount
  /-- No coin has paid twice. -/
  distinct : (payments.map (·.coin.origin)).Nodup
  /-- The instructions name different origins, those of the coins. -/
  named : c.env.store.Keyed →
    (payments.map (·.origin)).Nodup ∧ ∀ p ∈ payments, p.coin.origin = p.origin
  amount : r.fundedAmount.toNat = saturatingSum (payments.map (·.amount))
  /-- What changes anything comes after the first payment. -/
  first : ∀ k i, tx.instructions[k]? = some i →
    i.opcode ∈ [Opcode.new, .exec, .execFunction, .lock, .deploy] →
    ∃ p ∈ payments, p.instruction < k
  /-- The coins are not written down. -/
  unwritten : ∀ p ∈ payments, ∀ o ∈ r.outputs, o.origin ≠ p.coin.origin
  /-- A coin that was loaded is spent where it was loaded from. -/
  spent : ∀ p ∈ payments, ∀ location, p.coin.previous = some location →
    ⟨p.coin.origin, location⟩ ∈ r.spends

/-- Funding is counted once per coin, and every coin is consumed. A transaction that succeeds, and
in which no two touched jigs have one origin, has paid with different coins, each of which was large
enough; what it has funded is the sum of their amounts, or the highest number if the sum is larger.
Everything that needs payment comes after the first of them. No coin is written down, and a coin
that was loaded is spent where it was loaded from. -/
theorem funding_counted {r : ExecutionResult} (run : runTransaction c tx = (.ok r, u))
    (nodup : (u.jigs.map (·.origin)).Nodup) : ∃ payments, PaidWith c tx r payments := by
  obtain ⟨v, arrives, jigs, amount⟩ := exists_arrives_of_run run
  obtain ⟨payments, booked⟩ := arrives.exists_booked (Nat.le_refl _)
  have frozen (p) (hp : p ∈ payments) : u.jigs[p.idx]? = some p.coin.spent :=
    jigs ▸ booked.frozen p hp
  have distinct : (payments.map (·.coin.origin)).Nodup :=
    List.pairwise_map.2 <| (List.pairwise_map.1 booked.distinct).imp_of_mem
      fun hp hq other same => other (index_eq_of_nodup nodup (frozen _ hp) (frozen _ hq) same)
  refine ⟨payments, ?_, booked.made, booked.enough, distinct, fun keyed => ?_,
    amount ▸ booked.amount, fun k i here needs => ?_, fun p hp => ?_, fun p hp location from_ => ?_⟩
  · rw [booked.fundings, Transaction.size, List.take_length]
  · have named (p) (hp : p ∈ payments) : p.coin.origin = p.origin := by
      obtain ⟨s, t, -, -, resolved, hj, -⟩ := booked.made p hp
      exact origin_of_resolve keyed resolved hj
    exact ⟨List.map_congr_left named ▸ distinct, named⟩
  · refine booked.gate k i (List.getElem?_eq_some_iff.1 here).1 here ?_
    revert needs
    cases i.opcode <;> decide
  · have gone : ∀ o ∈ r.outputs, o.origin ≠ p.coin.spent.origin :=
      unwritten_of_frozen run nodup (frozen p hp) rfl
    exact gone
  · obtain ⟨-, ls, settled, -, spends⟩ := runTransaction_eq_ok run
    obtain ⟨l, hl, left⟩ := Settled.of_getElem? settled (frozen p hp)
    rw [spends, List.mem_filterMap]
    refine ⟨l, List.mem_of_getElem? hl, ?_⟩
    rw [left.leaving_of_frozen rfl, spendOf, TouchedJig.spent, from_]
    rfl

end JigLedger.Engine

namespace JigLedger.Ledger

/-- A transaction was paid for with 500, and no two jigs that it has touched have one origin. -/
def Deed.isFunded (p : Policy) : Deed → Bool
  | committed e =>
    match Engine.contextOf (e.ledger.env p) e.tx with
    | .ok c =>
      decide ((Engine.runTransaction c e.tx).2.jigs.map (·.origin)).Nodup &&
        decide (e.result.fundedAmount = 500)
    | .error _ => false
  | deployed _ | minted _ _ _ _ | executed _ => false

/-- A coin of 500 pays for a transaction. -/
theorem funding_counted_coin :
    ∃ (c : Engine.Context) (tx : Transaction) (r : ExecutionResult) (s : Engine.Session)
      (payments : List Engine.Payment), Engine.runTransaction c tx = (.ok r, s) ∧
      (s.jigs.map (·.origin)).Nodup ∧ r.fundedAmount = 500 ∧ Engine.PaidWith c tx r payments := by
  obtain ⟨l, log, chronicle, -, told⟩ := Till.exists_chronicle
    (fun coin => [⟨[.loadByOrigin coin, .fund 0, .sign [] []]⟩])
    (fun _ log => log.any (Deed.isFunded Till.policy)) (by decide +kernel)
  obtain ⟨deed, mem, paid⟩ := List.any_eq_true.1 told
  cases deed with
  | committed e =>
    obtain ⟨done, -⟩ := chronicle.executed (chronicle.executed_of_committed mem)
    obtain ⟨c, s, context, run⟩ := execute_eq_ok.1 done
    simp only [Deed.isFunded, context, run, Bool.and_eq_true, decide_eq_true_eq] at paid
    obtain ⟨payments, paidWith⟩ := Engine.funding_counted run paid.1
    exact ⟨c, e.tx, e.result, s, payments, run, paid.1, paid.2, paidWith⟩
  | deployed | minted | executed => cases paid

end JigLedger.Ledger
