import JigLedger.Proofs.Engine.Fuel
import JigLedger.Proofs.Engine.Funding
import JigLedger.Proofs.Ledger.History
import JigLedger.Proofs.Store.Extinct
import JigLedger.Proofs.Wire.Transaction
import Mathlib.Data.List.Infix

/-!
# Chronicles of a ledger

A chronicle lists all that was done to a ledger: deployments, mints, executions and commits, with
what they were about. A pointer that is given out on the way is made of a digest and a number. As
long as no transaction takes more pointers than there are numbers, a commit puts its outputs at
different places. So the store stays coherent, and what it knows is what was put into it. No
transaction has the fuel to take so many pointers unless the fuel limit is very high. If also no two
different byte strings of a chronicle have the same digest, different transactions put their outputs
at different places.
-/

namespace JigLedger.Ledger

variable {p : Policy} {l l' : Ledger}

/-- Something that was done. -/
inductive Deed where
  | deployed (id : PackageId)
  | minted (owner : Address) (amount seed : UInt64) (o : Output)
  | executed (e : Execution)
  | committed (e : Execution)

namespace Deed

/-- The outputs that are added to the store. -/
def outputs : Deed → List Output
  | minted _ _ _ o => [o]
  | committed e => e.result.outputs
  | deployed _ | executed _ => []

/-- The outputs that are spent. -/
def spends : Deed → List Spend
  | committed e => e.result.spends
  | deployed _ | minted _ _ _ _ | executed _ => []

/-- The bytes whose digest becomes part of pointers. -/
def digested : Deed → List Bytes
  | minted owner amount seed _ => (mintPayload owner amount seed).toOption.toList
  | executed e => e.tx.toBytes.toOption.toList
  | deployed _ | committed _ => []

end Deed

/-- A ledger has come about by what is listed, the latest first, under one policy. What was refused
has changed nothing, and it is not listed. -/
inductive Chronicle (p : Policy) : Ledger → List Deed → Prop where
  | empty : Chronicle p .empty []
  | deploy {l l' : Ledger} {log : List Deed} {entries : List String} {sources : Sources}
      {id : PackageId} (before : Chronicle p l log)
      (done : l.deploy p entries sources = .ok (id, l')) : Chronicle p l' (.deployed id :: log)
  | mint {l l' : Ledger} {log : List Deed} {owner : Address} {amount seed : UInt64} {o : Output}
      (before : Chronicle p l log) (done : l.mint p.config owner amount seed = .ok (o, l')) :
      Chronicle p l' (.minted owner amount seed o :: log)
  | execute {l : Ledger} {log : List Deed} {tx : Transaction} {r : ExecutionResult}
      (before : Chronicle p l log) (done : (l.execute p tx).1 = .ok r) :
      Chronicle p l (.executed ⟨l, tx, r⟩ :: log)
  | commit {l l' : Ledger} {log : List Deed} {e : Execution} (before : Chronicle p l log)
      (mem : .executed e ∈ log) (done : l.commit e.result = .ok l') :
      Chronicle p l' (.committed e :: log)

/-- Different bytes have different digests. -/
def Unambiguous (log : List Deed) : Prop :=
  ∀ a ∈ log.flatMap Deed.digested, ∀ b ∈ log.flatMap Deed.digested,
    Sha256.digest a = Sha256.digest b → a = b

/-- The numbers of the pointers of each transaction fit into 32 bits. They do under every fuel limit
of up to `2 ^ 31`, by `Chronicle.numbered`. -/
def Numbered (p : Policy) (log : List Deed) : Prop :=
  ∀ e, .executed e ∈ log → ∀ c, Engine.contextOf (e.ledger.env p) e.tx = .ok c →
    (Engine.runTransaction c e.tx).2.nextIndex ≤ UInt32.size

/-- Pointers that are given out stand for one thing only. -/
structure Collisionless (p : Policy) (log : List Deed) : Prop where
  digests : Unambiguous log
  numbers : Numbered p log

variable {log log' : List Deed} {deed : Deed} {e : Execution} {o : Output}

instance : Decidable (Unambiguous log) := inferInstanceAs
  (Decidable (∀ a ∈ log.flatMap Deed.digested, ∀ b ∈ log.flatMap Deed.digested, _ → a = b))

theorem Numbered.of_suffix {earlier : List Deed} (h : Numbered p log) (hs : earlier <:+ log) :
    Numbered p earlier :=
  fun e he => h e (hs.subset he)

theorem Numbered.tail (h : Numbered p (deed :: log)) : Numbered p log := h.of_suffix ⟨[deed], rfl⟩

theorem Collisionless.of_subset {part : List Deed} (h : Collisionless p log) (hs : part ⊆ log) :
    Collisionless p part where
  digests a ha b hb := by
    have more : part.flatMap Deed.digested ⊆ log.flatMap Deed.digested := fun bs hbs => by
      obtain ⟨deed, mem, here⟩ := List.mem_flatMap.1 hbs
      exact List.mem_flatMap.2 ⟨deed, hs mem, here⟩
    exact h.digests a (more ha) b (more hb)
  numbers e he := h.numbers e (hs he)

theorem Collisionless.of_suffix {earlier : List Deed} (h : Collisionless p log)
    (hs : earlier <:+ log) : Collisionless p earlier := h.of_subset hs.subset

theorem Collisionless.tail (h : Collisionless p (deed :: log)) : Collisionless p log :=
  h.of_suffix ⟨[deed], rfl⟩

/-! ### Executions -/

/-- Pointers of a transaction begin with the digest of its bytes. -/
theorem txHash_of_contextOf {env : Engine.Env} {tx : Transaction} {c : Engine.Context}
    (h : Engine.contextOf env tx = .ok c) :
    ∃ bs, tx.toBytes = .ok bs ∧ c.txHash = Sha256.digest bs := by
  obtain ⟨bs, written, digest⟩ := bind_eq_ok.1 (Engine.contextOf_eq_ok h).2
  exact ⟨bs, written, (Except.ok.inj digest).symm⟩

/-- A minted coin is placed at its origin, which is made of what was asked for. -/
theorem location_of_mint {owner : Address} {amount seed : UInt64}
    (done : l.mint p.config owner amount seed = .ok (o, l')) :
    ∃ bs, mintPayload owner amount seed = .ok bs ∧ o.origin = o.location ∧
      o.location = ⟨Sha256.digest bs, 0⟩ := by
  simp only [mint, bind_eq_ok, mapError_eq_ok, pure, Except.pure, Except.ok.injEq,
    Prod.mk.injEq] at done
  obtain ⟨o, minted, _, -, rfl, -⟩ := done
  simp only [mintedOutput, bind_eq_ok] at minted
  obtain ⟨_, -, rest⟩ := minted
  split at rest
  · cases rest
  · simp only [bind_eq_ok, mapError_eq_ok, pure, Except.pure, Except.ok.injEq] at rest
    obtain ⟨_, -, bs, payload, _, -, _, -, rfl⟩ := rest
    exact ⟨bs, payload, rfl, rfl⟩

namespace Chronicle

/-- What was executed was executed over a ledger that was there before. -/
theorem executed (h : Chronicle p l log) (mem : .executed e ∈ log) :
    (e.ledger.execute p e.tx).1 = .ok e.result ∧
      ∃ earlier, earlier <:+ log ∧ Chronicle p e.ledger earlier := by
  induction h with
  | empty => cases mem
  | deploy _ _ ih | mint _ _ ih | commit _ _ _ ih =>
    cases mem
    case tail mem =>
      obtain ⟨done, earlier, hs, before⟩ := ih mem
      exact ⟨done, earlier, hs.trans (List.suffix_cons _ _), before⟩
  | execute before done ih =>
    cases mem
    case head => exact ⟨done, _, List.suffix_cons _ _, before⟩
    case tail mem =>
      obtain ⟨done, earlier, hs, before⟩ := ih mem
      exact ⟨done, earlier, hs.trans (List.suffix_cons _ _), before⟩

/-- What was committed has been executed. -/
theorem executed_of_committed (h : Chronicle p l log) (mem : .committed e ∈ log) :
    .executed e ∈ log := by
  induction h with
  | empty => cases mem
  | deploy _ _ ih | mint _ _ ih | execute _ _ ih =>
    cases mem
    case tail mem => exact .tail _ (ih mem)
  | commit _ executed _ ih =>
    cases mem
    case head => exact .tail _ executed
    case tail mem => exact .tail _ (ih mem)

/-- As long as the fuel limit is not higher than `2 ^ 31`, the numbers of all pointers fit: each
instruction takes a pointer at most, and so does each unit of fuel. -/
theorem numbered (h : Chronicle p l log) (fuel : p.config.fuelLimit ≤ 2 ^ 31) :
    Numbered p log := by
  intro e mem c context
  obtain ⟨c', s, context', run⟩ := execute_eq_ok.1 (h.executed mem).1
  cases context.symm.trans context'
  obtain ⟨bs, written, -⟩ := txHash_of_contextOf context
  have size : e.tx.size ≤ 2 ^ 31 - 1 := Transaction.size_le_of_toBytes written
  have limit : c.env.config.fuelLimit ≤ 2 ^ 31 := by
    rw [env_of_contextOf context]
    exact fuel
  have taken := Engine.nextIndex_of_run run
  have numbers : UInt32.size = 2 ^ 32 := rfl
  rw [run]
  change s.nextIndex ≤ UInt32.size
  omega

/-- The outputs of an execution have different places. -/
theorem nodup_locations (h : Chronicle p l log) (numbered : Numbered p log)
    (mem : .executed e ∈ log) : (e.result.outputs.map (·.location)).Nodup := by
  obtain ⟨c, s, context, run⟩ := execute_eq_ok.1 (h.executed mem).1
  have few := numbered e mem c context
  rw [run] at few
  exact Engine.nodup_locations_of_run run few

/-! ### The store -/

/-- What was done last is a change of the store. -/
theorem change (h : Chronicle p l' (deed :: log)) : ∃ l, Chronicle p l log ∧
    (l.store.Indexed → l.store.apply deed.spends deed.outputs = .ok l'.store) := by
  cases h with
  | deploy before done =>
    obtain ⟨package, registry, -, -, rfl⟩ := deploy_eq_ok done
    exact ⟨_, before, fun _ => rfl⟩
  | mint before done =>
    obtain ⟨store, inserted, rfl⟩ := mint_eq_ok done
    exact ⟨_, before, fun indexed => indexed.apply_of_insert inserted⟩
  | execute before done => exact ⟨_, before, fun _ => rfl⟩
  | commit before mem done => exact ⟨_, before, fun _ => (commit_eq_ok.1 done).2.1⟩

/-- What is put into the store is put at different places. -/
theorem nodup_outputs (h : Chronicle p l log) (numbered : Numbered p log)
    (mem : deed ∈ log) : (deed.outputs.map (·.location)).Nodup := by
  cases deed with
  | minted => exact List.nodup_singleton _
  | committed => exact h.nodup_locations numbered (h.executed_of_committed mem)
  | deployed | executed => exact .nil

/-- The store of a chronicle is coherent. -/
theorem coherent (h : Chronicle p l log) (numbered : Numbered p log) :
    l.store.Coherent := by
  induction log generalizing l with
  | nil =>
    cases h
    exact Store.coherent_empty
  | cons deed log ih =>
    obtain ⟨l', before, done⟩ := h.change
    have coherent := ih before numbered.tail
    exact (coherent.apply (h.nodup_outputs numbered (.head _))
      (done coherent.toIndexed)).coherent

/-- What was done last was applied to the store. -/
theorem applied (h : Chronicle p l' (deed :: log)) (numbered : Numbered p (deed :: log)) :
    ∃ l, Chronicle p l log ∧ Store.Applied l.store l'.store deed.spends deed.outputs := by
  obtain ⟨l, before, done⟩ := h.change
  have coherent := before.coherent numbered.tail
  exact ⟨l, before, coherent.apply (h.nodup_outputs numbered (.head _))
    (done coherent.toIndexed)⟩

/-- The store that something was executed over is coherent. -/
theorem coherent_of_executed (h : Chronicle p l log) (numbered : Numbered p log)
    (mem : .executed e ∈ log) : e.ledger.store.Coherent := by
  obtain ⟨-, earlier, hs, before⟩ := h.executed mem
  exact before.coherent (numbered.of_suffix hs)

/-- What was done before an execution is a chronicle, which the execution continues. -/
theorem before_executed (h : Chronicle p l log) (collisionless : Collisionless p log)
    (mem : .executed e ∈ log) : ∃ earlier, earlier <:+ log ∧ Chronicle p e.ledger earlier ∧
      Collisionless p (.executed e :: earlier) := by
  obtain ⟨-, earlier, hs, before⟩ := h.executed mem
  exact ⟨earlier, hs, before, collisionless.of_subset (List.cons_subset.2 ⟨mem, hs.subset⟩)⟩

/-- What is in the store has been put there. -/
theorem placed_of_live (h : Chronicle p l log) {location : Pointer}
    (found : l.store.live[location]? = some o) : o ∈ log.flatMap Deed.outputs := by
  induction h generalizing location with
  | empty => simp [Ledger.empty, Store.empty] at found
  | deploy _ done ih =>
    obtain ⟨package, registry, -, -, rfl⟩ := deploy_eq_ok done
    exact ih found
  | mint _ done ih =>
    obtain ⟨store, inserted, rfl⟩ := mint_eq_ok done
    obtain ⟨-, -, rfl⟩ := Store.insert_eq_ok.1 inserted
    rw [Store.live_add] at found
    split at found
    case isTrue =>
      cases found
      exact .head _
    case isFalse => exact .tail _ (ih found)
  | execute _ _ ih => exact ih found
  | commit _ _ done ih =>
    obtain ⟨-, -, after⟩ := Store.apply_eq_ok.1 (commit_eq_ok.1 done).2.1
    rw [after] at found
    rcases Store.mem_of_live_foldl_add found with ⟨ho, -⟩ | old
    · exact List.mem_append_left _ ho
    · rw [Store.live_foldl_remove] at old
      split at old
      case isTrue => cases old
      case isFalse => exact List.mem_append_right _ (ih old)

/-- The jigs that are known are those that outputs were put there for. -/
theorem knows_iff (h : Chronicle p l log) (numbered : Numbered p log)
    {origin : Pointer} :
    l.store.knows origin = true ↔ origin ∈ (log.flatMap Deed.outputs).map (·.origin) := by
  induction log generalizing l with
  | nil =>
    cases h
    simp [Ledger.empty, Store.empty, Store.knows]
  | cons deed log ih =>
    obtain ⟨l', before, applied⟩ := h.applied numbered
    have coherent := before.coherent numbered.tail
    rw [applied.knows_iff coherent, ih before numbered.tail, List.flatMap_cons,
      List.map_append, List.mem_append, or_comm]

/-! ### Pointers -/

/-- The coins that have been minted are placed at their origins. -/
theorem minted (h : Chronicle p l log) {owner : Address} {amount seed : UInt64}
    (mem : .minted owner amount seed o ∈ log) : ∃ bs, mintPayload owner amount seed = .ok bs ∧
      o.origin = o.location ∧ o.location = ⟨Sha256.digest bs, 0⟩ := by
  induction h with
  | empty => cases mem
  | deploy _ _ ih | execute _ _ ih | commit _ _ _ ih =>
    cases mem
    case tail mem => exact ih mem
  | mint _ done ih =>
    cases mem
    case tail mem => exact ih mem
    case head => exact location_of_mint done

/-- The outputs of an execution are placed at pointers that begin with the digest of the bytes of
its transaction. -/
theorem digested (h : Chronicle p l log) (mem : .executed e ∈ log) :
    ∃ bs ∈ log.flatMap Deed.digested, e.tx.toBytes = .ok bs ∧
      ∀ o ∈ e.result.outputs, o.location.id = Sha256.digest bs := by
  obtain ⟨c, s, context, run⟩ := execute_eq_ok.1 (h.executed mem).1
  obtain ⟨bs, written, hash⟩ := txHash_of_contextOf context
  refine ⟨bs, List.mem_flatMap.2 ⟨_, mem, ?_⟩, written, fun o ho => ?_⟩
  · simp [Deed.digested, written, Except.toOption]
  · rw [← hash]
    exact Engine.location_of_run run ho

section Collisionless

variable (h : Chronicle p l log) (collisionless : Collisionless p log) {o' : Output}
  {e' : Execution}

include h collisionless

/-- Only executions of one transaction use the same place. -/
theorem tx_eq (mem : .executed e ∈ log) (mem' : .executed e' ∈ log) (ho : o ∈ e.result.outputs)
    (ho' : o' ∈ e'.result.outputs) (here : o.location = o'.location) : e.tx = e'.tx := by
  obtain ⟨bs, hb, written, place⟩ := h.digested mem
  obtain ⟨bs', hb', written', place'⟩ := h.digested mem'
  have same : bs = bs' := collisionless.digests bs hb bs' hb'
    ((place o ho).symm.trans ((congrArg Pointer.id here).trans (place' o' ho')))
  exact Transaction.eq_of_toBytes written (same ▸ written')

/-- No execution uses the place of a minted coin. -/
theorem location_ne_of_minted {owner : Address} {amount seed : UInt64}
    (mem : .minted owner amount seed o ∈ log) (mem' : .executed e ∈ log)
    (ho' : o' ∈ e.result.outputs) : o.location ≠ o'.location := by
  intro here
  obtain ⟨bs, payload, -, place⟩ := h.minted mem
  obtain ⟨bs', hb', written, place'⟩ := h.digested mem'
  have hb : bs ∈ log.flatMap Deed.digested :=
    List.mem_flatMap.2 ⟨_, mem, by simp [Deed.digested, payload, Except.toOption]⟩
  rw [place] at here
  have same : bs = bs' := collisionless.digests bs hb bs' hb'
    ((congrArg Pointer.id here).trans (place' o' ho'))
  exact mintPayload_ne_toBytes payload e.tx (same ▸ written)

/-- What is at the place of a minted coin is of the same jig. -/
theorem origin_of_minted {owner : Address} {amount seed : UInt64}
    (mem : .minted owner amount seed o ∈ log) (ho' : o' ∈ log.flatMap Deed.outputs)
    (here : o.location = o'.location) : o.origin = o'.origin := by
  obtain ⟨deed, hd, ho'⟩ := List.mem_flatMap.1 ho'
  cases deed with
  | minted owner' amount' seed' minted' =>
    cases List.mem_singleton.1 ho'
    obtain ⟨-, -, origin, -⟩ := h.minted mem
    obtain ⟨-, -, origin', -⟩ := h.minted hd
    rw [origin, origin', here]
  | committed e' =>
    have mem' := h.executed_of_committed hd
    exact absurd here (h.location_ne_of_minted collisionless mem mem' ho')
  | deployed | executed => cases ho'

/-- What is at a place whose pointer begins with the digest of an executed transaction was put there
by this transaction. -/
theorem committed_of_id (mem : .executed e ∈ log) {bs : Bytes} (written : e.tx.toBytes = .ok bs)
    (ho' : o' ∈ log.flatMap Deed.outputs) (here : o'.location.id = Sha256.digest bs) :
    ∃ e', .committed e' ∈ log ∧ o' ∈ e'.result.outputs ∧ e.tx = e'.tx := by
  have hb : bs ∈ log.flatMap Deed.digested :=
    List.mem_flatMap.2 ⟨_, mem, by simp [Deed.digested, written, Except.toOption]⟩
  obtain ⟨deed, hd, ho'⟩ := List.mem_flatMap.1 ho'
  cases deed with
  | minted owner amount seed minted =>
    cases List.mem_singleton.1 ho'
    obtain ⟨bs', payload, -, place⟩ := h.minted hd
    have hb' : bs' ∈ log.flatMap Deed.digested :=
      List.mem_flatMap.2 ⟨_, hd, by simp [Deed.digested, payload, Except.toOption]⟩
    rw [place] at here
    have same : bs' = bs := collisionless.digests bs' hb' bs hb here
    exact absurd (same ▸ written) (mintPayload_ne_toBytes payload e.tx)
  | committed e' =>
    obtain ⟨bs', hb', written', place'⟩ := h.digested (h.executed_of_committed hd)
    have same : bs = bs' :=
      collisionless.digests bs hb bs' hb' (here.symm.trans (place' o' ho'))
    exact ⟨e', hd, ho', Transaction.eq_of_toBytes written (same ▸ written')⟩
  | deployed | executed => cases ho'

/-- What is at a place that an execution uses was put there by its own transaction. -/
theorem committed_of_place (mem : .executed e ∈ log) (ho : o ∈ e.result.outputs)
    (ho' : o' ∈ log.flatMap Deed.outputs) (here : o.location = o'.location) :
    ∃ e', .committed e' ∈ log ∧ o' ∈ e'.result.outputs ∧ e.tx = e'.tx := by
  obtain ⟨bs, -, written, place⟩ := h.digested mem
  exact h.committed_of_id collisionless mem written ho' (here ▸ place o ho)

end Collisionless

end Chronicle

/-! ### Running transactions -/

/-- A transaction that has been run has been executed and committed. -/
theorem runTransaction_eq_ok {tx : Transaction} {r : ExecutionResult} :
    (l.runTransaction p tx).1 = .ok (r, l') ↔
      (l.execute p tx).1 = .ok r ∧ l.commit r = .ok l' := by
  simp only [runTransaction, within, bind_eq_ok, mapError_eq_ok, pure, Except.pure, Except.ok.injEq,
    Prod.mk.injEq]
  constructor
  · rintro ⟨_, executed, _, committed, rfl, rfl⟩
    exact ⟨executed, committed⟩
  · rintro ⟨executed, committed⟩
    exact ⟨_, executed, _, committed, rfl, rfl⟩

/-- Runs transactions one after the other; the ledger afterwards, and all that has been done. -/
def runAll (p : Policy) (l : Ledger) (log : List Deed) :
    List Transaction → Except Failure (Ledger × List Deed)
  | [] => .ok (l, log)
  | tx :: rest => do
    let (r, l') ← (l.runTransaction p tx).1
    runAll p l' (.committed ⟨l, tx, r⟩ :: .executed ⟨l, tx, r⟩ :: log) rest

theorem Chronicle.runAll {txs : List Transaction} (h : Chronicle p l log)
    (done : runAll p l log txs = .ok (l', log')) : Chronicle p l' log' := by
  induction txs generalizing l log with
  | nil =>
    cases done
    exact h
  | cons tx rest ih =>
    obtain ⟨⟨r, next⟩, ran, others⟩ := bind_eq_ok.1 done
    obtain ⟨executed, committed⟩ := runTransaction_eq_ok.1 ran
    exact ih ((h.execute executed).commit (.head _) committed) others

/-- A coin is minted, and transactions that ask for it are run. -/
def mintAndRun (p : Policy) (l : Ledger) (log : List Deed) (txs : Pointer → List Transaction) :
    Except Failure (Ledger × List Deed) := do
  let (o, l') ← (l.mint p.config default 500 0).mapError fun e => .plain e.message
  runAll p l' (.minted default 500 0 o :: log) (txs o.origin)

/-- What comes out when transactions are run holds of a chronicle. There has to be so little fuel
that only digests can be the same. -/
theorem Chronicle.exists_mintAndRun (h : Chronicle p l log) (fuel : p.config.fuelLimit ≤ 2 ^ 31)
    (txs : Pointer → List Transaction) (q : Ledger → List Deed → Bool)
    (told : (mintAndRun p l log txs).toOption.any
      (fun after => decide (Unambiguous after.2) && q after.1 after.2) = true) :
    ∃ l log, Chronicle p l log ∧ Collisionless p log ∧ q l log = true := by
  rcases done : mintAndRun p l log txs with failure | ⟨l', log'⟩
  · rw [done] at told
    cases told
  · rw [done] at told
    obtain ⟨digests, holds⟩ := Bool.and_eq_true_iff.1 told
    obtain ⟨⟨o, l₁⟩, minted, ran⟩ := bind_eq_ok.1 done
    have chronicle : Chronicle p l' log' := .runAll (.mint h (mapError_eq_ok.1 minted)) ran
    exact ⟨l', log', chronicle, ⟨of_decide_eq_true digests, chronicle.numbered fuel⟩, holds⟩

/-- A package that is built from what the compiler makes is deployed to the empty ledger. -/
theorem deploy_empty {entries : List String} {sources : Sources} {artifacts : Artifacts}
    {package : Package} (compiled : p.compiler entries sources = .ok artifacts)
    (built : Package.build entries sources artifacts = .ok package) :
    Ledger.empty.deploy p entries sources = .ok (package.id,
      ⟨⟨(∅ : Std.ExtTreeMap PackageId Package compare).insert package.id package⟩, .empty⟩) := by
  have free : Registry.empty.get? package.id = none := by simp [Registry.get?, Registry.empty]
  refine bind_eq_ok.2 ⟨_, mapError_eq_ok.2 compiled, ?_⟩
  refine bind_eq_ok.2 ⟨_, mapError_eq_ok.2 built, ?_⟩
  exact bind_eq_ok.2 ⟨_, mapError_eq_ok.2 (Registry.add_eq_ok.2 ⟨free, rfl⟩), rfl⟩

/-! ### A ledger with one coin -/

namespace Till

/-- The id of a package that has one entry and no sources. -/
def packageId : PackageId := (Package.contentId ["coin"] .empty).toOption.getD default

/-- A class of coins. -/
def document : Abi.Document :=
  ⟨1, [.ofClass ⟨"Coin", none, [], [⟨"amount", .mk "u64" false []⟩], []⟩], []⟩

/-- Coins hold their amount at offset 8. -/
def coin : Abi.Class where
  exportIdx := 0
  ref := ⟨packageId, "Coin"⟩
  parent := none
  fields := [⟨"amount", .u64, 8⟩]
  size := 16
  constructor := ⟨Abi.constructorName, "Coin_constructor", [], none⟩
  methods := []
  conformance := (∅ : Abi.RefSet).insert ⟨packageId, "Coin"⟩

/-- A module with one page of memory and one function: an allocator that always gives out the
address 8. The function is exported as the constructor too. -/
def wasm : Bytes :=
  Wasm.Binary.magic ++ [1, 0, 0, 0] ++
  -- One function from a word to a word, and one page.
  [1, 6, 1, 0x60, 1, 0x7F, 1, 0x7F] ++ [3, 2, 1, 0] ++ [5, 3, 1, 0, 1] ++
  [7, 39, 3] ++ 6 :: utf8 "memory" ++ [2, 0] ++ 7 :: utf8 "__alloc" ++ [0, 0] ++
  16 :: utf8 "Coin_constructor" ++ [0, 0] ++
  -- Its code is a constant.
  [10, 6, 1, 4, 0, 0x41, 8, 0x0B]

/-- The package of coins. -/
def package : Package where
  id := packageId
  abi := ⟨packageId, document, [.ofClass coin], []⟩
  module := (Wasm.Module.load wasm).toOption.getD default
  entries := ["coin"]
  sources := .empty
  wasm := wasm

/-- Whatever is compiled is the package of coins, and everybody has signed. -/
def policy : Policy where
  config := { fuelLimit := 100, coinPackage := some packageId, maxMemoryBytes := 65536 }
  compiler _ _ := .ok ⟨document, wasm⟩
  verifier := ⟨fun _ _ _ => true, fun _ => .ok default⟩

/-- The ledger that has only the package of coins. -/
def opening : Ledger :=
  ⟨⟨(∅ : Std.ExtTreeMap PackageId Package compare).insert packageId package⟩, .empty⟩

/-- Coins are the same in all packages with this id that export them first. -/
theorem resolveExport_coin (exports : List Abi.ExportDecl) :
    (⟨packageId, exports, []⟩ : Abi.Scope).resolveExport 0
      (.ofClass ⟨"Coin", none, [], [⟨"amount", .mk "u64" false []⟩], []⟩) = .ok (.ofClass coin) := by
  refine bind_eq_ok.2 ⟨coin, ?_, rfl⟩
  refine bind_eq_ok.2 ⟨_, by rw [Abi.Scope.lineage, Abi.Scope.ancestry]; rfl, ?_⟩
  refine bind_eq_ok.2 ⟨[("amount", .u64)], ?_, rfl⟩
  exact bind_eq_ok.2 ⟨.u64, Abi.Scope.typeWith_primitive rfl, rfl⟩

theorem resolve_document : Abi.resolve packageId document = .ok package.abi :=
  bind_eq_ok.2 ⟨_, rfl, bind_eq_ok.2 ⟨_, bind_eq_ok.2 ⟨_, resolveExport_coin _, rfl⟩, rfl⟩⟩

theorem contentId_sources : Package.contentId ["coin"] .empty = .ok packageId :=
  eq_ok_getD default (by decide +kernel)

theorem build_package : Package.build ["coin"] .empty ⟨document, wasm⟩ = .ok package := by
  have loaded : Wasm.Module.load wasm = .ok package.module :=
    eq_ok_getD default (by decide +kernel)
  exact Package.build_eq_ok contentId_sources resolve_document loaded (by decide +kernel)

theorem deploy_package :
    Ledger.empty.deploy policy ["coin"] .empty = .ok (packageId, opening) :=
  deploy_empty rfl build_package

/-- A coin is minted, and transactions that ask for it are run. -/
def story (txs : Pointer → List Transaction) : Except Failure (Ledger × List Deed) := do
  let (o, l) ← (opening.mint policy.config default 500 0).mapError fun e => .plain e.message
  runAll policy l [.minted default 500 0 o, .deployed packageId] (txs o.origin)

/-- There is so little fuel that only digests can be the same. -/
theorem collisionless (h : Chronicle policy l log) (digests : Unambiguous log) :
    Collisionless policy log :=
  ⟨digests, h.numbered (by decide)⟩

/-- What comes out when transactions are run holds of a chronicle. -/
theorem exists_chronicle (txs : Pointer → List Transaction) (q : Ledger → List Deed → Bool)
    (told : (story txs).toOption.any
      (fun (l, log) => decide (Unambiguous log) && q l log) = true) :
    ∃ l log, Chronicle policy l log ∧ Collisionless policy log ∧ q l log = true :=
  (Chronicle.deploy .empty deploy_package).exists_mintAndRun (by decide) txs q told

end Till

end JigLedger.Ledger
