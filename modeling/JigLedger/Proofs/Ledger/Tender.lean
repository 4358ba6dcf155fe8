import JigLedger.Proofs.Engine.Delivery
import JigLedger.Proofs.Engine.Unfunded
import JigLedger.Proofs.Ledger.Finalization
import JigLedger.Proofs.Ledger.Payments

/-!
# Paying with one coin

The shortest transaction that pays: it loads a coin, pays with it and is signed by its owner. If the
coin is blank but for its scalars, and there is no shortage, the transaction succeeds. The coin is
its only spend and nothing is written down.
-/

namespace JigLedger

/-- The transaction that loads a coin, pays with it and is signed. -/
def Transaction.tender (location : Pointer) (signature key : Bytes) : Transaction :=
  ⟨[.load location, .fund 0, .sign signature key]⟩

namespace Engine

variable {c : Context} {s t : Session} {o : Output} {p : Package} {cls : Abi.Class}
  {values : List Value} {lock : Lock} {jig : TouchedJig} {location : Pointer}
  {signature key : Bytes} {amount : UInt64} {owner : Address}

/-- If the signature is valid, the holder of the key has signed all of it. -/
theorem contextOf_tender {env : Env} {bs : Bytes}
    (written : (Transaction.tender location signature key).toBytes = .ok bs)
    (signed : Verifies env.verifier (.tender location signature key) 3 signature key)
    (holder : env.verifier.addressOf key = .ok owner) :
    contextOf env (.tender location signature key) =
      .ok ⟨env, Sha256.digest bs, [⟨owner, .whole⟩]⟩ := by
  have checked : checkSignature env.verifier (.tender location signature key) 2 signature key
      .whole 3 = .ok ⟨owner, .whole⟩ := checkSignature_of_verifies signed holder
  have found : signers env.verifier (.tender location signature key) = .ok [⟨owner, .whole⟩] := by
    change (do
      let signer ← checkSignature env.verifier (.tender location signature key) 2 signature key
        .whole 3
      let signers ← Except.ok []
      return signer :: signers) = _
    rw [checked]
    rfl
  rw [contextOf_of_toBytes written, found]
  rfl

/-! ### The amount -/

/-- A number that is within the memory can be read. -/
theorem exists_readValue_u64 {mem : LinearMemory} {address : UInt32}
    (within : address.toNat + 8 ≤ mem.size) : ∃ v, Ty.u64.readValue mem address = .ok v := by
  have inside : mem.checkRange address 8 = .ok () := LinearMemory.checkRange_eq_ok.2 within
  refine ⟨.u64 (UInt64.ofNat (ofLittleEndian (mem.slice address.toNat 8))), ?_⟩
  have read : mem.read address Ty.u64.size = .ok (mem.slice address.toNat 8) := by
    rw [LinearMemory.read, show Ty.u64.size.toNat = 8 from rfl, inside]
    rfl
  have scalar : Ty.u64.isScalar = true := rfl
  rw [Ty.readValue, Ty.readSlot, if_pos scalar, Ty.readScalar, read]
  rfl

theorem ty_of_amountField? {f : Field} (found : amountField? cls = some f) : f.ty = .u64 := by
  obtain ⟨-, number⟩ := Option.filter_eq_some_iff.1 found
  split at number
  case h_1 same => exact same
  case h_2 => cases number

/-- A coin that has been loaded bears the amount in its stored state. -/
theorem Delivered.bears (delivered : Delivered s o p cls values lock jig)
    (classed : p.abi.classAt o.classPtr.idx.toNat = .ok cls) (laid : cls.Laid)
    (coin : isCoin c.env.config cls = true) {f : Field} (found : amountField? cls = some f)
    (stored : (f, Value.u64 amount) ∈ cls.fields.zip values) : Bears c s jig amount := by
  obtain ⟨inst, guest, there, rfl, here, within, small, gives⟩ := delivered.object
  have number := ty_of_amountField? found
  have inside := (laid.spaced.bounds f (List.of_mem_zip stored).1).2
  have reads := (List.forall₂_iff_zip.1 gives).2 stored
  rw [number] at inside reads
  change f.offset.toNat + 8 ≤ cls.size.toNat at inside
  have place : (jig.address + f.offset).toNat = jig.address.toNat + f.offset.toNat := by
    rw [UInt32.toNat_add]
    refine Nat.mod_eq_of_lt ?_
    rw [UInt32.size] at small
    omega
  obtain ⟨v, read⟩ := @exists_readValue_u64 guest.machine.memory (jig.address + f.offset)
    (by omega)
  obtain rfl := reads v read
  refine ⟨inst, guest, cls, f, .u64 amount, there, here, delivered.classIdx ▸ classed, coin, found,
    ?_, rfl⟩
  rw [number]
  exact read

/-! ### The instructions -/

/-- The output at a location becomes a jig, unless its origin has been touched. -/
theorem runFrom_load (stored : c.env.store.byLocation location = some o)
    (untouched : s.jigIndex? o.origin = none) :
    runFrom s ((host c).instruction (.load location)) =
      runFrom (s.record (.making o.origin)) (do
        let jig ← (host c).rehydrate o
        let _ ← register jig
        return .jig o.origin) := by
  have there : runFrom s (orMissing (.failed s!"no unspent output at {location.toText}")
      ((host c).context.env.store.byLocation location)) = (.ok o, s) :=
    runFrom_orMissing_eq_ok.2 ⟨stored, rfl⟩
  rw [runFrom_instruction_of_free rfl, Host.perform, runFrom_bind, Host.loadByLocation,
    runFrom_bind_of_ok there, runFrom_bind, runFrom_touch_of_none untouched, runFrom_bind,
    runFrom_bind]
  rcases runFrom (s.record (.making o.origin)) ((host c).rehydrate o) with ⟨e | jig, t⟩ <;> rfl

/-- A blank jig is loaded first of all, or there is a shortage. -/
theorem runFrom_load_blank (deliverable : Deliverable c o p cls values lock)
    (stored : c.env.store.byLocation location = some o) (fuel start : Nat) :
    let s := (Session.start fuel start).began 0
    (∃ failure t, runFrom s ((host c).instruction (.load location)) = (.error failure, t) ∧
      Shortage c ⟨o.classPtr.id⟩ (s.record (.making o.origin)) failure t) ∨
    ∃ jig t, runFrom s ((host c).instruction (.load location)) = (.ok (.jig o.origin), t) ∧
      Delivered t o p cls values lock jig ∧ t.jigs = [jig] ∧ t.statements = [] ∧
      t.fundedAmount = 0 := by
  intro s
  have hosted : Hosted c (fun _ => ∅) (s.record (.making o.origin)) :=
    (hosted_start c fuel start).of_same rfl rfl
  have load := runFrom_load stored (s := s) rfl
  obtain ⟨failure, t, run, short⟩ | ⟨jig, t, run, delivered⟩ :=
    runFrom_rehydrate_blank deliverable hosted rfl rfl
  · rw [runFrom_bind, run] at load
    exact .inl ⟨failure, t, load, short⟩
  · rw [runFrom_bind, run] at load
    have calm := Leads.rehydrate lenient_calm (Leads.calm_invoke c) o _ jig t run rfl
    have unpaid := Leads.unpaid_instruction c (i := .load location) nofun _ _ _ load
    exact .inr ⟨jig, t.made jig, load, delivered.of_same rfl rfl, congrArg (· ++ [jig]) calm.jigs,
      calm.statements, unpaid.fundedAmount⟩

/-- A coin that is the only jig and the first statement pays. -/
theorem runFrom_fund_first (coin : s.jigs = [jig]) (named : s.statements = [.jig jig.origin])
    (opened : jig.lock.isOpenTo (s.authority c) = true) (bears : Bears c s jig amount)
    (enough : c.env.config.minFundAmount ≤ amount) :
    runFrom s ((host c).instruction (.fund 0)) = (.ok .nothing, s.spent 0 amount) := by
  have first : s.jigs[0]? = some jig := by rw [coin]; rfl
  have touched : s.jigIndex? jig.origin = some 0 :=
    Session.jigIndex?_of_nodup (by rw [coin]; exact List.nodup_singleton _) first
  have found : runFrom s (jigStatement 0) = (.ok jig.origin, s) := by
    have here : runFrom s (statementAt 0) = (.ok (.jig jig.origin), s) := by
      rw [statementAt, runFrom_bind_of_ok (runFrom_get s)]
      exact runFrom_orMissing_eq_ok.2 ⟨by rw [named]; rfl, rfl⟩
    rw [jigStatement, runFrom_bind_of_ok here]
    rfl
  have pays : runFrom s (pay c jig.origin 0) = (.ok (), s.spent 0 amount) :=
    runFrom_pay_eq_ok.2 ⟨jig, amount, first, opened, bears, enough, rfl⟩
  have funded : runFrom s ((host c).fund 0) = (.ok (), s.spent 0 amount) := by
    rw [Host.fund, runFrom_bind_of_ok found, runFrom_bind_of_ok (runFrom_resolve_touched touched)]
    exact pays
  rw [runFrom_instruction_of_free rfl, Host.perform, runFrom_bind_of_ok funded]
  rfl

/-- Signatures are checked before a transaction runs, so nothing is left to do. -/
theorem runFrom_sign (s : Session) :
    runFrom s ((host c).instruction (.sign signature key)) = (.ok .nothing, s) := by
  rw [runFrom_instruction_of_free rfl]
  rfl

/-- In the end a single frozen jig that was loaded is spent, and nothing is written down. -/
theorem runFrom_finalize_spent (only : s.jigs = [jig]) (frozen : jig.lock = .frozen)
    (previous : jig.previous = some location) :
    runFrom s (finalize c) = (.ok ([], [⟨jig.origin, location⟩]), s) := by
  have settled : runFrom s (settle c jig) = (.ok ⟨some ⟨jig.origin, location⟩, none⟩, s) := by
    rw [runFrom_settle_of_frozen (by rw [frozen]; rfl), spendOf, previous]
    rfl
  refine runFrom_finalize_eq_ok.2 ?_
  rw [only]
  exact leaves_cons.2 ⟨_, s, [], [], settled, rfl, rfl, leaves_nil.2 ⟨rfl, rfl, rfl⟩⟩

/-! ### The transaction -/

/-- A transaction fails with an instruction. -/
theorem runTransaction_of_steps_error {tx : Transaction} {failure : Failure}
    (ran : runFrom (.start c.env.config.fuelLimit tx.size) (steps (host c) 0 tx.instructions) =
      (.error failure, s)) : runTransaction c tx = (.error failure, s) := by
  change runFrom (.start _ _) (steps _ 0 _ >>= _) = _
  rw [runFrom_bind, ran]

/-- A transaction succeeds if all instructions do, and writing down what they have left. -/
theorem runTransaction_of_steps {tx : Transaction} {fuels : List Nat} {outputs : List Output}
    {spends : List Spend}
    (ran : runFrom (.start c.env.config.fuelLimit tx.size) (steps (host c) 0 tx.instructions) =
      (.ok fuels, s))
    (finalized : runFrom s (finalize c) = (.ok (outputs, spends), t)) :
    runTransaction c tx =
      (.ok ⟨c.txHash, outputs, spends, t.deploys, fuels, t.fundedAmount⟩, t) := by
  change runFrom (.start _ _) (steps _ 0 _ >>= _) = _
  rw [runFrom_bind_of_ok ran, runFrom_bind_of_ok finalized]
  rfl

/-- The amount of a coin that is spent alone is what the transaction is funded with. -/
theorem Session.fundedAmount_spent (unpaid : s.fundedAmount = 0) (idx : Nat) (amount : UInt64) :
    (s.spent idx amount).fundedAmount = amount := by
  have small := amount.toNat_lt
  have least : min (0 + amount.toNat) (UInt64.size - 1) = amount.toNat := by
    rw [Nat.zero_add]
    exact Nat.min_eq_left (Nat.le_sub_one_of_lt small)
  change UInt64.ofNat (min (s.fundedAmount.toNat + amount.toNat) (UInt64.size - 1)) = amount
  rw [unpaid, UInt64.toNat_zero, least, UInt64.ofNat_toNat]

/-- A transaction has failed while its first instruction loaded an output: the package of the output
did not start, or its allocator did not serve a request. -/
def FallsShort (c : Context) (tx : Transaction) (o : Output) : Prop :=
  ∃ failure t, runTransaction c tx = (.error (.ofError (failure.toError.withInstruction 0)), t) ∧
    Shortage c ⟨o.classPtr.id⟩
      (((Session.start c.env.config.fuelLimit tx.size).began 0).record (.making o.origin)) failure t

/-- A transaction that succeeds has not fallen short. -/
theorem not_fallsShort_of_isOk {env : Env} {tx : Transaction}
    (ok : (execute env tx).1.isOk = true) (context : contextOf env tx = .ok c) :
    ¬ FallsShort c tx o := by
  rintro ⟨failure, t, failed, -⟩
  rw [execute, context] at ok
  dsimp only at ok
  rw [failed] at ok
  cases ok

/-- A coin that has been loaded pays, and it is left as the only jig, frozen. -/
theorem Delivered.pays (delivered : Delivered s o p cls values lock jig)
    (only : s.jigs = [jig]) (named : s.statements = [.jig o.origin]) (unpaid : s.fundedAmount = 0)
    (opened : ∀ s : Session, lock.isOpenTo (s.authority c) = true)
    (bears : ∀ s, Delivered s o p cls values lock jig → Bears c s jig amount)
    (enough : c.env.config.minFundAmount ≤ amount) (signature key : Bytes) : ∃ fuels t,
      runFrom s (steps (host c) 1 [.fund 0, .sign signature key]) = (.ok fuels, t) ∧
      t.jigs = [jig.spent] ∧ t.fundedAmount = amount := by
  let s₁ := s.began 1
  have paid : runFrom s₁ ((host c).instruction (.fund 0)) = (.ok .nothing, s₁.spent 0 amount) :=
    runFrom_fund_first only (delivered.origin ▸ named) (delivered.lock ▸ opened s₁)
      (bears s₁ (delivered.of_same rfl rfl)) enough
  let s₂ := Session.began { s₁.spent 0 amount with statements := s₁.statements ++ [.nothing] } 2
  let t : Session := { s₂ with statements := s₂.statements ++ [.nothing] }
  have ends : runFrom t (steps (host c) 3 []) = (.ok [], t) := rfl
  obtain ⟨_, signs⟩ := runFrom_steps_cons_of_ok (runFrom_sign s₂) ends
  obtain ⟨fuels, ran⟩ := runFrom_steps_cons_of_ok paid signs
  refine ⟨fuels, t, ran, ?_, Session.fundedAmount_spent (s := s₁) unpaid 0 amount⟩
  change s.jigs.modify 0 _ = _
  rw [only]
  rfl

/-- A blank coin pays for the transaction that it is tendered in, unless there is a shortage. -/
theorem runTransaction_tender (deliverable : Deliverable c o p cls values (.address owner))
    (stored : c.env.store.byLocation location = some o)
    (signed : c.signers = [⟨owner, .whole⟩]) (coin : isCoin c.env.config cls = true) {f : Field}
    (found : amountField? cls = some f)
    (bears : (f, Value.u64 amount) ∈ cls.fields.zip values)
    (enough : c.env.config.minFundAmount ≤ amount)
    (supplied : ¬ FallsShort c (.tender location signature key) o) :
    ∃ r u, runTransaction c (.tender location signature key) = (.ok r, u) ∧
      r.fundedAmount = amount ∧ r.spends = [o.spend] ∧ r.outputs = [] := by
  obtain ⟨failure, t, load, short⟩ | ⟨jig, t, load, delivered, only, silent, unpaid⟩ :=
    runFrom_load_blank deliverable stored c.env.config.fuelLimit 3
  · -- The transaction ends where loading the coin has ended.
    have ran : runTransaction c (.tender location signature key) = (.error _, t) :=
      runTransaction_of_steps_error (runFrom_steps_cons_of_error load)
    exact absurd ⟨failure, t, ran, short⟩ supplied
  · have opened (s : Session) : (Lock.address owner).isOpenTo (s.authority c) = true := by
      simp [Lock.isOpenTo, Session.authority, signed, Coverage.covers]
    let t' : Session := { t with statements := t.statements ++ [.jig o.origin] }
    have same : Delivered t' o p cls values (.address owner) jig := delivered.of_same rfl rfl
    obtain ⟨_, u, pays, jigs, funded⟩ := same.pays only (congrArg (· ++ [.jig o.origin]) silent)
      unpaid opened
      (fun s loaded => loaded.bears deliverable.classed deliverable.laid coin found bears) enough
      signature key
    obtain ⟨fuels, ran⟩ := runFrom_steps_cons_of_ok load pays
    have finalized : runFrom u (finalize c) = (.ok ([], [o.spend]), u) := by
      have left := runFrom_finalize_spent (c := c) jigs rfl delivered.previous
      rwa [show jig.spent.origin = o.origin from delivered.origin] at left
    have run : runTransaction c (.tender location signature key) = (.ok _, u) :=
      runTransaction_of_steps ran finalized
    exact ⟨_, u, run, funded, rfl, rfl⟩

end Engine

end JigLedger
