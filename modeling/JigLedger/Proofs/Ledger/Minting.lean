import JigLedger.Proofs.Abi.Exports
import JigLedger.Proofs.Abi.Inheritance
import JigLedger.Proofs.Ledger.Loadable
import JigLedger.Proofs.Ledger.Relocation
import JigLedger.Proofs.Ledger.Tender

/-!
# Every minted coin can pay

Minting looks for the class of coins by its name, and it gives the amount to the field with the name
of the amount. Paying asks the class of a jig for its name, and then for the amount. Both mean the
same class and the same field, since the fields of a class have different names. All other fields of
a minted coin are zero, so it can be loaded as long as its package starts and has room for it.
-/

namespace JigLedger

/-! ### Classes of coins -/

/-- The class with the name of coins is the class of coins. -/
theorem Package.IsBuilt.isCoin {p : Package} (h : p.IsBuilt) {config : Config}
    (configured : config.coinPackage = some p.id) {idx : Nat} {cls : Abi.Class}
    (exported : p.abi.exportIndex? config.coinClassName = some idx)
    (hc : p.abi.classAt idx = .ok cls) : Engine.isCoin config cls = true := by
  obtain ⟨entries, sources, artifacts, built⟩ := h
  obtain ⟨same, -⟩ := Abi.class_of_exportIndex? (of_build built).2.1 exported hc
  simp [Engine.isCoin, Abi.Class.name, same, configured]

namespace Ledger

variable {p : Policy} {l l' later : Ledger} {config : Config} {owner : Address}
  {amount seed : UInt64} {o : Output} {id : PackageId} {cls : Abi.Class} {values : List Value}

theorem isAmount_iff {f : Field} : isAmount f = true ↔ f.name = "amount" ∧ f.ty = .u64 := by
  rw [isAmount, Bool.and_eq_true, decide_eq_true_iff]
  refine and_congr_right fun _ => ⟨fun h => ?_, fun h => by rw [h]⟩
  split at h
  · assumption
  · cases h

/-- If names are unique, the field that minting gives the amount to is the one that paying reads. -/
theorem exists_amountField? (distinct : (cls.fields.map (·.name)).Nodup)
    (hasAmount : cls.fields.any isAmount = true) : ∃ f ∈ cls.fields,
      Engine.amountField? cls = some f ∧ ∀ g ∈ cls.fields, g.name = "amount" ↔ g = f := by
  obtain ⟨f, mem, holds⟩ := List.any_eq_true.1 hasAmount
  obtain ⟨named, number⟩ := isAmount_iff.1 holds
  have unique : ∀ g ∈ cls.fields, g.name = "amount" → g = f := fun g hg same =>
    List.inj_on_of_nodup_map distinct hg mem (same.trans named.symm)
  have found : cls.field? "amount" = some f := by
    rcases search : cls.field? "amount" with _ | g
    · have missing := List.find?_eq_none.1 search f mem
      simp [named] at missing
    · have same := List.find?_some search
      rw [unique g (List.mem_of_find?_eq_some search) (of_decide_eq_true same)]
  refine ⟨f, mem, ?_, fun g hg => ⟨unique g hg, fun same => same ▸ named⟩⟩
  rw [Engine.amountField?, found, Option.filter_some, number]
  rfl

/-- Each item of a list is paired with an item of a list of the same length. -/
theorem exists_mem_zip {α β : Type} {items : List α} {others : List β}
    (length : items.length = others.length) {a : α} (mem : a ∈ items) :
    ∃ b, (a, b) ∈ items.zip others := by
  rw [← List.map_fst_zip length.le] at mem
  obtain ⟨⟨_, b⟩, pair, rfl⟩ := List.mem_map.1 mem
  exact ⟨b, pair⟩

namespace Minted

variable (minted : l.Minted config owner amount o id cls values)

include minted

/-- The amount is in the field that paying reads, and all other values are zero. -/
theorem bears_amount (distinct : (cls.fields.map (·.name)).Nodup) :
    List.Forall₂ (fun f v => Ty.IsBlank f.ty v) cls.fields values ∧
      ∃ f, Engine.amountField? cls = some f ∧ (f, Value.u64 amount) ∈ cls.fields.zip values := by
  obtain ⟨f, mem, found, unique⟩ := exists_amountField? distinct minted.hasAmount
  have number := Engine.ty_of_amountField? found
  obtain ⟨length, each⟩ := List.forall₂_iff_zip.1 minted.each
  refine ⟨List.forall₂_iff_zip.2 ⟨length, fun {g v} pair => ?_⟩, f, found, ?_⟩
  · have given := each pair
    unfold mintedValue at given
    split at given
    case isTrue named =>
      rw [(unique g (List.of_mem_zip pair).1).1 named]
      exact .inl (by rw [number]; rfl)
    case isFalse => exact .inr (mapError_eq_ok.1 given)
  · obtain ⟨v, pair⟩ := exists_mem_zip length mem
    have given := each pair
    rw [mintedValue, if_pos ((unique f mem).2 rfl)] at given
    cases given
    exact pair

end Minted

/-- A minted coin can be loaded over any registry that still has its package. -/
theorem Minted.deliverable (minted : l.Minted config owner amount o id cls values)
    (sound : l.registry.Sound) {c : Engine.Context} (configured : c.env.config = config)
    (more : l.registry.Extends c.env.registry)
    (coin : ∀ package, l.registry.get? id = some package →
      cls.Fits ∧ Engine.KeepsApart config package) :
    ∃ package, Engine.Deliverable c o package cls values (.address owner) ∧
      Engine.isCoin config cls = true ∧
      ∃ f, Engine.amountField? cls = some f ∧ (f, Value.u64 amount) ∈ cls.fields.zip values := by
  obtain ⟨named, package, idx, known, exported, hc⟩ := exists_of_coinClass minted.coin
  obtain ⟨rfl, built⟩ := sound _ _ known
  obtain ⟨fits, apart⟩ := coin package known
  have resolved : ∃ document, Abi.resolve package.id document = .ok package.abi := by
    obtain ⟨entries, sources, artifacts, built⟩ := built
    exact ⟨_, (Package.of_build built).2.1⟩
  obtain ⟨document, resolved⟩ := resolved
  have distinct := Abi.nodup_fields resolved (Abi.mem_classes_of_classAt hc)
  obtain ⟨blank, bears⟩ := minted.bears_amount distinct
  have registered : c.env.registry.get? ⟨o.classPtr.id⟩ = some package := by
    rw [minted.classPtr]
    exact more _ _ known
  have same : o.classPtr.idx.toNat = idx := by
    rw [minted.classPtr, ← built.exportIdx_eq hc]
    exact UInt32.toNat_ofNat_of_lt' fits.index
  have decoded := built.decodeState_eq_ok hc minted.state
  refine ⟨package, ?_, built.isCoin named exported hc, bears⟩
  exact {
    lock := Engine.storedLock_of_thawed (Lock.ofRecord_of_toRecord minted.lock) nofun
      (Lock.origin_of_toRecord minted.lock)
    registered := registered
    trusts := by
      intro p found
      rw [registered] at found
      cases found
      exact ⟨by rw [minted.classPtr]; rfl, built.validate, configured ▸ apart⟩
    classed := same ▸ hc
    laid := fits.laid resolved hc
    decoded := by rw [decoded, Abi.Class.fieldTypes, Ty.arrangeRow_of_blank blank]
    row := Ty.encodeState_eq_ok.1 minted.state
    blank := blank }

/-! ### Paying -/

variable {signature key : Bytes}

/-- Every minted coin can pay. Assume that the fields of the class of coins fit into the memory that
32 bits can address, and that the allocator of its package can be relied on. As long as the output
of the coin is current, the transaction that loads it, pays with it and is signed by its owner
succeeds, unless the package does not start or its allocator does not serve a request. The amount is
that of the coin, which is the only spend, and there are no outputs. -/
theorem minted_coin_pays (sound : l.registry.Sound)
    (done : l.mint p.config owner amount seed = .ok (o, l'))
    (enough : p.config.minFundAmount ≤ amount)
    (reliable : ∀ id cls package, l.coinClass p.config = .ok (id, cls) →
      l.registry.get? id = some package → cls.Fits ∧ Engine.KeepsApart p.config package)
    (more : l'.registry.Extends later.registry)
    (current : later.store.byLocation o.location = some o) {bs : Bytes}
    (written : (Transaction.tender o.location signature key).toBytes = .ok bs)
    (signed : Engine.Verifies p.verifier (.tender o.location signature key) 3 signature key)
    (holder : p.verifier.addressOf key = .ok owner)
    (supplied : ∀ c, Engine.contextOf (later.env p) (.tender o.location signature key) = .ok c →
      ¬ Engine.FallsShort c (.tender o.location signature key) o) :
    ∃ r, (later.execute p (.tender o.location signature key)).1 = .ok r ∧
      r.fundedAmount = amount ∧ r.spends = [o.spend] ∧ r.outputs = [] := by
  obtain ⟨id, cls, values, minted⟩ := exists_minted done
  have kept : l.registry.Extends later.registry := by
    obtain ⟨store, -, rfl⟩ := mint_eq_ok done
    exact more
  have context : Engine.contextOf (later.env p) (.tender o.location signature key) =
      .ok ⟨later.env p, Sha256.digest bs, [⟨owner, .whole⟩]⟩ :=
    Engine.contextOf_tender written signed holder
  obtain ⟨package, deliverable, coin, f, found, bears⟩ := minted.deliverable sound
    (c := ⟨later.env p, Sha256.digest bs, [⟨owner, .whole⟩]⟩) rfl kept
    fun package known => reliable id cls package minted.coin known
  obtain ⟨r, u, run, result⟩ := Engine.runTransaction_tender deliverable current rfl coin found
    bears enough (supplied _ context)
  exact ⟨r, execute_eq_ok.2 ⟨_, u, context, run⟩, result⟩

namespace Vault

/-- Coins are those of the package, and everybody has signed. -/
def policy : Policy :=
  { Till.policy with config := { Till.policy.config with maxMemoryBytes := 8 * 65536 } }

/-- The ledger that has only the package. -/
def opening : Ledger := ⟨env.registry, .empty⟩

/-- A coin is minted. -/
def minting : Output × Ledger :=
  (opening.mint policy.config default 500 0).toOption.getD (small, opening)

theorem mint_opening : opening.mint policy.config default 500 0 = .ok minting :=
  eq_ok_getD (small, opening) (by decide +kernel)

/-- The coin is paid with. -/
def payment : Transaction := .tender minting.1.location [] []

/-- The class of coins is that of the package, which fits. -/
theorem fits_coinClass {id : PackageId} {cls : Abi.Class}
    (coin : opening.coinClass policy.config = .ok (id, cls)) : cls.Fits := by
  obtain ⟨-, p, idx, known, -, hc⟩ := exists_of_coinClass coin
  obtain ⟨-, rfl⟩ := eq_of_get? known
  obtain rfl : cls = Till.coin := by
    cases idx <;> cases hc
    rfl
  refine ⟨by decide, ?_, fun f mem name fields size part => ?_⟩
  · change Layout.room 4 1 Till.coin.fields < UInt32.size
    decide
  · obtain rfl := List.mem_singleton.1 mem
    cases part

theorem isOk_payment : (minting.2.execute policy payment).1.isOk = true := by decide +kernel

end Vault

theorem minted_coin_pays_vault : ∃ r,
    (Vault.minting.2.execute Vault.policy Vault.payment).1 = .ok r ∧ r.fundedAmount = 500 ∧
      r.spends = [Vault.minting.1.spend] ∧ r.outputs = [] := by
  have written : Vault.payment.toBytes = .ok (Vault.payment.toBytes.toOption.getD []) :=
    eq_ok_getD [] (by decide +kernel)
  have hashed : Vault.payment.signingHash 3 =
      .ok ((Vault.payment.signingHash 3).toOption.getD default) :=
    eq_ok_getD default (by decide +kernel)
  refine minted_coin_pays Vault.reliable.sound Vault.mint_opening (by decide) ?_
    (fun _ _ found => found) (by decide +kernel) written ⟨_, hashed, rfl⟩ rfl
    fun c => Engine.not_fallsShort_of_isOk Vault.isOk_payment
  intro id cls package coin known
  obtain ⟨-, rfl⟩ := Vault.eq_of_get? known
  exact ⟨Vault.fits_coinClass coin, Vault.keepsApart _⟩

end Ledger

end JigLedger
