import JigLedger.Proofs.Engine.Owners
import JigLedger.Proofs.Ledger.Classes

/-!
# Owners are known

Whoever a jig belongs to has been touched when the jig was given away, so the store knows the owner
when the result is committed, and what the store knows it never forgets. There is one exception: a
transaction can make a jig, give another one to it, and freeze it at once. Such an owner vanishes.
It was not there before, it leaves neither an output nor a tombstone, and no other transaction can
make it again. So it stays unknown for ever, although a jig belongs to it.
-/

namespace JigLedger.Ledger

variable {p : Policy} {l : Ledger} {log : List Deed} {e e' : Execution} {o : Output}
  {origin owner : Pointer}

/-! ### Jigs that vanish -/

/-- The transaction has made a jig and frozen it. -/
def Execution.Vanishes (p : Policy) (e : Execution) (origin : Pointer) : Prop :=
  ∃ c s, Engine.contextOf (e.ledger.env p) e.tx = .ok c ∧
    Engine.runTransaction c e.tx = (.ok e.result, s) ∧
    ∃ jig ∈ s.jigs, jig.origin = origin ∧ jig.previous = none ∧ jig.lock.isFrozen = true

/-- One of the transactions that were committed has made the jig and frozen it. -/
def Vanished (p : Policy) (log : List Deed) (origin : Pointer) : Prop :=
  ∃ e, .committed e ∈ log ∧ e.Vanishes p origin

theorem Vanished.mono {more : List Deed} (h : Vanished p log origin) (hs : log ⊆ more) :
    Vanished p more origin := by
  obtain ⟨e, mem, vanishes⟩ := h
  exact ⟨e, hs mem, vanishes⟩

namespace Chronicle

/-- A transaction that makes a jig is paid for. -/
theorem isPaid_of_vanishes (h : Chronicle p l log) (numbered : Numbered p log)
    (mem : .executed e ∈ log) (vanishes : e.Vanishes p origin) : e.tx.isPaid = true := by
  obtain ⟨c, s, context, run, jig, hj, -, new, -⟩ := vanishes
  have store : c.env.store = e.ledger.store := congrArg Engine.Env.store (env_of_contextOf context)
  have keyed : c.env.store.Keyed :=
    store ▸ (h.coherent_of_executed numbered mem).toIndexed.keyed
  rw [← Bool.not_eq_false]
  intro unpaid
  exact Engine.loaded_of_unpaid run keyed (by simpa [Transaction.isPaid] using unpaid) jig hj new

section Collisionless

variable (h : Chronicle p l log) (collisionless : Collisionless p log)

include h collisionless

/-- A transaction that is paid for is committed once. -/
theorem eq_of_paid (mem : .committed e ∈ log) (mem' : .committed e' ∈ log) (same : e.tx = e'.tx)
    (paid : e.tx.isPaid = true) : e = e' := by
  induction log generalizing l with
  | nil => cases mem
  | cons deed log ih =>
    obtain ⟨l', before, applied⟩ := h.applied collisionless.numbers
    -- What is committed last finds its coin gone if it has been committed earlier.
    have unpaid {e e' : Execution} (last : deed = .committed e) (earlier : .committed e' ∈ log)
        (same : e.tx = e'.tx) : e.tx.isPaid = false := by
      subst last
      have executed : .executed e ∈ log := by simpa using h.executed_of_committed (.head _)
      exact (before.placing collisionless.tail).unpaid_of_due before collisionless.tail executed
        earlier same applied.due
    rcases List.mem_cons.1 mem with last | mem <;> rcases List.mem_cons.1 mem' with last' | mem'
    · exact Deed.committed.inj (last.trans last'.symm)
    · rw [unpaid last.symm mem' same] at paid
      cases paid
    · rw [same, unpaid last'.symm mem same.symm] at paid
      cases paid
    · exact ih before collisionless.tail mem mem'

/-- A transaction writes nothing down for a jig that it has made and frozen. -/
theorem unwritten_of_vanishes (mem : .executed e ∈ log) (vanishes : e.Vanishes p origin) :
    ∀ o ∈ e.result.outputs, o.origin ≠ origin := by
  obtain ⟨c, s, context, run, jig, hj, rfl, new, frozen⟩ := vanishes
  obtain ⟨earlier, -, before, apart⟩ := h.before_executed collisionless mem
  intro o ho same
  obtain ⟨other, hother, _, _, _, _, _, -, thawed, -, rfl⟩ := Engine.recorded_of_run run ho
  have origin : other.origin = jig.origin := same
  have few := collisionless.numbers e mem c context
  rw [run] at few
  rcases previous : other.previous with _ | location
  · obtain rfl := Engine.eq_of_new run few hother hj previous new origin
    rw [frozen] at thawed
    cases thawed
  · -- If the other jig was loaded, then the store knew the origin, and both were loaded.
    have spent : ⟨other.origin, location⟩ ∈ e.result.spends :=
      (Engine.mem_spends_iff run).2 ⟨other, hother, rfl, previous⟩
    obtain ⟨last, placed, known⟩ := before.placed_of_spent context run apart.tail.numbers spent
    refine before.previous_of_known context run apart hj ?_ new
    rw [before.knows_iff apart.tail.numbers, ← origin]
    exact List.mem_map.2 ⟨last, placed, known⟩

/-- Nothing has ever been put into the store for a jig that has vanished. -/
theorem unplaced_of_vanished (vanished : Vanished p log origin) :
    origin ∉ (log.flatMap Deed.outputs).map (·.origin) := by
  intro known
  obtain ⟨e, committed, vanishes⟩ := vanished
  obtain ⟨o, placed, rfl⟩ := List.mem_map.1 known
  have mem := h.executed_of_committed committed
  have paid := h.isPaid_of_vanishes collisionless.numbers mem vanishes
  have unwritten := h.unwritten_of_vanishes collisionless mem vanishes
  obtain ⟨c, s, context, run, jig, hj, origin, new, -⟩ := vanishes
  -- What is at the origin of the jig was put there by the same execution.
  obtain ⟨first, placed, own, root⟩ := h.rooted collisionless.numbers placed
  obtain ⟨bs, written, hash⟩ := txHash_of_contextOf context
  have here : first.location.id = Sha256.digest bs := by
    rw [root, ← origin, Engine.id_of_new run hj new, hash]
  obtain ⟨e', again, ho, tx⟩ := h.committed_of_id collisionless mem written placed here
  obtain rfl := h.eq_of_paid collisionless committed again tx paid
  exact unwritten first ho own

end Collisionless

/-! ### Owners -/

section Numbered

variable (h : Chronicle p l log) (numbered : Numbered p log)

include h numbered

/-- What a transaction has touched that was committed has been put into the store, or it has
vanished. -/
theorem placed_of_touched (mem : .committed e ∈ log) {c : Engine.Context} {s : Engine.Session}
    (context : Engine.contextOf (e.ledger.env p) e.tx = .ok c)
    (run : Engine.runTransaction c e.tx = (.ok e.result, s)) {jig : Engine.TouchedJig}
    (hj : jig ∈ s.jigs) :
    jig.origin ∈ (log.flatMap Deed.outputs).map (·.origin) ∨ Vanished p log jig.origin := by
  rcases previous : jig.previous with _ | location
  · rcases frozen : jig.lock.isFrozen
    · obtain ⟨o, ho, same⟩ := Engine.exists_output_of_run run hj frozen
      exact .inl (List.mem_map.2 ⟨o, List.mem_flatMap.2 ⟨_, mem, ho⟩, same⟩)
    · exact .inr ⟨e, mem, c, s, context, run, jig, hj, rfl, previous, frozen⟩
  · obtain ⟨-, earlier, hs, before⟩ := h.executed (h.executed_of_committed mem)
    have spent : ⟨jig.origin, location⟩ ∈ e.result.spends :=
      (Engine.mem_spends_iff run).2 ⟨jig, hj, rfl, previous⟩
    obtain ⟨o, placed, same⟩ := before.placed_of_spent context run (numbered.of_suffix hs) spent
    exact .inl (List.mem_map.2 ⟨o, (hs.flatMap _).subset placed, same⟩)

/-- Something has been put into the store for the owner of whatever was put there, or the owner has
vanished. -/
theorem placed_of_owner (placed : o ∈ log.flatMap Deed.outputs)
    (locked : Lock.ofRecord o.lock = .ok (.jig owner)) :
    owner ∈ (log.flatMap Deed.outputs).map (·.origin) ∨ Vanished p log owner := by
  induction log generalizing l o with
  | nil => cases placed
  | cons deed log ih =>
    obtain ⟨l', before, -⟩ := h.applied numbered
    have older {o : Output} (placed : o ∈ log.flatMap Deed.outputs)
        (locked : Lock.ofRecord o.lock = .ok (.jig owner)) :
        owner ∈ ((deed :: log).flatMap Deed.outputs).map (·.origin) ∨
          Vanished p (deed :: log) owner := by
      refine (ih before numbered.tail placed locked).imp (fun known => ?_)
        (·.mono (List.subset_cons_self _ _))
      rw [List.flatMap_cons, List.map_append]
      exact List.mem_append_right _ known
    rcases List.mem_append.1 placed with ho | placed
    · cases deed with
      | minted =>
        cases List.mem_singleton.1 ho
        cases h with
        | mint _ done =>
          -- A minted coin belongs to an address.
          obtain ⟨_, _, _, minted⟩ := exists_minted done
          cases (Lock.ofRecord_of_toRecord minted.lock).symm.trans locked
      | committed e =>
        have mem : .executed e ∈ log := by simpa using h.executed_of_committed (.head _)
        obtain ⟨executed, earlier, hs, before⟩ := before.executed mem
        obtain ⟨c, s, context, run⟩ := execute_eq_ok.1 executed
        have store : c.env.store = e.ledger.store :=
          congrArg Engine.Env.store (env_of_contextOf context)
        have coherent := before.coherent (numbered.tail.of_suffix hs)
        obtain ⟨jig, hj, _, _, _, _, _, -, -, recorded, rfl⟩ := Engine.recorded_of_run run ho
        have belongs : jig.lock = .jig owner :=
          Except.ok.inj ((Lock.ofRecord_of_toRecord recorded.lock).symm.trans locked)
        rcases Engine.owner_of_run (store ▸ coherent.toIndexed.keyed) run hj belongs with
          ⟨other, hother, rfl⟩ | ⟨last, stored, -, kept⟩
        · exact h.placed_of_touched numbered (.head _) context run hother
        · have placed := before.placed_of_stored store stored kept coherent
          refine older ((hs.flatMap _).subset placed) ?_
          rw [(Engine.storedLock_eq_ok kept).1, belongs]
      | deployed | executed => cases ho
    · exact older placed locked

end Numbered

end Chronicle

/-- The owner of a jig that can be spent is unknown only if it has vanished: one transaction has
made it and frozen it. It stays unknown then, if digests are unambiguous. Otherwise whoever asks for
the owner finds its output, which can be spent, or its frozen tombstone. -/
theorem owner_unknown_iff_vanished (h : Chronicle p l log) (numbered : Numbered p log)
    {location : Pointer} (live : l.store.byLocation location = some o)
    (locked : Lock.ofRecord o.lock = .ok (.jig owner)) :
    (l.store.byOrigin owner = none → Vanished p log owner) ∧
      (Unambiguous log → Vanished p log owner → l.store.byOrigin owner = none) ∧
      ∀ last, l.store.byOrigin owner = some last → last.origin = owner ∧
        (l.store.byLocation last.location = some last ∨
          last.lock.kind = LockKind.frozen.code) := by
  have coherent := h.coherent numbered
  have unknown : l.store.byOrigin owner = none ↔
      owner ∉ (log.flatMap Deed.outputs).map (·.origin) := by
    rw [← h.knows_iff numbered, coherent.toIndexed.knows_eq, Option.isSome_iff_ne_none, not_not]
  refine ⟨fun nowhere => ?_, fun digests vanished => ?_, fun last found => coherent.byOrigin found⟩
  · exact (h.placed_of_owner numbered (h.placed_of_live live) locked).resolve_left
      (unknown.1 nowhere)
  · exact unknown.2 (h.unplaced_of_vanished ⟨digests, numbered⟩ vanished)

/-! ### A purse that is frozen -/

namespace Purse

/-- Purses have no fields. -/
def purse : Abi.Class where
  exportIdx := 1
  ref := ⟨Till.packageId, "Purse"⟩
  parent := none
  fields := []
  size := 4
  constructor := ⟨Abi.constructorName, "Purse_constructor", [], none⟩
  methods := []
  conformance := (∅ : Abi.RefSet).insert ⟨Till.packageId, "Purse"⟩

/-- Coins and purses. -/
def document : Abi.Document :=
  { Till.document with exports := Till.document.exports ++ [.ofClass ⟨"Purse", none, [], [], []⟩] }

/-- A module with an allocator that always moves on by 32. The constructor of purses makes a coin
and gives it to the purse. -/
def wasm : Bytes :=
  Wasm.Binary.magic ++ [1, 0, 0, 0] ++
  [1, 22, 4, 0x60, 1, 0x7F, 1, 0x7F, 0x60, 2, 0x7F, 0x7F, 1, 0x7F, 0x60, 3, 0x7F, 0x7F, 0x7F, 0,
    0x60, 0, 1, 0x7F] ++
  [2, 38, 2] ++ 2 :: utf8 "vm" ++ 17 :: utf8 "constructor_local" ++ [0, 1] ++
  2 :: utf8 "vm" ++ 8 :: utf8 "jig_lock" ++ [0, 2] ++
  -- Three functions, one page, and where the next object goes.
  [3, 4, 3, 0, 3, 3] ++ [5, 3, 1, 0, 1] ++ [6, 6, 1, 0x7F, 1, 0x41, 8, 0x0B] ++
  [7, 59, 4] ++ 6 :: utf8 "memory" ++ [2, 0] ++ 7 :: utf8 "__alloc" ++ [0, 2] ++
  16 :: utf8 "Coin_constructor" ++ [0, 3] ++ 17 :: utf8 "Purse_constructor" ++ [0, 4] ++
  [10, 39, 3] ++ [11, 0, 0x23, 0, 0x23, 0, 0x41, 32, 0x6A, 0x24, 0, 0x0B] ++
  [6, 0, 0x41, 16, 0x10, 2, 0x0B] ++
  [18, 0, 0x41, 0, 0x41, 0, 0x10, 0, 0x41, 2, 0x41, 0, 0x10, 1, 0x41, 4, 0x10, 2, 0x0B]

/-- The package of coins and purses. -/
def package : Package where
  id := Till.packageId
  abi := ⟨Till.packageId, document, [.ofClass Till.coin, .ofClass purse], []⟩
  module := (Wasm.Module.load wasm).toOption.getD default
  entries := ["coin"]
  sources := .empty
  wasm := wasm

/-- Whatever is compiled is this package, and everybody has signed. -/
def policy : Policy :=
  { Till.policy with compiler := fun _ _ => .ok ⟨document, wasm⟩ }

/-- The ledger that has only this package. -/
def opening : Ledger :=
  ⟨⟨(∅ : Std.ExtTreeMap PackageId Package compare).insert Till.packageId package⟩, .empty⟩

theorem resolve_document : Abi.resolve Till.packageId document = .ok package.abi := by
  refine bind_eq_ok.2 ⟨⟨Till.packageId, document.exports, []⟩, rfl, bind_eq_ok.2 ⟨_, ?_, rfl⟩⟩
  refine bind_eq_ok.2 ⟨_, Till.resolveExport_coin _, bind_eq_ok.2 ⟨[.ofClass purse], ?_, rfl⟩⟩
  refine bind_eq_ok.2 ⟨.ofClass purse, bind_eq_ok.2 ⟨purse, ?_, rfl⟩, rfl⟩
  exact bind_eq_ok.2 ⟨_, by rw [Abi.Scope.lineage, Abi.Scope.ancestry]; rfl, rfl⟩

theorem build_package : Package.build ["coin"] .empty ⟨document, wasm⟩ = .ok package := by
  have loaded := eq_ok_getD (x := Wasm.Module.load wasm) default (by decide +kernel)
  exact Package.build_eq_ok Till.contentId_sources resolve_document loaded (by decide +kernel)

theorem deploy_package :
    Ledger.empty.deploy policy ["coin"] .empty = .ok (Till.packageId, opening) :=
  deploy_empty rfl build_package

/-- A coin pays for a new purse, which is frozen. -/
def tx (coin : Pointer) : Transaction :=
  ⟨[.loadByOrigin coin, .fund 0, .importPackage Till.packageId, .new 2 1 [], .lock 3 .frozen,
    .sign [] []]⟩

/-- An output can be spent, and it belongs to a jig that is not known. -/
def isLost (l : Ledger) (o : Output) : Bool :=
  decide (l.store.byLocation o.location = some o) && match Lock.ofRecord o.lock with
    | .ok (.jig owner) => (l.store.byOrigin owner).isNone
    | _ => false

/-- The coin that the purse has made can be spent, and nobody knows the purse. -/
theorem exists_lost : ∃ l log o owner, Chronicle policy l log ∧ Collisionless policy log ∧
    l.store.byLocation o.location = some o ∧ Lock.ofRecord o.lock = .ok (.jig owner) ∧
    l.store.byOrigin owner = none := by
  obtain ⟨l, log, chronicle, collisionless, told⟩ :=
    (Chronicle.deploy .empty deploy_package).exists_mintAndRun (by decide) (fun coin => [tx coin])
      (fun l log => (log.flatMap Deed.outputs).any (isLost l)) (by decide +kernel)
  obtain ⟨o, -, lost⟩ := List.any_eq_true.1 told
  obtain ⟨live, unknown⟩ := Bool.and_eq_true_iff.1 lost
  split at unknown
  case h_2 => cases unknown
  case h_1 owner locked =>
    exact ⟨l, log, o, owner, chronicle, collisionless, of_decide_eq_true live, locked,
      Option.isNone_iff_eq_none.1 unknown⟩

end Purse

/-- The store does not always know the owner of a jig that can be spent. -/
theorem owner_not_always_known : ¬ ∀ (p : Policy) (l : Ledger) (log : List Deed)
    (location owner : Pointer) (o : Output), Chronicle p l log → Collisionless p log →
      l.store.byLocation location = some o → Lock.ofRecord o.lock = .ok (.jig owner) →
      l.store.byOrigin owner ≠ none := by
  intro known
  obtain ⟨l, log, o, owner, chronicle, collisionless, live, locked, unknown⟩ := Purse.exists_lost
  exact known _ l log _ owner o chronicle collisionless live locked unknown

/-- The owner of the coin has vanished. -/
theorem owner_unknown_iff_vanished_purse : ∃ (p : Policy) (l : Ledger) (log : List Deed)
    (location owner : Pointer) (o : Output), Chronicle p l log ∧ Collisionless p log ∧
      l.store.byLocation location = some o ∧ Lock.ofRecord o.lock = .ok (.jig owner) ∧
      l.store.byOrigin owner = none ∧ Vanished p log owner := by
  obtain ⟨l, log, o, owner, chronicle, collisionless, live, locked, unknown⟩ := Purse.exists_lost
  have vanished :=
    (owner_unknown_iff_vanished chronicle collisionless.numbers live locked).1 unknown
  exact ⟨_, l, log, _, owner, o, chronicle, collisionless, live, locked, unknown, vanished⟩

end JigLedger.Ledger
