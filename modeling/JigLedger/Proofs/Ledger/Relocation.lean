import JigLedger.Proofs.Engine.Unfunded
import JigLedger.Proofs.Ledger.Chronicle
import JigLedger.Proofs.Paging

/-!
# Unfunded transactions change locations only

Whatever an unfunded transaction loads is written down as it was stored, except that it gets a new
location. This relies on the allocators of the packages; one that gives out a page at a time is an
allocator that can be relied on.
-/

namespace JigLedger

namespace Engine

/-- An unfunded transaction changes nothing but locations. Assume that the allocators of all
packages of a registry can be relied on, and that a transaction without an instruction that pays has
been executed. Then it deploys nothing, and its outputs are exactly the outputs that its
instructions have loaded, in their order, with the same origin, class, lock and state, at the
pointers behind the instructions of the transaction. It spends exactly these loaded outputs, so it
neither creates a jig nor destroys one. If a store keeps outputs under their own origins, no jig is
loaded twice. -/
theorem outputs_of_unfunded {env : Env} {tx : Transaction} {r : ExecutionResult}
    (reliable : env.Reliable) (free : ∀ i ∈ tx.instructions, i.opcode ≠ .fund)
    (done : (execute env tx).1 = .ok r) :
    r.deploys = [] ∧ tx.hash = .ok r.txHash ∧ ∃ loaded,
      List.Forall₂ (fun i o => i.loaded? env.store = some o) (tx.instructions.filter (·.isLoad))
        loaded ∧
      r.outputs = loaded.mapIdx
        (fun k o => { o with location := ⟨r.txHash, UInt32.ofNat (tx.size + k)⟩ }) ∧
      r.spends = loaded.map (fun o => ⟨o.origin, o.location⟩) ∧
      r.outputs.map (·.origin) = r.spends.map (·.origin) ∧
      (env.store.Keyed → (r.spends.map (·.origin)).Nodup) := by
  obtain ⟨c, u, context, run⟩ := execute_eq_ok.1 done
  obtain ⟨rfl, hash⟩ := contextOf_eq_ok context
  have named : r.txHash = c.txHash := txHash_of_run run
  obtain ⟨deploys, loaded, loads, outputs, spends, nodup⟩ := moved_of_run reliable run free
  have origins : r.spends.map (·.origin) = loaded.map (·.origin) := by
    rw [spends, List.map_map]
    rfl
  refine ⟨deploys, named ▸ hash, loaded, loads, named ▸ outputs, spends, ?_, origins ▸ nodup⟩
  rw [origins, outputs]
  exact List.ext_getElem (by simp) (by simp [Output.moved])

end Engine

/-! ### Two coins -/

namespace Ledger

namespace Vault

/-- A module like that of `Till`, with an allocator that gives out a page each time. -/
def wasm : Bytes :=
  Wasm.Binary.magic ++ [1, 0, 0, 0] ++
  -- One function from a word to a word, and one page.
  [1, 6, 1, 0x60, 1, 0x7F, 1, 0x7F] ++ [3, 2, 1, 0] ++ [5, 3, 1, 0, 1] ++
  [7, 39, 3] ++ 6 :: utf8 "memory" ++ [2, 0] ++ 7 :: utf8 "__alloc" ++ [0, 0] ++
  16 :: utf8 "Coin_constructor" ++ [0, 0] ++
  -- Its code is that of the page allocator.
  [10, 14, 1, 12, 0, 0x3F, 0, 0x41, 16, 0x74, 0x41, 1, 0x40, 0, 0x1A, 0x0B]

/-- The package of coins with this module. -/
def package : Package where
  id := Till.packageId
  abi := Till.package.abi
  module := (Wasm.Module.load wasm).toOption.getD default
  entries := ["coin"]
  sources := .empty
  wasm := wasm

theorem build_package : Package.build ["coin"] .empty ⟨Till.document, wasm⟩ = .ok package := by
  have loaded : Wasm.Module.load wasm = .ok ((Wasm.Module.load wasm).toOption.getD default) :=
    eq_ok_getD default (by decide +kernel)
  exact Package.build_eq_ok Till.contentId_sources Till.resolve_document loaded (by decide +kernel)

/-- The stored output of a coin that everybody may use. -/
def coin (seed : UInt32) (amount : Nat) : Output :=
  ⟨⟨default, seed⟩, ⟨default, seed⟩, .ofExport Till.packageId 0,
    ⟨⟨default, seed⟩, LockKind.everyone.code, []⟩, littleEndian 8 amount⟩

/-- A coin of a small amount. -/
def small : Output := coin 1 5

/-- A coin of a larger amount. -/
def large : Output := coin 2 500

/-- The store with both coins. -/
def store : Store :=
  ((Store.empty.insert small).bind (·.insert large)).toOption.getD .empty

/-- Only the package of coins is registered. -/
def env : Engine.Env where
  config := { fuelLimit := 100, maxMemoryBytes := 8 * 65536 }
  registry := ⟨(∅ : Std.ExtTreeMap PackageId Package compare).insert Till.packageId package⟩
  store := store
  compiler := .disabled
  verifier := .rehearsal

/-- Both coins are loaded and the package is imported; nothing is paid with. -/
def tx : Transaction :=
  ⟨[.load large.location, .importPackage Till.packageId, .loadByOrigin small.origin]⟩

/-- The package is the only one. -/
theorem eq_of_get? {id : PackageId} {p : Package} (found : env.registry.get? id = some p) :
    id = Till.packageId ∧ p = package := by
  simp only [env, Registry.get?, Std.ExtTreeMap.getElem?_insert,
    Std.LawfulEqCmp.compare_eq_iff_eq] at found
  split at found
  case isTrue same =>
    cases found
    exact ⟨same.symm, rfl⟩
  case isFalse => simp at found

theorem keepsApart (config : Config) : Engine.KeepsApart config package := by
  refine (Engine.paged_of_isPaged ?_).keepsApart (Package.IsBuilt.validate ⟨_, _, _, build_package⟩)
  decide +kernel

theorem reliable : env.Reliable := by
  refine ⟨fun id p found => ?_, fun id p found => ?_, fun id p found => ?_⟩ <;>
    obtain ⟨rfl, rfl⟩ := eq_of_get? found
  · exact ⟨rfl, ["coin"], .empty, _, build_package⟩
  · decide +kernel
  · exact keepsApart _

theorem isOk_execute : (Engine.execute env tx).1.isOk = true := by decide +kernel

end Vault

end Ledger

namespace Engine

open Ledger (Vault.small Vault.large Vault.env Vault.tx)

/-- Both coins are moved, in the order in which they are loaded. -/
theorem outputs_of_unfunded_coins : Vault.env.Reliable ∧
    (∀ i ∈ Vault.tx.instructions, i.opcode ≠ .fund) ∧ ∃ r,
      (execute Vault.env Vault.tx).1 = .ok r ∧ r.deploys = [] ∧
      r.outputs = [Vault.large.moved ⟨r.txHash, 3⟩, Vault.small.moved ⟨r.txHash, 4⟩] ∧
      r.spends = [Vault.large.spend, Vault.small.spend] := by
  have reliable := Ledger.Vault.reliable
  have free : ∀ i ∈ Vault.tx.instructions, i.opcode ≠ .fund := by decide +kernel
  rcases done : (execute Vault.env Vault.tx).1 with e | r
  · have ok := Ledger.Vault.isOk_execute
    rw [done] at ok
    cases ok
  obtain ⟨deploys, -, loaded, loads, outputs, spends, -⟩ := outputs_of_unfunded reliable free done
  have large : Vault.env.store.byLocation Vault.large.location = some Vault.large := by
    decide +kernel
  have small : Vault.env.store.byOrigin Vault.small.origin = some Vault.small := by
    decide +kernel
  obtain _ | ⟨first, rest⟩ := loads
  obtain _ | ⟨second, none⟩ := rest
  cases none
  obtain rfl := Option.some.inj (first.symm.trans large)
  obtain rfl := Option.some.inj (second.symm.trans small)
  exact ⟨reliable, free, r, rfl, deploys, outputs, spends⟩

end Engine

end JigLedger
