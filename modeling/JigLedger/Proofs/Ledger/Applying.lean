import JigLedger.Proofs.Ledger.Atomicity
import JigLedger.Proofs.Store.Successor

/-!
# Changes of a store made in place

A change of a store is made in place, spend by spend and output by output. It does all of it
exactly if it is permitted, and nothing otherwise. What it does to aligned tables is known entry by
entry.
-/

namespace JigLedger.Ledger

variable {l : Ledger} {spends : List Spend} {outputs : List Output}

/-- A change that is made in place is refused, and nothing has changed, or it is applied, and the
store is the one that `Store.apply` gives. -/
theorem InPlace.apply_cases (l : Ledger) (spends : List Spend) (outputs : List Output) :
    (∃ e : StoreError, l.store.apply spends outputs = .error e ∧
      InPlace.apply spends outputs l = (.error (.plain e.message), l)) ∨
    ∃ t, l.store.apply spends outputs = .ok t ∧
      InPlace.apply spends outputs l = (.ok (), { l with store := t }) := by
  rw [InPlace.apply_eq]
  cases l.store.apply spends outputs with
  | error e => exact .inl ⟨e, rfl, rfl⟩
  | ok t => exact .inr ⟨t, rfl, rfl⟩

/-- A change of an aligned store whose outputs are of different jigs at different places is applied
exactly if each spend names the current place of its jig, nothing is stored where outputs are put,
and the jigs of outputs that are current or destroyed are spent. If it is refused, all is as it was.
If it is applied, the tables are the only ones that `Store.Successor` allows, and they are aligned
again. -/
theorem apply_exact (aligned : l.store.Aligned) (origins : (outputs.map (·.origin)).Nodup)
    (locations : (outputs.map (·.location)).Nodup) :
    ((∃ l', InPlace.apply spends outputs l = (.ok (), l')) ↔ l.store.Permits spends outputs) ∧
    (∀ f l', InPlace.apply spends outputs l = (.error f, l') → l' = l) ∧
    ∀ l', InPlace.apply spends outputs l = (.ok (), l') →
      l'.registry = l.registry ∧ l.store.Successor spends outputs l'.store ∧ l'.store.Aligned ∧
      ∀ t, l.store.Successor spends outputs t → t = l'.store := by
  rcases InPlace.apply_cases l spends outputs with ⟨e, refused, inPlace⟩ | ⟨t, done, inPlace⟩
  · rw [inPlace]
    refine ⟨⟨nofun, fun permitted => ?_⟩, ?_, nofun⟩
    · obtain ⟨t, done⟩ := Store.exists_apply_iff.2 permitted
      rw [refused] at done
      cases done
    · rintro f l' ⟨⟩
      rfl
  · rw [inPlace]
    obtain ⟨permitted, written⟩ := Store.apply_eq_ok_iff_permits.1 done
    have next := aligned.successor permitted origins locations
    rw [← written] at next
    refine ⟨⟨fun _ => permitted, fun _ => ⟨_, rfl⟩⟩, nofun, ?_⟩
    rintro l' ⟨⟩
    exact ⟨rfl, next, next.aligned aligned permitted, fun t' next' => next'.unique next⟩

/-- The first jig is spent twice and moves, the second one is destroyed, a fourth one is new, and
the third one stays destroyed. Spending the first jig from elsewhere too is refused. -/
theorem apply_exact_shelf :
    Store.shelf.Aligned ∧
    (∃ l' : Ledger, InPlace.apply
        [Store.spending 1 11, Store.spending 2 12, Store.spending 1 11]
        [Store.numbered 1 21, Store.numbered 4 24] ⟨⟨∅⟩, Store.shelf⟩ = (.ok (), l') ∧
      l'.store.byLocation ⟨default, 21⟩ = some (Store.numbered 1 21) ∧
      l'.store.byLocation ⟨default, 11⟩ = none ∧
      l'.store.byOrigin ⟨default, 2⟩ =
        some { Store.numbered 2 12 with lock := ⟨⟨default, 2⟩, LockKind.frozen.code, []⟩ } ∧
      l'.store.byOrigin ⟨default, 3⟩ = Store.shelf.byOrigin ⟨default, 3⟩) ∧
    ∃ f, InPlace.apply [Store.spending 1 11, Store.spending 1 12]
        [Store.numbered 1 21, Store.numbered 4 24] ⟨⟨∅⟩, Store.shelf⟩ =
      (.error f, ⟨⟨∅⟩, Store.shelf⟩) := by
  refine ⟨Store.aligned_shelf, ?_, ?_⟩
  · obtain ⟨applied, -, known⟩ := @apply_exact ⟨⟨∅⟩, Store.shelf⟩
      [Store.spending 1 11, Store.spending 2 12, Store.spending 1 11]
      [Store.numbered 1 21, Store.numbered 4 24] Store.aligned_shelf (by decide) (by decide)
    obtain ⟨l', done⟩ := applied.2 ⟨by decide +kernel, by decide +kernel, by decide +kernel⟩
    obtain ⟨-, next, -⟩ := known l' done
    refine ⟨l', done, (next.live _ _).2 (.inl ⟨.head _, rfl⟩), ?_, ?_, ?_⟩
    · refine Option.eq_none_iff_forall_ne_some.2 fun o found => ?_
      rcases (next.live _ o).1 found with ⟨ho, place⟩ | ⟨-, unspent⟩
      · have elsewhere : ∀ o ∈ [Store.numbered 1 21, Store.numbered 4 24],
          o.location ≠ ⟨default, 11⟩ := by decide
        exact elsewhere o ho place
      · exact unspent _ (.head _) rfl
    · obtain ⟨last, found, gone⟩ := next.tombs (Store.spending 2 12) (by decide) (by decide)
      have stored : Store.shelf.byOrigin ⟨default, 2⟩ = some (Store.numbered 2 12) := by
        decide +kernel
      cases found.symm.trans stored
      exact gone.byOrigin
    · exact (next.untouched _ (by decide) (by decide)).2
  · obtain ⟨applied, kept, -⟩ := @apply_exact ⟨⟨∅⟩, Store.shelf⟩
      [Store.spending 1 11, Store.spending 1 12]
      [Store.numbered 1 21, Store.numbered 4 24] Store.aligned_shelf (by decide) (by decide)
    rcases here : InPlace.apply [Store.spending 1 11, Store.spending 1 12]
      [Store.numbered 1 21, Store.numbered 4 24] ⟨⟨∅⟩, Store.shelf⟩ with ⟨f | ⟨⟩, l'⟩
    · rw [kept f l' here]
      exact ⟨f, rfl⟩
    · have moved := (applied.1 ⟨l', here⟩).due (Store.spending 1 12) (.tail _ (.head _))
      exact absurd moved (by decide +kernel)

end JigLedger.Ledger
