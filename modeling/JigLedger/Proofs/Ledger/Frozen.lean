import JigLedger.Proofs.Engine.Mediation
import JigLedger.Proofs.Engine.Success
import JigLedger.Proofs.Ledger.Freshness
import JigLedger.Proofs.Store.Extinct

/-!
# Frozen jigs

A frozen lock permits nothing, so a touched jig that is frozen stays so until the end of the
transaction, and it leaves no output. If it was loaded, the output it was loaded from is spent: when
the result is committed, the store keeps a tombstone of it. Nothing that is done to the ledger later
brings the jig back, and whoever asks for it is told that it is frozen.
-/

namespace JigLedger

namespace Engine

variable {c : Context} {v : Scene} {s : Session} {idx : Nat} {jig : TouchedJig} {origin : Pointer}
  {o : Output}

/-! ### Within a transaction -/

/-- No event changes a jig that is frozen. -/
theorem Scene.frozen_after {e : Event} (due : Due c v e) (hj : v.jigs[idx]? = some jig)
    (frozen : jig.lock = .frozen) : (v.after e).jigs[idx]? = some jig := by
  obtain ⟨lock, after, same | rfl | ⟨-, same⟩⟩ := Scene.lock_after hj e
  · rw [after, same]
  · -- A frozen lock is not replaced.
    have asked : (Event.relocked idx lock).use? = some (idx, .relock) := rfl
    obtain ⟨other, ho, granted⟩ := due.granted asked
    rw [hj] at ho
    cases ho
    exact absurd frozen (Use.lock_of_isGranted granted).2
  · rw [after, same, ← frozen]

/-- A jig that was frozen at some time has been the same ever since. -/
theorem Scene.frozen_of_suffix {past later : List Event} (due : Throughout (Due c) later)
    (hs : past <:+ later) (hj : (Scene.of past).jigs[idx]? = some jig)
    (frozen : jig.lock = .frozen) : (Scene.of later).jigs[idx]? = some jig := by
  obtain ⟨more, rfl⟩ := hs
  induction more with
  | nil => exact hj
  | cons e more ih => exact Scene.frozen_after due.1 (ih due.2) frozen

/-- A frozen jig leaves what it spends, and nothing else. -/
theorem Settled.leaving_of_frozen {instances : List PackageInstance} {l : Leaving}
    (h : Settled instances jig l) (frozen : jig.lock = .frozen) : l = ⟨spendOf jig, none⟩ := by
  obtain ⟨spend, output⟩ := l
  have kept : spend = spendOf jig := h.spend
  have none : output = none := h.frozen (by rw [frozen]; rfl)
  rw [kept, none]

/-- What is left behind for the jig at an index. -/
theorem Settled.of_getElem? {instances : List PackageInstance} {jigs : List TouchedJig}
    {ls : List Leaving} (h : List.Forall₂ (Settled instances) jigs ls)
    (hj : jigs[idx]? = some jig) : ∃ l, ls[idx]? = some l ∧ Settled instances jig l := by
  obtain ⟨length, settled⟩ := List.forall₂_iff_get.1 h
  obtain ⟨hi, rfl⟩ := List.getElem?_eq_some_iff.1 hj
  exact ⟨_, List.getElem?_eq_getElem (length ▸ hi), settled idx hi (length ▸ hi)⟩

/-- A jig that is frozen in the end is not written down, if no other jig has its origin. -/
theorem unwritten_of_frozen {tx : Transaction} {r : ExecutionResult}
    (run : runTransaction c tx = (.ok r, s)) (nodup : (s.jigs.map (·.origin)).Nodup)
    (hj : s.jigs[idx]? = some jig) (frozen : jig.lock = .frozen) :
    ∀ o ∈ r.outputs, o.origin ≠ jig.origin := by
  intro o ho same
  obtain ⟨-, ls, settled, outputs, -⟩ := runTransaction_eq_ok run
  rw [outputs] at ho
  obtain ⟨other, hother, l, left, written⟩ := Settled.of_output settled ho
  obtain rfl : other = jig := List.inj_on_of_nodup_map nodup hother (List.mem_of_getElem? hj)
    ((left.origin o written).symm.trans same)
  rw [left.frozen (by rw [frozen]; rfl)] at written
  cases written

/-! ### Asking for a frozen jig -/

/-- The tombstone of a jig cannot be taken up. -/
theorem storedLock_tombstone (last : Output) :
    Host.storedLock (Store.tombstone last origin) =
      .error ((ExecError.refused "jig is frozen").withOrigin last.origin) := rfl

/-- Bringing back the object of a jig from its tombstone is refused. -/
theorem runFrom_rehydrate_tombstone (h : Host) (s : Session) (last : Output) :
    runFrom s (h.rehydrate (Store.tombstone last origin)) =
      (.error (.ofError ((ExecError.refused "jig is frozen").withOrigin last.origin)), s) := by
  rw [Host.rehydrate, storedLock_tombstone, runFrom_bind]
  rfl

/-- A jig that is to be loaded from its tombstone is refused. -/
theorem runFrom_loadLatest_tombstone (h : Host) {last : Output} (touched : Nat → Engine Nat)
    (found : h.context.env.store.byOrigin origin = some (Store.tombstone last origin))
    (own : last.origin = origin) (untouched : s.jigIndex? origin = none) :
    runFrom s (h.loadLatest origin touched) =
      (.error (.ofError ((ExecError.refused "jig is frozen").withOrigin origin)),
        s.record (.making origin)) := by
  have latest (t : Session) : runFrom t (latestOutput h.context origin) =
      (.ok (Store.tombstone last origin), t) := by
    rw [latestOutput, found]
    rfl
  rw [Host.loadLatest, touch, runFrom_bind_of_ok (runFrom_get s)]
  simp only [untouched]
  rw [runFrom_bind_of_ok (runFrom_note s _), runFrom_bind, runFrom_bind_of_ok (latest _),
    runFrom_rehydrate_tombstone, own]

/-- A jig that is gone from the store has not been loaded: if it is touched, it has just been
made. -/
theorem previous_of_extinct {tomb : Output} (extinct : c.env.store.Extinct origin tomb)
    (tombs : c.env.store.Sealed) (lawful : Lawful c s) (hj : jig ∈ s.jigs)
    (same : jig.origin = origin) : jig.previous = none := by
  rw [← lawful.shows.jigs] at hj
  refine (lawful.sourced.jigs jig hj).resolve_right ?_
  rintro ⟨o, lock, stored, loaded⟩
  have own : o.origin = origin := loaded.origin.symm.trans same
  have spendable (location : Pointer) : c.env.store.live[location]? ≠ some o := fun found =>
    extinct.live location o found own
  rcases stored with ⟨asked, stored⟩ | ⟨location, stored⟩
  · rcases Store.live_or_destroyed_of_byOrigin stored with ⟨location, there⟩ | left
    · exact spendable location there
    · exact not_frozen_of_storedLock loaded.lock (tombs asked o left)
  · exact spendable location stored

end Engine

namespace Ledger

variable {l l' l'' : Ledger}

/-! ### Across transactions -/

/-- What has become of a ledger. Outputs were inserted, changes were applied, coins minted, packages
deployed and results committed, in any order; what was refused has changed nothing. -/
inductive Becomes (l : Ledger) : Ledger → Prop where
  | refl : Becomes l l
  | insert {l' : Ledger} {o : Output} {store : Store} (before : Becomes l l')
      (done : l'.store.insert o = .ok store) : Becomes l { l' with store := store }
  | apply {l' : Ledger} {spends : List Spend} {outputs : List Output} {store : Store}
      (before : Becomes l l') (done : l'.store.apply spends outputs = .ok store) :
      Becomes l { l' with store := store }
  | deploy {l' l'' : Ledger} {p : Policy} {entries : List String} {sources : Sources}
      {id : PackageId} (before : Becomes l l')
      (done : l'.deploy p entries sources = .ok (id, l'')) : Becomes l l''
  | mint {l' l'' : Ledger} {p : Policy} {owner : Address} {amount seed : UInt64} {o : Output}
      (before : Becomes l l') (done : l'.mint p.config owner amount seed = .ok (o, l'')) :
      Becomes l l''
  | commit {l' l'' : Ledger} {r : ExecutionResult} (before : Becomes l l')
      (done : l'.commit r = .ok l'') : Becomes l l''

/-- What every change and every insertion keeps of a store is kept for ever. -/
theorem Becomes.store (h : Becomes l l') {P : Store → Prop} (start : P l.store)
    (insert : ∀ s t o, P s → s.insert o = .ok t → P t)
    (apply : ∀ s t spends outputs, P s → s.apply spends outputs = .ok t → P t) : P l'.store := by
  induction h with
  | refl => exact start
  | insert _ done ih => exact insert _ _ _ ih done
  | apply _ done ih => exact apply _ _ _ _ ih done
  | deploy _ done ih =>
    obtain ⟨package, registry, -, -, rfl⟩ := deploy_eq_ok done
    exact ih
  | mint _ done ih =>
    obtain ⟨store, inserted, rfl⟩ := mint_eq_ok done
    exact insert _ _ _ ih inserted
  | commit _ done ih => exact apply _ _ _ _ ih (commit_eq_ok.1 done).2.1

/-- Nobody gets a jig from a ledger any more; what is left of it is its last output, frozen. -/
structure Entombed (l : Ledger) (origin : Pointer) (last : Output) : Prop where
  current : l.store.current[origin]? = none
  tombstone : l.store.byOrigin origin =
    some { last with lock := ⟨origin, LockKind.frozen.code, []⟩ }
  /-- A jig with this origin is not loaded in any run. -/
  unloaded : ∀ (c : Engine.Context) (tx : Transaction), c.env.store = l.store →
    ∀ jig ∈ (Engine.runTransaction c tx).2.jigs, jig.origin = origin → jig.previous = none
  /-- Asking for the jig is refused in every session that has not touched it. -/
  refused : ∀ (h : Engine.Host) (s : Engine.Session), h.context.env.store = l.store →
    s.jigIndex? origin = none →
    let refusal := Failure.ofError ((ExecError.refused "jig is frozen").withOrigin origin)
    (Engine.runFrom s (h.loadByOrigin origin)).1 = .error refusal ∧
      (Engine.runFrom s (h.resolve origin)).1 = .error refusal

/-- A jig that is gone from the store, like all others that have left a tombstone. -/
theorem Entombed.of_extinct {origin : Pointer} {last : Output} (own : last.origin = origin)
    (extinct : l.store.Extinct origin (Store.tombstone last origin)) (tombs : l.store.Sealed) :
    l.Entombed origin last where
  current := extinct.current
  tombstone := extinct.byOrigin
  unloaded c tx store jig hj same := Engine.previous_of_extinct (store ▸ extinct) (store ▸ tombs)
    (Engine.lawful_runTransaction c tx) hj same
  refused h s store untouched := by
    have missing (touched : Nat → Engine Nat) := Engine.runFrom_loadLatest_tombstone h touched
      (store ▸ extinct.byOrigin) own untouched
    refine ⟨?_, ?_⟩
    · rw [Engine.Host.loadByOrigin, Engine.runFrom_bind, missing]
    · rw [Engine.Host.resolve, missing]

section Final

variable {c : Engine.Context} {tx : Transaction} {result : Except Failure ExecutionResult}
  {s : Engine.Session} {past : List Engine.Event} {idx : Nat} {jig : Engine.TouchedJig}

/-- Frozen is final. A touched jig that is frozen at any time of a run stays as it is until the end
of the transaction, and it leaves no output. Assume that no two touched jigs have one origin, that
this one was loaded, and that the result is committed to a ledger with a consistent store. Then the
jig is entombed, under the last output that was stored, and it stays so whatever is inserted,
applied, minted, deployed or committed afterwards. -/
theorem frozen_final (run : Engine.runTransaction c tx = (result, s)) (hs : past <:+ s.journal)
    (hj : (Engine.Scene.of past).jigs[idx]? = some jig) (frozen : jig.lock = .frozen) :
    (∀ later, past <:+ later → later <:+ s.journal →
      (Engine.Scene.of later).jigs[idx]? = some jig) ∧
    s.jigs[idx]? = some jig ∧
    ∀ r, result = .ok r →
      (∃ ls : List Engine.Leaving, r.outputs = ls.filterMap (·.output) ∧
        r.spends = ls.filterMap (·.spend) ∧ ls.length = s.jigs.length ∧
        ls[idx]? = some ⟨Engine.spendOf jig, none⟩) ∧
      ((s.jigs.map (·.origin)).Nodup →
        (∀ o ∈ r.outputs, o.origin ≠ jig.origin) ∧
        ∀ location, jig.previous = some location → ∀ l l' : Ledger, l.store.Consistent →
          l.commit r = .ok l' → ∃ last, l.store.byLocation location = some last ∧
            l.store.byOrigin jig.origin = some last ∧
            ∀ l'', Becomes l' l'' → l''.Entombed jig.origin last) := by
  have lawful : Engine.Lawful c s := by
    have lawful := Engine.lawful_runTransaction c tx
    rwa [run] at lawful
  have ended : s.jigs[idx]? = some jig := by
    rw [← lawful.shows.jigs]
    exact Engine.Scene.frozen_of_suffix lawful.due hs hj frozen
  refine ⟨fun later hp hl => ?_, ended, ?_⟩
  · exact Engine.Scene.frozen_of_suffix (lawful.due.of_suffix hl) hp hj frozen
  rintro r rfl
  refine ⟨?_, fun nodup => ?_⟩
  · obtain ⟨-, ls, settled, outputs, spends⟩ := Engine.runTransaction_eq_ok run
    obtain ⟨l, hl, left⟩ := Engine.Settled.of_getElem? settled ended
    exact ⟨ls, outputs, spends, settled.length_eq.symm, left.leaving_of_frozen frozen ▸ hl⟩
  have unwritten := Engine.unwritten_of_frozen run nodup ended frozen
  refine ⟨unwritten, fun location previous l l' consistent committed => ?_⟩
  have spent : ⟨jig.origin, location⟩ ∈ r.spends :=
    (Engine.mem_spends_iff run).2 ⟨jig, List.mem_of_getElem? ended, rfl, previous⟩
  have applied := (commit_eq_ok.1 committed).2.1
  obtain ⟨last, there, own, found, gone⟩ := consistent.extinct applied spent unwritten
  refine ⟨last, there, found, fun l'' later => .of_extinct own ?_ ?_⟩
  · exact later.store gone (fun _ _ _ => Store.Extinct.insert) fun _ _ _ _ => Store.Extinct.apply
  · exact later.store (consistent.sealed.apply applied) (fun _ _ _ => Store.Sealed.insert)
      fun _ _ _ _ => Store.Sealed.apply

end Final

/-- A jig that was loaded first is frozen in the end, and what has become of it can be committed. -/
def Deed.isBurned (p : Policy) : Deed → Bool
  | committed e =>
    match Engine.contextOf (e.ledger.env p) e.tx with
    | .ok c =>
      let jigs := (Engine.runTransaction c e.tx).2.jigs
      (jigs[0]?.any fun jig => decide (jig.lock = .frozen) && jig.previous.isSome) &&
        decide (jigs.map (·.origin)).Nodup && (e.ledger.commit e.result).isOk
    | .error _ => false
  | deployed _ | minted _ _ _ _ | executed _ => false

/-- A coin that has paid for a transaction is entombed when the result is committed. -/
theorem frozen_final_of_coin :
    ∃ (c : Engine.Context) (tx : Transaction) (r : ExecutionResult) (s : Engine.Session)
      (jig : Engine.TouchedJig) (location : Pointer) (l l' : Ledger) (last : Output),
      Engine.runTransaction c tx = (.ok r, s) ∧ (Engine.Scene.of s.journal).jigs[0]? = some jig ∧
      jig.lock = .frozen ∧ (s.jigs.map (·.origin)).Nodup ∧ jig.previous = some location ∧
      l.store.Consistent ∧ l.commit r = .ok l' ∧ l.store.byLocation location = some last ∧
      l'.Entombed jig.origin last := by
  obtain ⟨l, log, chronicle, collisionless, told⟩ := Till.exists_chronicle
    (fun coin => [⟨[.loadByOrigin coin, .fund 0, .sign [] []]⟩])
    (fun _ log => log.any (Deed.isBurned Till.policy) && log.all fun
      | .committed e => decide (e.result.outputs.map (·.origin)).Nodup
      | _ => true) (by decide +kernel)
  obtain ⟨burned, apart⟩ := Bool.and_eq_true_iff.1 told
  obtain ⟨deed, mem, burned⟩ := List.any_eq_true.1 burned
  cases deed with
  | committed e =>
    have executed := chronicle.executed_of_committed mem
    obtain ⟨done, earlier, hs, before⟩ := chronicle.executed executed
    have consistent : e.ledger.store.Consistent :=
      before.consistent (collisionless.numbers.of_suffix hs) fun e' he' => by
        simpa using List.all_eq_true.1 apart _ (hs.subset he')
    obtain ⟨c, s, context, run⟩ := execute_eq_ok.1 done
    simp only [Deed.isBurned, context, run, Bool.and_eq_true, Option.any_eq_true,
      decide_eq_true_eq] at burned
    obtain ⟨⟨⟨jig, hj, frozen, loaded⟩, nodup⟩, committed⟩ := burned
    obtain ⟨location, previous⟩ := Option.isSome_iff_exists.1 loaded
    rcases applied : e.ledger.commit e.result with f | l'
    · rw [applied] at committed
      cases committed
    have shown : (Engine.Scene.of s.journal).jigs[0]? = some jig := by
      have shows := (Engine.lawful_of_run run).shows.jigs
      rw [Engine.Session.scene] at shows
      rw [shows, hj]
    obtain ⟨-, -, result⟩ := frozen_final run List.suffix_rfl shown frozen
    obtain ⟨last, there, -, entombed⟩ :=
      ((result e.result rfl).2 nodup).2 location previous e.ledger l' consistent applied
    exact ⟨c, e.tx, e.result, s, jig, location, e.ledger, l', last, run, shown, frozen, nodup,
      previous, consistent, applied, there, entombed l' .refl⟩
  | deployed | minted | executed => cases burned

end Ledger

end JigLedger
