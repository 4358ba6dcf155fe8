import JigLedger.Proofs.Engine.Settlement
import JigLedger.Proofs.Engine.Soundness
import JigLedger.Proofs.Store
import Mathlib.Data.List.Nodup

/-!
# Where touched jigs come from

A touched jig that is not new was loaded from an output in the store, and it keeps the place and the
class of this output. So what a transaction spends was in the store when it ran, and a jig that is
written down again has the class that it had before.
-/

namespace JigLedger.Engine

variable {c : Context} {s : Session}

/-- An output that a transaction may load. -/
def Stored (c : Context) (o : Output) : Prop :=
  (∃ origin, c.env.store.byOrigin origin = some o) ∨
    ∃ location, c.env.store.byLocation location = some o

/-- A jig was loaded from an output, whatever its lock is now. -/
def Stems (c : Context) (v : Scene) (jig : TouchedJig) : Prop :=
  ∃ o lock, Stored c o ∧ Loaded c o v.instances { jig with lock := lock }

/-- The jigs that are not new stem from outputs, and the packages that run are on offer. -/
structure Scene.Sourced (c : Context) (v : Scene) : Prop where
  jigs : ∀ jig ∈ v.jigs, jig.previous = none ∨ Stems c v jig
  instances : ∀ inst ∈ v.instances, Offered c inst.package

/-- A jig is in its package also when more packages run. -/
theorem Loaded.append {o : Output} {instances : List PackageInstance} {jig : TouchedJig}
    (h : Loaded c o instances jig) (more : List PackageInstance) :
    Loaded c o (instances ++ more) jig := by
  obtain ⟨inst, hi, isOf⟩ := h.home
  refine { h with home := ⟨inst, ?_, isOf⟩ }
  rw [List.getElem?_append_left (List.getElem?_eq_some_iff.1 hi).1, hi]

/-- A jig that is made is new, or it stems from an output. -/
theorem Made.stems {v : Scene} {asked : Pointer} {jig : TouchedJig}
    (h : Made c v.instances asked jig) : jig.previous = none ∨ Stems c v jig := by
  cases h with
  | constructed _ previous => exact .inl previous
  | latest o stored loaded => exact .inr ⟨o, jig.lock, .inl ⟨asked, stored⟩, loaded⟩
  | located o location stored _ loaded => exact .inr ⟨o, jig.lock, .inr ⟨location, stored⟩, loaded⟩

/-- A new lock does not change where jigs come from. -/
theorem Scene.Sourced.withLock {v : Scene} (h : v.Sourced c) (idx : Nat) (lock : Lock) :
    (v.withLock idx lock).Sourced c := by
  refine ⟨fun jig hj => ?_, h.instances⟩
  obtain ⟨i, hi⟩ := List.mem_iff_getElem?.1 hj
  rw [Scene.withLock, List.getElem?_modify] at hi
  obtain ⟨old, ho, rfl⟩ := Option.map_eq_some_iff.1 hi
  have sourced := h.jigs old (List.mem_of_getElem? ho)
  split
  · exact sourced
  · exact sourced

/-- Every event leaves jigs that stem from outputs, if it was due. -/
theorem Scene.Sourced.after {v : Scene} {e : Event} (h : v.Sourced c) (due : Due c v e) :
    (v.after e).Sourced c := by
  cases e
  case started inst =>
    refine ⟨fun jig hj => ?_, fun i hi => ?_⟩
    · refine (h.jigs jig hj).imp id fun ⟨o, lock, stored, loaded⟩ => ?_
      exact ⟨o, lock, stored, loaded.append [inst]⟩
    · rcases List.mem_append.1 hi with hi | hi
      · exact h.instances i hi
      · cases List.mem_singleton.1 hi
        exact due.2
  case made jig =>
    refine ⟨fun j hj => ?_, h.instances⟩
    rcases List.mem_append.1 hj with hj | hj
    · exact h.jigs j hj
    · cases List.mem_singleton.1 hj
      obtain ⟨asked, -, made⟩ := due
      exact made.stems
  case relocked idx lock => exact h.withLock idx lock
  case spent idx => exact h.withLock idx .frozen
  all_goals exact ⟨h.jigs, h.instances⟩

/-- At the end of a transaction, too, the jigs that are not new stem from outputs. -/
theorem Lawful.sourced (lawful : Lawful c s) : s.scene.Sourced c :=
  lawful.due.scene ⟨nofun, nofun⟩ fun _ _ h due => h.after due

/-- A stored lock that can be taken up is not frozen. -/
theorem not_frozen_of_storedLock {o : Output} {lock : Lock} (h : Host.storedLock o = .ok lock) :
    o.lock.kind ≠ LockKind.frozen.code := by
  intro frozen
  obtain ⟨found, read, thawed⟩ := bind_eq_ok.1 h
  rw [Lock.ofRecord, frozen, LockKind.ofCode?_code] at read
  simp only [Lock.ofKind?] at read
  rcases he : o.lock.data.isEmpty <;> simp only [he] at read <;> cases read
  cases thawed

/-- An output that was loaded is at its location. -/
theorem Stored.byLocation {o : Output} {lock : Lock} (h : Stored c o)
    (consistent : c.env.store.Consistent) (locked : Host.storedLock o = .ok lock) :
    c.env.store.byLocation o.location = some o := by
  rcases h with ⟨origin, found⟩ | ⟨location, found⟩
  · exact (consistent.byOrigin found).2.resolve_right (not_frozen_of_storedLock locked)
  · rw [(consistent.byLocation found).1]
    exact found

/-- A jig that was loaded and is written down again keeps its class. -/
theorem Loaded.classPtr_eq {jig : TouchedJig} {last o : Output} {lock : Lock} {l : Leaving}
    (loaded : Loaded c last s.scene.instances { jig with lock := lock }) (lawful : Lawful c s)
    (registry : c.env.registry.Sound) (settled : Settled s.instances jig l)
    (written : l.output = some o) : o.classPtr = last.classPtr := by
  obtain ⟨inst, cls, hinst, hcls, ptr⟩ := settled.cls o written
  obtain ⟨inst', hinst', isOf⟩ := loaded.home
  rw [lawful.shows.instances, hinst] at hinst'
  cases hinst'
  have offered := lawful.sourced.instances inst (by
    rw [lawful.shows.instances]
    exact List.mem_of_getElem? hinst)
  have built : inst.package.IsBuilt := offered.elim (fun ⟨id, found⟩ => (registry id _ found).2) id
  have id_eq : inst.package.id = ⟨last.classPtr.id⟩ :=
    isOf.elim id fun found => (registry _ _ found).1
  have idx : jig.classIdx = last.classPtr.idx.toNat := loaded.cls
  rw [ptr, built.ref_package hcls, id_eq, idx, UInt32.ofNat_toNat]
  rfl

section Result

variable {tx : Transaction} {r : ExecutionResult} (consistent : c.env.store.Consistent)
  (run : runTransaction c tx = (.ok r, s))

include run

theorem lawful_of_run : Lawful c s := by
  have lawful := lawful_runTransaction c tx
  rwa [run] at lawful

/-- A transaction spends the places that its jigs were loaded from. -/
theorem mem_spends_iff {spend : Spend} :
    spend ∈ r.spends ↔ ∃ jig ∈ s.jigs, jig.origin = spend.origin ∧
      jig.previous = some spend.location := by
  obtain ⟨-, ls, settled, -, spends⟩ := runTransaction_eq_ok run
  rw [spends, Settled.spends_eq settled]
  simp only [List.mem_filterMap, spendOf, Option.map_eq_some_iff]
  constructor
  · rintro ⟨jig, hj, location, previous, rfl⟩
    exact ⟨jig, hj, rfl, previous⟩
  · rintro ⟨jig, hj, same, previous⟩
    exact ⟨jig, hj, spend.location, previous, by rw [same]⟩

/-- An output is that of a new jig, or it goes on with an output that the transaction has loaded. -/
theorem new_or_kept_of_run (registry : c.env.registry.Sound) {o : Output} (ho : o ∈ r.outputs) :
    (∃ jig ∈ s.jigs, jig.origin = o.origin ∧ jig.previous = none ∧ o.location = o.origin) ∨
      ∃ last lock, Stored c last ∧ Host.storedLock last = .ok lock ∧ last.origin = o.origin ∧
        last.classPtr = o.classPtr := by
  obtain ⟨-, ls, settled, outputs, -⟩ := runTransaction_eq_ok run
  rw [outputs] at ho
  obtain ⟨jig, hj, l, settled, written⟩ := Settled.of_output settled ho
  have origin := settled.origin o written
  have lawful := lawful_of_run run
  have sourced := lawful.sourced.jigs jig (by rwa [lawful.shows.jigs])
  rcases sourced with new | ⟨last, lock, stored, loaded⟩
  · exact .inl ⟨jig, hj, origin.symm, new, (settled.place o written new).trans origin.symm⟩
  · exact .inr ⟨last, lock, stored, loaded.lock, loaded.origin.symm.trans origin.symm,
      (loaded.classPtr_eq lawful registry settled written).symm⟩

/-- A jig that is spent has been loaded. -/
theorem stored_of_spent {spend : Spend} (hs : spend ∈ r.spends) :
    ∃ o lock, Stored c o ∧ Host.storedLock o = .ok lock ∧ o.origin = spend.origin ∧
      o.location = spend.location := by
  obtain ⟨jig, hj, same, previous⟩ := (mem_spends_iff run).1 hs
  have lawful := lawful_of_run run
  rw [← lawful.shows.jigs] at hj
  rcases lawful.sourced.jigs jig hj with new | ⟨o, lock, stored, loaded⟩
  · rw [new] at previous
    cases previous
  · exact ⟨o, lock, stored, loaded.lock, loaded.origin.symm.trans same,
      Option.some.inj (loaded.previous.symm.trans previous)⟩

include consistent

/-- What a transaction spends was in the store, at the place that the spend names. -/
theorem spent_of_run {spend : Spend} (hs : spend ∈ r.spends) :
    ∃ o, c.env.store.byLocation spend.location = some o ∧ o.origin = spend.origin := by
  obtain ⟨o, lock, stored, locked, origin, place⟩ := stored_of_spent run hs
  exact ⟨o, place ▸ stored.byLocation consistent locked, origin⟩

/-- A jig that was loaded and is written down again keeps the class of the output that it was loaded
from, as long as no other touched jig has its origin. -/
theorem replaced_of_run (registry : c.env.registry.Sound) (nodup : (s.jigs.map (·.origin)).Nodup)
    {o : Output} (ho : o ∈ r.outputs) (spent : o.origin ∈ r.spentOrigins) :
    ∃ spend ∈ r.spends, ∃ last, c.env.store.byLocation spend.location = some last ∧
      last.origin = o.origin ∧ last.classPtr = o.classPtr := by
  obtain ⟨-, ls, settled, outputs, -⟩ := runTransaction_eq_ok run
  rw [outputs] at ho
  obtain ⟨jig, hj, l, settled, written⟩ := Settled.of_output settled ho
  obtain ⟨spend, hs, same⟩ := List.mem_map.1 spent
  obtain ⟨other, hother, key, previous⟩ := (mem_spends_iff run).1 hs
  -- The spend and the output could be those of two touched jigs if they had the same origin.
  obtain rfl : other = jig := List.inj_on_of_nodup_map nodup hother hj
    (key.trans (same.trans (settled.origin o written)))
  have lawful := lawful_of_run run
  have hv := hj
  rw [← lawful.shows.jigs] at hv
  rcases lawful.sourced.jigs other hv with new | ⟨last, lock, stored, loaded⟩
  · rw [new] at previous
    cases previous
  exact ⟨⟨other.origin, last.location⟩, (mem_spends_iff run).2 ⟨other, hj, rfl, loaded.previous⟩,
    last, stored.byLocation consistent loaded.lock,
    loaded.origin.symm.trans (settled.origin o written).symm,
    (loaded.classPtr_eq lawful registry settled written).symm⟩

end Result

end JigLedger.Engine
