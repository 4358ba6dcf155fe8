import JigLedger.Proofs.Engine.Opening
import JigLedger.Proofs.Engine.Origins

/-!
# Paying for a transaction

The first instruction that has to do with payment has to pay, and its coin is a jig that one of the
instructions before it has loaded. From then on the coin is frozen: no lock is replaced that is
frozen, and no other jig is made that has its origin. So a transaction that has been paid for spends
an output that it asks for itself, and it writes nothing down for the jig of this output.
-/

namespace JigLedger.Engine

variable {c : Context} {s t u : Session} {origin : Pointer}

/-! ### Frozen jigs -/

/-- A jig has been touched and is frozen, and it is not being made again. -/
structure Scene.Sunk (v : Scene) (origin : Pointer) : Prop where
  touched : ∃ jig ∈ v.jigs, jig.origin = origin
  frozen : ∀ jig ∈ v.jigs, jig.origin = origin → jig.lock = .frozen
  making : origin ∉ v.making

/-- A frozen jig stays as it is when a jig that is not frozen gets another lock. -/
theorem Scene.Sunk.withLock {v : Scene} (h : v.Sunk origin) {idx : Nat} {lock : Lock}
    {jig : TouchedJig} (hj : v.jigs[idx]? = some jig) (thawed : jig.lock ≠ .frozen) :
    (v.withLock idx lock).Sunk origin := by
  have other : jig.origin ≠ origin := fun same =>
    thawed (h.frozen jig (List.mem_of_getElem? hj) same)
  refine ⟨?_, fun k hk same => ?_, h.making⟩
  · obtain ⟨k, hk, same⟩ := h.touched
    have mem : k.origin ∈ (v.withLock idx lock).jigs.map (·.origin) := by
      rw [Scene.withLock, map_origin_modify_lock]
      exact List.mem_map_of_mem hk
    obtain ⟨k', hk', same'⟩ := List.mem_map.1 mem
    exact ⟨k', hk', same'.trans same⟩
  · obtain ⟨i, hi⟩ := List.mem_iff_getElem?.1 hk
    rw [Scene.withLock, List.getElem?_modify] at hi
    obtain ⟨old, ho, rfl⟩ := Option.map_eq_some_iff.1 hi
    split at same
    case isTrue here =>
      subst here
      rw [hj] at ho
      cases ho
      exact absurd same other
    case isFalse elsewhere =>
      rw [if_neg elsewhere]
      exact h.frozen old (List.mem_of_getElem? ho) same

/-- A frozen jig stays frozen. -/
theorem Scene.Sunk.after {v : Scene} {e : Event} (keyed : c.env.store.Keyed) (h : v.Sunk origin)
    (due : Due c v e) : (v.after e).Sunk origin := by
  cases e
  case making asked =>
    refine ⟨h.touched, h.frozen, fun mem => ?_⟩
    rcases List.mem_cons.1 mem with rfl | mem
    · obtain ⟨jig, hj, same⟩ := h.touched
      exact due jig hj same
    · exact h.making mem
  case made jig =>
    obtain ⟨asked, head, made⟩ := due
    have other : jig.origin ≠ origin := by
      rintro rfl
      rw [made.origin_eq keyed] at h
      exact h.making (List.mem_of_mem_head? head)
    obtain ⟨k, hk, same⟩ := h.touched
    refine ⟨⟨k, List.mem_append_left _ hk, same⟩, fun k hk same => ?_, fun mem =>
      h.making (List.mem_of_mem_tail mem)⟩
    rcases List.mem_append.1 hk with hk | hk
    · exact h.frozen k hk same
    · cases List.mem_singleton.1 hk
      exact absurd same other
  case relocked idx lock =>
    obtain ⟨jig, hj, granted⟩ := due
    refine h.withLock hj fun frozen => ?_
    rw [frozen] at granted
    cases granted
  case spent idx =>
    obtain ⟨jig, hj, granted⟩ := due
    refine h.withLock hj fun frozen => ?_
    rw [frozen] at granted
    cases granted
  all_goals exact ⟨h.touched, h.frozen, h.making⟩

/-- A jig that is frozen is so later on. -/
theorem Scene.Sunk.later (keyed : c.env.store.Keyed) {past later : List Event}
    (h : (Scene.of past).Sunk origin) (due : Throughout (Due c) (later ++ past)) :
    (Scene.of (later ++ past)).Sunk origin := by
  induction later with
  | nil => exact h
  | cons e later ih => exact (ih due.2).after keyed due.1

/-! ### Paying -/

/-- A touched jig is found where it is. -/
theorem runFrom_resolve_touched {idx : Nat} (touched : s.jigIndex? origin = some idx) :
    runFrom s ((host c).resolve origin) = (.ok idx, s) := by
  rw [Host.resolve, Host.loadLatest, touch, runFrom_bind_of_ok (runFrom_get s), touched]
  rfl

/-- The only jig with its origin is frozen once it has been spent. -/
theorem Scene.sunk_spent {v : Scene} (making : v.making = []) (nodup : v.origins.Nodup) {idx : Nat}
    {jig : TouchedJig} (hj : v.jigs[idx]? = some jig) :
    (v.after (.spent idx)).Sunk jig.origin := by
  have at_index (i : Nat) : (v.after (.spent idx)).jigs[i]? =
      (v.jigs[i]?).map fun j => if idx = i then { j with lock := .frozen } else j := by
    simp only [Scene.after, Scene.withLock, List.getElem?_modify]
    rfl
  have here : (v.after (.spent idx)).jigs[idx]? = some { jig with lock := .frozen } := by
    rw [at_index, hj, Option.map_some, if_pos rfl]
  refine ⟨⟨_, List.mem_of_getElem? here, rfl⟩, fun k hk same => ?_, ?_⟩
  · obtain ⟨i, hi⟩ := List.mem_iff_getElem?.1 hk
    rw [at_index] at hi
    obtain ⟨old, ho, rfl⟩ := Option.map_eq_some_iff.1 hi
    split at same
    case isTrue here => rw [if_pos here]
    case isFalse elsewhere => exact absurd (index_eq_of_nodup nodup hj ho same.symm) elsewhere
  · rw [show (v.after (.spent idx)).making = v.making from rfl, making]
    exact List.not_mem_nil

/-- A statement that is a jig. -/
theorem runFrom_jigStatement_eq_ok {idx : UInt16}
    (run : runFrom s (jigStatement idx) = (.ok origin, t)) :
    s.statements[idx.toNat]? = some (.jig origin) ∧ t = s := by
  obtain ⟨found, _, looked, rest⟩ := runFrom_bind_eq_ok run
  obtain ⟨_, _, got, missing⟩ := runFrom_bind_eq_ok looked
  cases got
  obtain ⟨stated, rfl⟩ := runFrom_orMissing_eq_ok.1 missing
  cases found <;> cases rest
  exact ⟨stated, rfl⟩

/-- A jig that an instruction has loaded is among those that were touched. -/
theorem Opened.touched {start : Nat} {done : List Instruction} (opened : Opened c start done s)
    {i : Instruction} (mem : i ∈ done) (isLoad : i.isLoad = true) :
    ∃ (idx : Nat) (jig : TouchedJig), s.jigs[idx]? = some jig ∧ Brings c i jig := by
  obtain ⟨length, brings⟩ := List.forall₂_iff_get.1 opened.jigs
  obtain ⟨idx, hi, rfl⟩ := List.mem_iff_getElem.1 (List.mem_filter.2 ⟨mem, isLoad⟩)
  have hj : idx < s.jigs.length := length ▸ hi
  exact ⟨idx, s.jigs[idx], List.getElem?_eq_getElem hj, brings idx hi hj⟩

/-- The first instruction that has to do with payment pays with a jig that has been loaded. -/
theorem Opened.fund {start : Nat} {done : List Instruction} (opened : Opened c start done s)
    {i : Instruction} {statement : Statement} (paid : i.isPaid = true)
    (run : runFrom s ((host c).instruction i) = (.ok statement, t)) :
    ∃ load ∈ done, load.isLoad = true ∧ ∃ (idx : Nat) (jig : TouchedJig) (amount : UInt64),
      s.jigs[idx]? = some jig ∧ Brings c load jig ∧ t = s.spent idx amount := by
  obtain ⟨needs, performed⟩ := runFrom_instruction_eq_ok run
  cases i
  case fund coin =>
    obtain ⟨_, _, funding, returned⟩ := runFrom_bind_eq_ok performed
    cases returned
    obtain ⟨origin, _, stated, resolving⟩ := runFrom_bind_eq_ok funding
    obtain ⟨hs, rfl⟩ := runFrom_jigStatement_eq_ok stated
    obtain ⟨length, gives⟩ := List.forall₂_iff_get.1 opened.statements
    obtain ⟨hlt, given⟩ := List.getElem?_eq_some_iff.1 hs
    have hdone : coin.toNat < done.length := length ▸ hlt
    obtain ⟨isLoad, o, loaded, key⟩ := gives coin.toNat hdone hlt origin given
    have mem : done[coin.toNat] ∈ done := List.getElem_mem hdone
    obtain ⟨idx, jig, hj, brings⟩ := opened.touched mem isLoad
    have same : jig.origin = origin := by
      obtain ⟨o', loaded', -, origin', -⟩ := brings
      rw [List.get_eq_getElem, loaded'] at loaded
      cases loaded
      exact origin'.trans key
    have found := Session.jigIndex?_of_nodup opened.nodup hj
    obtain ⟨idx', _, resolved, paying⟩ := runFrom_bind_eq_ok resolving
    rw [runFrom_resolve_touched (same ▸ found)] at resolved
    cases resolved
    obtain ⟨jig', amount, -, -, -, -, rfl⟩ := runFrom_pay_eq_ok.1 paying
    exact ⟨_, mem, isLoad, idx, jig, amount, hj, brings, rfl⟩
  case importPackage | load | loadByOrigin | sign | signTo => cases paid
  all_goals
    have funded := needs rfl
    rw [opened.funded] at funded
    cases funded

/-- After a transaction that has been paid for, a jig is frozen that one of its instructions has
loaded. -/
theorem sunk_of_run {tx : Transaction} {r : ExecutionResult} (keyed : c.env.store.Keyed)
    (run : runTransaction c tx = (.ok r, u)) {i : Instruction} (mem : i ∈ tx.instructions)
    (paid : i.isPaid = true) :
    ∃ load ∈ tx.instructions, load.isLoad = true ∧ ∃ o, load.loaded? c.env.store = some o ∧
      u.scene.Sunk o.origin := by
  obtain ⟨fuels, v, ran, finalized⟩ := runTransaction_eq_ok_steps run
  obtain ⟨first, hfirst⟩ : ∃ first, tx.instructions.find? (·.isPaid) = some first :=
    Option.isSome_iff_exists.1 (List.find?_isSome.2 ⟨i, mem, paid⟩)
  obtain ⟨pays, earlier, later, split, free⟩ := List.find?_eq_some_iff_append.1 hfirst
  rw [split] at ran
  obtain ⟨_, s, _, before, ran⟩ := runFrom_steps_append_eq_ok ran
  obtain ⟨_, t, _, here, after⟩ := runFrom_steps_cons_eq_ok ran
  have free : ∀ i ∈ earlier, i.isPaid = false := fun i hi => by simpa using free i hi
  have opened := (opened_start c _ tx.size).steps keyed free before
  rw [List.nil_append] at opened
  obtain ⟨lawful, idle, -⟩ := after_steps (lawful_start c _ _) (idle_start _ _) before
  obtain ⟨lawful', idle'⟩ := after_step lawful idle here
  obtain ⟨statement, w, performed, rfl⟩ := runFrom_step_eq_ok here
  obtain ⟨load, hload, isLoad, idx, jig, amount, hj, ⟨o, loaded, -, origin, -⟩, rfl⟩ :=
    opened.began.fund pays performed
  refine ⟨load, split ▸ List.mem_append_left _ hload, isLoad, o, loaded, ?_⟩
  -- Right after the payment the coin is frozen, and so it is in the end.
  have began : Lawful c (s.began (0 + earlier.length)) :=
    lawful.began ⟨idle.frames, idle.making, idle.starting, idle.running⟩
  have nodup : (s.began (0 + earlier.length)).scene.origins.Nodup := by
    rw [Scene.origins, began.shows.jigs]
    exact opened.nodup
  have making : (s.began (0 + earlier.length)).scene.making = [] := idle.making
  have now : (Scene.of (.spent idx :: (s.began (0 + earlier.length)).journal)).Sunk jig.origin :=
    Scene.sunk_spent making nodup (began.shows.jigs ▸ hj)
  obtain ⟨-, -, grown⟩ := after_steps lawful' idle' after
  have quiet := Quietly.finalize c v
  rw [finalized] at quiet
  obtain ⟨events, journal⟩ := (grown.trans quiet.grown).journal
  have due := (lawful_of_run run).due
  rw [← journal] at due
  rw [Session.scene, ← journal, ← origin]
  exact now.later keyed due

/-- A transaction that has been paid for asks itself for an output that it spends, and it writes
nothing down for the jig of this output. -/
theorem coin_of_run {tx : Transaction} {r : ExecutionResult} (keyed : c.env.store.Keyed)
    (run : runTransaction c tx = (.ok r, u)) {i : Instruction} (mem : i ∈ tx.instructions)
    (paid : i.isPaid = true) :
    ∃ load ∈ tx.instructions, load.isLoad = true ∧ ∃ o, load.loaded? c.env.store = some o ∧
      ⟨o.origin, o.location⟩ ∈ r.spends ∧ ∀ written ∈ r.outputs, written.origin ≠ o.origin := by
  obtain ⟨load, hload, isLoad, o, loaded, sunk⟩ := sunk_of_run keyed run mem paid
  obtain ⟨o', -, loaded', -, spent⟩ := loaded_of_run keyed run hload isLoad
  cases loaded.symm.trans loaded'
  refine ⟨load, hload, isLoad, o, loaded, spent, fun written hw same => ?_⟩
  obtain ⟨-, ls, settled, outputs, -⟩ := runTransaction_eq_ok run
  rw [outputs] at hw
  obtain ⟨jig, hj, l, settled, left⟩ := Settled.of_output settled hw
  rw [← (lawful_of_run run).shows.jigs] at hj
  have frozen := sunk.frozen jig hj ((settled.origin written left).symm.trans same)
  rw [settled.frozen (by rw [frozen]; rfl)] at left
  cases left

end JigLedger.Engine
