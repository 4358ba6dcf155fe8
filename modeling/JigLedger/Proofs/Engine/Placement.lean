import JigLedger.Proofs.Engine.Numbering
import JigLedger.Proofs.Engine.Provenance

/-!
# Where outputs are placed

A new jig is written down at its origin, and one that was loaded at the next pointer. So no two
outputs of a transaction have the same place, as long as its pointers have different numbers. A
transaction that has not been paid for has no new jigs, and nothing freezes those that it loads: it
writes down one output for each of them, at places that do not depend on the store.
-/

namespace JigLedger.Engine

variable {c : Context} {s t u : Session}

/-! ### Writing jigs down -/

/-- A jig is written down at its origin if it is new, and at the next pointer if it was loaded. -/
theorem runFrom_settle_places {jig : TouchedJig} {l : Leaving}
    (run : runFrom s (settle c jig) = (.ok l, t)) :
    (l.output = none ∧ t.nextIndex = s.nextIndex) ∨ ∃ o, l.output = some o ∧
      (jig.fresh? = some o.location ∧ t.nextIndex = s.nextIndex ∨ jig.fresh? = none ∧
        o.location = c.pointer s.nextIndex ∧ t.nextIndex = s.nextIndex + 1) := by
  obtain ⟨-, rfl, rfl⟩ | ⟨-, lock, cls, state, location, -, rfl, placed⟩ :=
    runFrom_settle_eq_ok run
  · exact .inl ⟨rfl, rfl⟩
  · refine .inr ⟨_, rfl, ?_⟩
    obtain ⟨new, rfl, rfl⟩ | ⟨old, rfl, rfl⟩ := placed
    · exact .inl ⟨if_pos new, rfl⟩
    · exact .inr ⟨if_neg old, rfl, rfl⟩

/-- Outputs of jigs with numbers of their own are placed at numbers of their own. -/
theorem runFrom_mapM_settle_numbers : ∀ {jigs : List TouchedJig} {s : Session} {ls : List Leaving}
    {ks : List Nat}, runFrom s (jigs.mapM (settle c)) = (.ok ls, t) →
      jigs.filterMap (·.fresh?) = ks.map c.pointer → ks.Nodup → (∀ k ∈ ks, k < s.nextIndex) →
      s.nextIndex ≤ t.nextIndex ∧ ∃ ms : List Nat, ms.Nodup ∧
        (ls.filterMap (·.output)).map (·.location) = ms.map c.pointer ∧
        ∀ m ∈ ms, m ∈ ks ∨ s.nextIndex ≤ m ∧ m < t.nextIndex
  | [], s, ls, ks, run, _, _, _ => by
    simp only [List.mapM_nil] at run
    cases run
    exact ⟨Nat.le_refl _, [], .nil, rfl, nofun⟩
  | jig :: jigs, s, _, ks, run, fresh, nodup, low => by
    simp only [List.mapM_cons] at run
    obtain ⟨l, v, settled, rest⟩ := runFrom_bind_eq_ok run
    obtain ⟨ls, _, others, returned⟩ := runFrom_bind_eq_ok rest
    cases returned
    rcases hf : jig.fresh? with _ | origin
    · rw [List.filterMap_cons_none hf] at fresh
      obtain ⟨left, same⟩ | ⟨o, left, ⟨new, -⟩ | ⟨-, place, next⟩⟩ :=
        runFrom_settle_places settled
      · rw [List.filterMap_cons_none left, ← same]
        exact runFrom_mapM_settle_numbers others fresh nodup (same ▸ low)
      · rw [hf] at new
        cases new
      · obtain ⟨le, ms, nodup', places, mem⟩ := runFrom_mapM_settle_numbers others fresh nodup
          fun k hk => next ▸ Nat.lt_succ_of_lt (low k hk)
        refine ⟨by omega, s.nextIndex :: ms, List.nodup_cons.2 ⟨fun hm => ?_, nodup'⟩, ?_, ?_⟩
        · rcases mem _ hm with hk | range
          · exact Nat.lt_irrefl _ (low _ hk)
          · omega
        · rw [List.filterMap_cons_some left, List.map_cons, List.map_cons, place, places]
        · rintro m (_ | ⟨_, hm⟩)
          · exact .inr ⟨Nat.le_refl _, by omega⟩
          · exact (mem m hm).imp_right fun range => ⟨by omega, range.2⟩
    · rw [List.filterMap_cons_some hf] at fresh
      obtain ⟨k, ks, rfl, rfl, others'⟩ := List.map_eq_cons_iff.1 fresh.symm
      rw [List.nodup_cons] at nodup
      have next (same : v.nextIndex = s.nextIndex) := runFrom_mapM_settle_numbers others
        others'.symm nodup.2 fun k' hk => same ▸ low k' (.tail _ hk)
      rcases runFrom_settle_places settled with ⟨left, same⟩ | ⟨o, left, ⟨new, same⟩ | ⟨old, -⟩⟩
      · obtain ⟨le, ms, nodup', places, mem⟩ := next same
        rw [List.filterMap_cons_none left, ← same]
        exact ⟨le, ms, nodup', places, fun m hm => (mem m hm).imp_left (.tail _)⟩
      · obtain ⟨le, ms, nodup', places, mem⟩ := next same
        rw [hf] at new
        refine ⟨by omega, k :: ms, List.nodup_cons.2 ⟨fun hm => ?_, nodup'⟩, ?_, ?_⟩
        · have below := low k (.head _)
          rcases mem _ hm with hk | range
          · exact nodup.1 hk
          · omega
        · rw [List.filterMap_cons_some left, List.map_cons, List.map_cons, places,
            Option.some.inj new]
        · rintro m (_ | ⟨_, hm⟩)
          · exact .inl (.head _)
          · exact (mem m hm).imp (.tail _) fun range => ⟨by omega, range.2⟩
      · rw [hf] at old
        cases old

/-- Jigs that were loaded and are not frozen are written down one after the other. -/
theorem runFrom_mapM_settle_loaded : ∀ {jigs : List TouchedJig} {s : Session} {ls : List Leaving},
    runFrom s (jigs.mapM (settle c)) = (.ok ls, t) →
      (∀ jig ∈ jigs, jig.previous ≠ none ∧ jig.lock.isFrozen = false) →
      (ls.filterMap (·.output)).map (·.location) =
        (List.range' s.nextIndex jigs.length).map c.pointer ∧
      List.Forall₂ (fun jig o => o.origin = jig.origin) jigs (ls.filterMap (·.output))
  | [], s, ls, run, _ => by
    simp only [List.mapM_nil] at run
    cases run
    exact ⟨rfl, .nil⟩
  | jig :: jigs, s, _, run, loaded => by
    simp only [List.mapM_cons] at run
    obtain ⟨l, v, settled, rest⟩ := runFrom_bind_eq_ok run
    obtain ⟨ls, _, others, returned⟩ := runFrom_bind_eq_ok rest
    cases returned
    obtain ⟨old, thawed⟩ := loaded jig (.head _)
    obtain ⟨frozen, -, -⟩ | ⟨-, lock, cls, state, location, -, rfl, placed⟩ :=
      runFrom_settle_eq_ok settled
    · rw [thawed] at frozen
      cases frozen
    obtain ⟨-, rfl, rfl⟩ := placed.resolve_left fun new => old new.1
    obtain ⟨places, origins⟩ := runFrom_mapM_settle_loaded others fun j hj => loaded j (.tail _ hj)
    exact ⟨congrArg (c.pointer s.nextIndex :: ·) places, .cons rfl origins⟩

/-! ### Results -/

/-- A stored lock that can be taken up is rebuilt from the record of its own jig, and not frozen. -/
theorem storedLock_eq_ok {o : Output} {lock : Lock} (h : Host.storedLock o = .ok lock) :
    Lock.ofRecord o.lock = .ok lock ∧ lock.isFrozen = false ∧ o.lock.origin = o.origin := by
  obtain ⟨found, read, checked⟩ := bind_eq_ok.1 h
  split at checked
  case isTrue => cases checked
  case isFalse thawed =>
    split at checked
    case isTrue => cases checked
    case isFalse named =>
      cases checked
      exact ⟨read, by simpa using thawed, not_not.1 named⟩

/-- A lock that is not frozen is rebuilt from its record, if the record is that of the jig. -/
theorem storedLock_of_thawed {o : Output} {lock : Lock} (rebuilt : Lock.ofRecord o.lock = .ok lock)
    (thawed : lock ≠ .frozen) (origin : o.lock.origin = o.origin) :
    Host.storedLock o = .ok lock := by
  have usable : lock.isFrozen = false := by cases lock <;> first | rfl | exact absurd rfl thawed
  refine bind_eq_ok.2 ⟨lock, rebuilt, ?_⟩
  rw [usable, if_neg Bool.false_ne_true, if_neg (not_not.2 origin)]

/-- Nothing makes or freezes jigs before a transaction has been paid for. -/
theorem Opened.loaded {start : Nat} {done : List Instruction} (opened : Opened c start done s) :
    ∀ jig ∈ s.jigs, jig.previous ≠ none ∧ jig.lock.isFrozen = false := by
  obtain ⟨length, brings⟩ := List.forall₂_iff_get.1 opened.jigs
  intro jig hj
  obtain ⟨idx, hi, rfl⟩ := List.mem_iff_getElem.1 hj
  obtain ⟨o, -, locked, -, previous⟩ := brings idx (length ▸ hi) hi
  refine ⟨fun new => ?_, (storedLock_eq_ok locked).2.1⟩
  rw [List.get_eq_getElem, new] at previous
  cases previous

section Result

variable {tx : Transaction} {r : ExecutionResult} (run : runTransaction c tx = (.ok r, u))

include run

/-- In the end all touched jigs are written down. -/
theorem settled_of_run : ∃ fuels v ls,
    runFrom (.start c.env.config.fuelLimit tx.size) (steps (host c) 0 tx.instructions) =
      (.ok fuels, v) ∧
    runFrom v (v.jigs.mapM (settle c)) = (.ok ls, u) ∧ r.outputs = ls.filterMap (·.output) ∧
      r.spends = ls.filterMap (·.spend) := by
  obtain ⟨fuels, v, ran, finalized⟩ := runTransaction_eq_ok_steps run
  obtain ⟨_, _, looked, settling⟩ := runFrom_bind_eq_ok finalized
  cases looked
  obtain ⟨ls, _, settled, returned⟩ := runFrom_bind_eq_ok settling
  simp only [runFrom_pure, Prod.mk.injEq, Except.ok.injEq] at returned
  obtain ⟨⟨outputs, spends⟩, rfl⟩ := returned
  exact ⟨fuels, v, ls, ran, settled, outputs.symm, spends.symm⟩

/-- The jigs that have been touched in the end are those after the last instruction. -/
theorem jigs_of_run : ∃ fuels v,
    runFrom (.start c.env.config.fuelLimit tx.size) (steps (host c) 0 tx.instructions) =
      (.ok fuels, v) ∧ v.jigs = u.jigs := by
  obtain ⟨fuels, v, ls, ran, settled, -, -⟩ := settled_of_run run
  have quiet := Quietly.mapM (Quietly.settle c) v.jigs v
  rw [settled] at quiet
  exact ⟨fuels, v, ran, quiet.jigs.symm⟩

/-- Each output is the record of a touched jig that is not frozen. -/
theorem recorded_of_run {o : Output} (ho : o ∈ r.outputs) :
    ∃ jig ∈ u.jigs, ∃ v lock cls state location, v.instances = u.instances ∧
      jig.lock.isFrozen = false ∧ Recorded v jig lock cls state ∧
      o = outputOf jig lock cls state location := by
  obtain ⟨-, v, ls, -, settled, outputs, -⟩ := settled_of_run run
  have quiet := Quietly.mapM (Quietly.settle c) v.jigs v
  rw [settled] at quiet
  rw [outputs] at ho
  rw [quiet.jigs, quiet.instances]
  exact runFrom_mapM_settle_recorded settled o ho

/-- A touched jig that is not frozen is written down. -/
theorem exists_output_of_run {jig : TouchedJig} (hj : jig ∈ u.jigs)
    (thawed : jig.lock.isFrozen = false) : ∃ o ∈ r.outputs, o.origin = jig.origin := by
  obtain ⟨-, v, ls, -, settled, outputs, -⟩ := settled_of_run run
  have quiet := Quietly.mapM (Quietly.settle c) v.jigs v
  rw [settled] at quiet
  obtain ⟨l, hl, w, x, left⟩ := exists_of_runFrom_mapM settled jig (quiet.jigs ▸ hj)
  obtain ⟨frozen, -⟩ | ⟨-, lock, cls, state, location, -, rfl, -⟩ := runFrom_settle_eq_ok left
  · rw [thawed] at frozen
    cases frozen
  · rw [outputs]
    exact ⟨_, List.mem_filterMap.2 ⟨_, hl, rfl⟩, rfl⟩

/-- Outputs are placed at pointers of the transaction with different numbers. -/
theorem numbers_of_run : ∃ ms : List Nat, ms.Nodup ∧
    r.outputs.map (·.location) = ms.map c.pointer ∧ ∀ m ∈ ms, m < u.nextIndex := by
  obtain ⟨fuels, v, ls, ran, settled, outputs, -⟩ := settled_of_run run
  have numbered := (numbered_start c _ tx.size).steps (by simp [Transaction.size]) ran
  obtain ⟨ks, nodup, fresh, mem⟩ := numbered.numbers
  have start : tx.size ≤ v.nextIndex := numbered.le
  have low : ∀ k ∈ ks, k < v.nextIndex := by
    intro k hk
    have size : tx.size = tx.instructions.length := rfl
    rcases mem k hk with _ | _ <;> omega
  obtain ⟨le, ms, nodup', places, mem'⟩ := runFrom_mapM_settle_numbers settled fresh nodup low
  refine ⟨ms, nodup', outputs ▸ places, fun m hm => ?_⟩
  rcases mem' m hm with hk | range
  · have below := low m hk
    omega
  · exact range.2

/-- The origins of new jigs are pointers of the transaction with different numbers. -/
theorem fresh_of_run : ∃ ks : List Nat, ks.Nodup ∧ u.fresh = ks.map c.pointer ∧
    ∀ k ∈ ks, k < u.nextIndex := by
  obtain ⟨fuels, v, ls, ran, settled, -⟩ := settled_of_run run
  have quiet := Quietly.mapM (Quietly.settle c) v.jigs v
  rw [settled] at quiet
  obtain ⟨-, start, ks, nodup, fresh, mem⟩ :=
    (numbered_start c _ tx.size).steps (by simp [Transaction.size]) ran
  have low : ∀ k ∈ ks, k < v.nextIndex := by
    intro k hk
    have size : tx.size = tx.instructions.length := rfl
    rcases mem k hk with _ | _ <;> omega
  obtain ⟨le, -⟩ := runFrom_mapM_settle_numbers settled fresh nodup low
  exact ⟨ks, nodup, (Session.fresh_of_jigs quiet.jigs).trans fresh,
    fun k hk => Nat.lt_of_lt_of_le (low k hk) le⟩

/-- A new jig has a pointer of its transaction as its origin. -/
theorem id_of_new {jig : TouchedJig} (hj : jig ∈ u.jigs) (new : jig.previous = none) :
    jig.origin.id = c.txHash := by
  obtain ⟨ks, -, fresh, -⟩ := fresh_of_run run
  have mem : jig.origin ∈ ks.map c.pointer := by
    rw [← fresh, Session.fresh]
    exact List.mem_filterMap.2 ⟨jig, hj, if_pos new⟩
  obtain ⟨k, -, here⟩ := List.mem_map.1 mem
  rw [← here]
  rfl

/-- New jigs have different origins, as long as the numbers of pointers fit into 32 bits. -/
theorem eq_of_new (few : u.nextIndex ≤ UInt32.size) {jig other : TouchedJig} (hj : jig ∈ u.jigs)
    (hother : other ∈ u.jigs) (new : jig.previous = none) (new' : other.previous = none)
    (same : jig.origin = other.origin) : jig = other := by
  obtain ⟨ks, nodup, fresh, low⟩ := fresh_of_run run
  have distinct : u.fresh.Nodup := by
    rw [fresh]
    exact c.nodup_pointers nodup fun k hk => Nat.lt_of_lt_of_le (low k hk) few
  rw [Session.fresh_eq] at distinct
  exact List.inj_on_of_nodup_map distinct (List.mem_filter.2 ⟨hj, by simp [new]⟩)
    (List.mem_filter.2 ⟨hother, by simp [new']⟩) same

/-- An output is placed at a pointer of its transaction. -/
theorem location_of_run {o : Output} (ho : o ∈ r.outputs) : o.location.id = c.txHash := by
  obtain ⟨ms, -, places, -⟩ := numbers_of_run run
  have mem : o.location ∈ ms.map c.pointer := places ▸ List.mem_map_of_mem ho
  obtain ⟨m, -, same⟩ := List.mem_map.1 mem
  rw [← same]
  rfl

/-- No two outputs have the same place, as long as the numbers of pointers fit into 32 bits. -/
theorem nodup_locations_of_run (few : u.nextIndex ≤ UInt32.size) :
    (r.outputs.map (·.location)).Nodup := by
  obtain ⟨ms, nodup, places, below⟩ := numbers_of_run run
  rw [places]
  exact c.nodup_pointers nodup fun m hm => Nat.lt_of_lt_of_le (below m hm) few

/-- An output is that of a new jig, at its origin, or that of a jig that is spent. -/
theorem origin_of_run {o : Output} (ho : o ∈ r.outputs) :
    o.location = o.origin ∨ o.origin ∈ r.spentOrigins := by
  obtain ⟨-, ls, settled, outputs, -⟩ := runTransaction_eq_ok run
  rw [outputs] at ho
  obtain ⟨jig, hj, l, settled, written⟩ := Settled.of_output settled ho
  have origin := settled.origin o written
  rcases hp : jig.previous with _ | previous
  · exact .inl ((settled.place o written hp).trans origin.symm)
  · have spent : (⟨o.origin, previous⟩ : Spend) ∈ r.spends :=
      (mem_spends_iff run).2 ⟨jig, hj, origin.symm, hp⟩
    exact .inr (List.mem_map_of_mem spent)

/-- A transaction that has not been paid for makes no jigs. -/
theorem loaded_of_unpaid (keyed : c.env.store.Keyed)
    (unpaid : ∀ i ∈ tx.instructions, i.isPaid = false) : ∀ jig ∈ u.jigs, jig.previous ≠ none := by
  obtain ⟨fuels, v, ran, same⟩ := jigs_of_run run
  have opened := (opened_start c _ tx.size).steps keyed unpaid ran
  exact fun jig hj => (opened.loaded jig (same ▸ hj)).1

/-- A transaction that has not been paid for writes down what its instructions load, at the pointers
behind them. -/
theorem outputs_of_unpaid (keyed : c.env.store.Keyed)
    (unpaid : ∀ i ∈ tx.instructions, i.isPaid = false) :
    r.outputs.map (·.location) =
      (List.range' tx.size (tx.instructions.filter (·.isLoad)).length).map c.pointer ∧
    List.Forall₂ (fun i o => ∃ last, i.loaded? c.env.store = some last ∧ o.origin = last.origin)
      (tx.instructions.filter (·.isLoad)) r.outputs := by
  obtain ⟨fuels, v, ls, ran, settled, outputs, -⟩ := settled_of_run run
  have opened := (opened_start c _ tx.size).steps keyed unpaid ran
  rw [List.nil_append] at opened
  obtain ⟨length, brings⟩ := List.forall₂_iff_get.1 opened.jigs
  obtain ⟨places, origins⟩ := runFrom_mapM_settle_loaded settled opened.loaded
  obtain ⟨length', same⟩ := List.forall₂_iff_get.1 origins
  rw [outputs]
  refine ⟨?_, List.forall₂_iff_get.2 ⟨length.trans length', fun idx hi ho => ?_⟩⟩
  · rw [places, opened.nextIndex, length]
  · obtain ⟨o, stored, -, origin, -⟩ := brings idx hi (length ▸ hi)
    exact ⟨o, stored, (same idx (length ▸ hi) ho).trans origin⟩

end Result

end JigLedger.Engine
