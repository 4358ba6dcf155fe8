import JigLedger.Proofs.Store.Successor
import JigLedger.Proofs.Wire.Output
import JigLedger.Proofs.Wire.Received

/-!
# Snapshots are faithful

A snapshot has the outputs of two tables without the keys that they are stored under. On aligned
tables the keys can be told from the outputs, and the index from jigs to places can be told from the
outputs as well. So a snapshot says all that a store knows: stores with the same snapshot are equal,
and they answer alike whatever they are asked for.
-/

namespace JigLedger.Store

open Wire (maxLength)

variable {s t : Store} {o : Output} {origin location : Pointer} {bs : Bytes}

/-! ### Tables -/

section Tables

variable {table table' : Std.ExtTreeMap Pointer Output compare} {key : Output → Pointer}

/-- The values of a table are those of its entries. -/
theorem values_eq_map (table : Std.ExtTreeMap Pointer Output compare) :
    table.values = table.toList.map (·.2) := by
  obtain ⟨⟨q⟩⟩ := table
  induction q using Quotient.ind with
  | _ tree =>
    show tree.inner.values = (Std.DTreeMap.Internal.Impl.Const.toList tree.inner).map (·.2)
    rw [Std.DTreeMap.Internal.Impl.values_eq_map_snd,
      Std.DTreeMap.Internal.Impl.Const.toList_eq_toListModel_map, List.map_map]
    rfl

theorem mem_values : o ∈ table.values ↔ ∃ place : Pointer, table[place]? = some o := by
  simp [values_eq_map, Std.ExtTreeMap.mem_toList_iff_getElem?_eq_some]

/-- What is stored under keys that can be told from it is found by looking through all of it. -/
theorem getElem?_eq_some_iff_mem_values
    (keyed : ∀ (place : Pointer) (o : Output), table[place]? = some o → key o = place)
    (place : Pointer) : table[place]? = some o ↔ o ∈ table.values ∧ key o = place := by
  rw [mem_values]
  constructor
  · exact fun found => ⟨⟨place, found⟩, keyed place o found⟩
  · rintro ⟨⟨there, found⟩, rfl⟩
    rwa [keyed there o found]

/-- Tables whose keys can be told from their values are equal if their values are. -/
theorem eq_of_values
    (keyed : ∀ (place : Pointer) (o : Output), table[place]? = some o → key o = place)
    (keyed' : ∀ (place : Pointer) (o : Output), table'[place]? = some o → key o = place)
    (same : table.values = table'.values) : table = table' := by
  refine Std.ExtTreeMap.ext_getElem? fun place => Option.ext fun o => ?_
  rw [getElem?_eq_some_iff_mem_values keyed, getElem?_eq_some_iff_mem_values keyed', same]

end Tables

/-! ### What can be told from the outputs -/

section Aligned

variable (aligned : s.Aligned)

include aligned

/-- An output is stored at its location. -/
theorem Aligned.location_eq (stored : s.live[location]? = some o) : o.location = location := by
  obtain ⟨o', stored', -, place⟩ := aligned.current _ _ (aligned.live location o stored)
  cases stored.symm.trans stored'
  exact place

/-- A jig is current exactly where an output of it is stored. -/
theorem Aligned.current_iff :
    s.current[origin]? = some location ↔ ∃ o : Output, s.live[location]? = some o ∧
      o.origin = origin := by
  constructor
  · intro hc
    obtain ⟨o, stored, key, -⟩ := aligned.current origin location hc
    exact ⟨o, stored, key⟩
  · rintro ⟨o, stored, rfl⟩
    exact aligned.live location o stored

/-- What a destroyed jig has left is found for it, and nothing else is left of jigs. -/
theorem Aligned.destroyed_iff : s.destroyed[origin]? = some o ↔
    s.current[origin]? = none ∧ s.byOrigin origin = some o := by
  constructor
  · intro left
    have idle := aligned.gone origin (Option.isSome_iff_exists.2 ⟨o, left⟩)
    exact ⟨idle, by rw [byOrigin, idle, left]⟩
  · rintro ⟨idle, found⟩
    rwa [byOrigin, idle] at found

variable (aligned' : t.Aligned)

include aligned'

/-- The places of jigs can be told from the outputs that are stored. -/
theorem Aligned.current_eq (same : s.live = t.live) : s.current = t.current := by
  refine Std.ExtTreeMap.ext_getElem? fun origin => Option.ext fun location => ?_
  rw [aligned.current_iff, aligned'.current_iff, same]

/-- Stores that answer alike are equal. -/
theorem Aligned.eq_of_answers (places : ∀ p, s.byLocation p = t.byLocation p)
    (jigs : ∀ p, s.byOrigin p = t.byOrigin p) : s = t := by
  have live : s.live = t.live := Std.ExtTreeMap.ext_getElem? places
  have current : s.current = t.current := aligned.current_eq aligned' live
  have destroyed : s.destroyed = t.destroyed := by
    refine Std.ExtTreeMap.ext_getElem? fun origin => Option.ext fun o => ?_
    rw [aligned.destroyed_iff, aligned'.destroyed_iff, current, jigs]
  cases s
  cases t
  simp_all

end Aligned

/-! ### Snapshots -/

/-- The lengths in a store are ones the format admits. -/
structure Fits (s : Store) : Prop where
  live : s.live.values.length ≤ maxLength
  current : s.current.toList.length ≤ maxLength
  destroyed : s.destroyed.values.length ≤ maxLength
  outputs : ∀ o ∈ s.live.values ++ s.destroyed.values, o.Fits

/-- A snapshot is three encodings, one behind the other. -/
theorem snapshot_eq_ok : s.snapshot = .ok bs ↔ ∃ live current destroyed,
    (Wire.Codec.list Wire.Codec.output).write s.live.values = .ok live ∧
    (Wire.Codec.map Wire.Codec.pointer Wire.Codec.pointer).write s.current.toList = .ok current ∧
    (Wire.Codec.list Wire.Codec.output).write s.destroyed.values = .ok destroyed ∧
    bs = live ++ (current ++ destroyed) := by
  simp only [snapshot, bind_eq_ok, pure, Except.pure, Except.ok.injEq, List.append_assoc]
  constructor
  · rintro ⟨live, hl, current, hc, destroyed, hd, rfl⟩
    exact ⟨live, current, destroyed, hl, hc, hd, rfl⟩
  · rintro ⟨live, current, destroyed, hl, hc, hd, rfl⟩
    exact ⟨live, hl, current, hc, destroyed, hd, rfl⟩

/-- There is a snapshot exactly if the lengths fit. -/
theorem exists_snapshot : (∃ bs, s.snapshot = .ok bs) ↔ s.Fits := by
  have output (o : Output) : (∃ bs, Wire.Codec.output.write o = .ok bs) ↔ o.Fits :=
    ⟨fun ⟨_, written⟩ => (Output.toBytes_eq_ok.1 written).1,
      fun fits => ⟨_, Output.toBytes_eq_ok.2 ⟨fits, rfl⟩⟩⟩
  have pointer (p : Pointer) : ∃ bs, Wire.Codec.pointer.write p = .ok bs :=
    ⟨_, Wire.Codec.pointer_write_eq_ok.2 rfl⟩
  have outputs (items : List Output) :
      (∃ bs, (Wire.Codec.list Wire.Codec.output).write items = .ok bs) ↔
        items.length ≤ maxLength ∧ ∀ o ∈ items, o.Fits := by
    simp only [Wire.Codec.exists_list_write, output]
  have places : (∃ bs, (Wire.Codec.map Wire.Codec.pointer Wire.Codec.pointer).write
      s.current.toList = .ok bs) ↔ s.current.toList.length ≤ maxLength := by
    have distinct : (s.current.toList.map (·.1)).Nodup := by
      rw [Std.ExtTreeMap.map_fst_toList_eq_keys]
      exact Std.ExtTreeMap.nodup_keys
    rw [Wire.Codec.exists_map_write Wire.Codec.faithful_pointer distinct]
    exact and_iff_left fun e _ => ⟨pointer e.1, pointer e.2⟩
  simp only [snapshot_eq_ok]
  constructor
  · rintro ⟨_, _, _, _, hl, hc, hd, -⟩
    obtain ⟨live, fit⟩ := (outputs _).1 ⟨_, hl⟩
    obtain ⟨destroyed, fit'⟩ := (outputs _).1 ⟨_, hd⟩
    exact ⟨live, places.1 ⟨_, hc⟩, destroyed,
      fun o mem => (List.mem_append.1 mem).elim (fit o) (fit' o)⟩
  · rintro ⟨live, current, destroyed, fit⟩
    obtain ⟨_, hl⟩ := (outputs _).2 ⟨live, fun o mem => fit o (List.mem_append_left _ mem)⟩
    obtain ⟨_, hc⟩ := places.2 current
    obtain ⟨_, hd⟩ := (outputs _).2 ⟨destroyed, fun o mem => fit o (List.mem_append_right _ mem)⟩
    exact ⟨_, _, _, _, hl, hc, hd, rfl⟩

/-- Stores with the same snapshot are equal. The outputs that are stored can be read off the front,
and they determine the index behind them. So what is left is the encoding of the tombstones. -/
theorem Aligned.eq_of_snapshot (aligned : s.Aligned) (aligned' : t.Aligned) (keyed : s.Keyed)
    (keyed' : t.Keyed) (written : s.snapshot = .ok bs) (written' : t.snapshot = .ok bs) : s = t := by
  have faithful := Wire.Codec.canonical_output.faithful.list
  obtain ⟨front, index, back, hl, hc, hd, rfl⟩ := snapshot_eq_ok.1 written
  obtain ⟨front', index', back', hl', hc', hd', same⟩ := snapshot_eq_ok.1 written'
  have read := faithful _ _ (index ++ back) hl
  rw [same, faithful _ _ (index' ++ back') hl', Except.ok.injEq, Prod.mk.injEq] at read
  obtain ⟨stored, rest⟩ := read
  have live : s.live = t.live :=
    eq_of_values (fun _ _ => aligned.location_eq) (fun _ _ => aligned'.location_eq) stored.symm
  have current : s.current = t.current := aligned.current_eq aligned' live
  rw [current, hc', Except.ok.injEq] at hc
  rw [hc, List.append_cancel_left_eq] at rest
  have destroyed : s.destroyed = t.destroyed :=
    eq_of_values (fun origin o left => keyed origin o (aligned.destroyed_iff.1 left).2)
      (fun origin o left => keyed' origin o (aligned'.destroyed_iff.1 left).2)
      (faithful.injective hd (rest ▸ hd'))
  cases s
  cases t
  simp_all

/-- Two stores with aligned tables, which find outputs of the jigs that they are asked for, have
snapshots if all lengths fit. The snapshots are the same if and only if both stores answer alike at
every location and for every jig; and then the stores are equal. -/
theorem snapshot_eq_iff (aligned : s.Aligned) (aligned' : t.Aligned) (keyed : s.Keyed)
    (keyed' : t.Keyed) (fits : s.Fits) (fits' : t.Fits) :
    ∃ bs bs', s.snapshot = .ok bs ∧ t.snapshot = .ok bs' ∧
      (bs = bs' ↔ (∀ p, s.byLocation p = t.byLocation p) ∧ ∀ p, s.byOrigin p = t.byOrigin p) ∧
      (bs = bs' → s = t) := by
  obtain ⟨bs, written⟩ := exists_snapshot.2 fits
  obtain ⟨bs', written'⟩ := exists_snapshot.2 fits'
  have equal (same : bs = bs') : s = t :=
    aligned.eq_of_snapshot aligned' keyed keyed' written (same ▸ written')
  refine ⟨bs, bs', written, written', ⟨fun same => ?_, ?_⟩, equal⟩
  · rw [equal same]
    exact ⟨fun _ => rfl, fun _ => rfl⟩
  · rintro ⟨places, jigs⟩
    rw [aligned.eq_of_answers aligned' places jigs, written'] at written
    exact (Except.ok.inj written).symm

/-- The snapshot of a small store is not the one of the store with a jig at another place. -/
theorem snapshot_eq_iff_shelf : ∃ t bs bs', shelf.apply [spending 1 11] [numbered 1 21] = .ok t ∧
    shelf.snapshot = .ok bs ∧ t.snapshot = .ok bs' ∧ bs ≠ bs' := by
  have permitted : shelf.Permits [spending 1 11] [numbered 1 21] :=
    ⟨by decide +kernel, by decide +kernel, by decide +kernel⟩
  have moved := apply_eq_ok_iff_permits.2 ⟨permitted, rfl⟩
  have consistent := (consistent_shelf.apply (by decide) (by decide) moved).1
  have fits : shelf.Fits := ⟨by decide +kernel, by decide +kernel, by decide +kernel, by
    unfold Output.Fits; decide +kernel⟩
  have fits' : (shelf.written [spending 1 11] [numbered 1 21]).Fits :=
    ⟨by decide +kernel, by decide +kernel, by decide +kernel, by unfold Output.Fits; decide +kernel⟩
  obtain ⟨bs, bs', written, written', iff, -⟩ := snapshot_eq_iff aligned_shelf consistent.aligned
    consistent_shelf.keyed consistent.keyed fits fits'
  refine ⟨_, bs, bs', moved, written, written', fun same => ?_⟩
  exact absurd ((iff.1 same).1 ⟨default, 11⟩) (by decide +kernel)

end JigLedger.Store
