import JigLedger.Proofs.Store

/-!
# Coherent stores

A change may put two outputs of one jig at different places; then one of them is still there to be
found at its place, although it is not the current one. What is left of consistency is enough to say
what becomes of a jig: each output is at its place, a jig that has been known stays known, and one
that has been destroyed stays so.
-/

namespace JigLedger.Store

variable {s t : Store} {o : Output} {spend : Spend} {spends : List Spend} {outputs : List Output}
  {origin location : Pointer}

/-- The indices are right, each output is at its place, and what a destroyed jig has left is frozen
and not current. -/
structure Coherent (s : Store) : Prop extends Indexed s where
  place : ∀ location (o : Output), s.live[location]? = some o → o.location = location
  gone : ∀ (origin : Pointer) (o : Output), s.destroyed[origin]? = some o →
    o.lock.kind = LockKind.frozen.code ∧ s.current[origin]? = none

theorem coherent_empty : Coherent .empty where
  toIndexed := indexed_empty
  place _ _ h := by simp [empty] at h
  gone _ _ h := by simp [empty] at h

/-- A jig is known if it has a current output or has been destroyed. -/
theorem knows_iff :
    s.knows origin = true ↔ (s.current[origin]?).isSome ∨ (s.destroyed[origin]?).isSome := by
  rw [knows, Std.ExtTreeMap.contains_eq_isSome_getElem?, Std.ExtTreeMap.contains_eq_isSome_getElem?,
    Bool.or_eq_true]

namespace Coherent

/-- Of a destroyed jig only its tombstone is found. -/
theorem byOrigin_of_destroyed (h : s.Coherent) (found : s.destroyed[origin]? = some o) :
    s.byOrigin origin = some o := by
  rw [Store.byOrigin, (h.gone origin o found).2]
  exact found

/-- An output that is found for a jig is found at its location too, or it is frozen. -/
theorem byOrigin (h : s.Coherent) (found : s.byOrigin origin = some o) :
    o.origin = origin ∧ (s.byLocation o.location = some o ∨ o.lock.kind = LockKind.frozen.code) := by
  refine ⟨h.keyed origin o found, ?_⟩
  rcases live_or_destroyed_of_byOrigin found with ⟨location, there⟩ | left
  · rw [h.place location o there]
    exact .inl there
  · exact .inr (h.gone origin o left).1

/-! ### Adding outputs -/

/-- Adding an output of a jig that has not been destroyed at a free location. -/
theorem add (h : s.Coherent) (free : s.live[o.location]? = none)
    (standing : s.destroyed[o.origin]? = none) : (s.add o).Coherent where
  toIndexed := h.toIndexed.add free
  place location other found := by
    rw [live_add] at found
    split at found
    case isTrue here =>
      cases found
      exact here
    case isFalse => exact h.place location other found
  gone origin other found := by
    obtain ⟨frozen, gone⟩ := h.gone origin other found
    have different : o.origin ≠ origin := by
      rintro rfl
      have found : s.destroyed[o.origin]? = some other := found
      rw [standing] at found
      cases found
    exact ⟨frozen, by rw [current_add, if_neg different, gone]⟩

theorem foldl_add (h : s.Coherent) (locations : (outputs.map (·.location)).Nodup)
    (free : ∀ o ∈ outputs, s.live[o.location]? = none)
    (standing : ∀ o ∈ outputs, s.destroyed[o.origin]? = none) :
    (outputs.foldl Store.add s).Coherent := by
  induction outputs generalizing s with
  | nil => exact h
  | cons o rest ih =>
    simp only [List.map_cons, List.nodup_cons, List.mem_map, not_exists, not_and] at locations
    refine ih (h.add (free o (.head _)) (standing o (.head _))) locations.2 (fun other ho => ?_)
      fun other ho => standing other (.tail _ ho)
    rw [live_add, if_neg fun same => locations.1 other ho same.symm]
    exact free other (.tail _ ho)

end Coherent

theorem destroyed_foldl_add (outputs : List Output) (s : Store) :
    (outputs.foldl add s).destroyed = s.destroyed := by
  induction outputs generalizing s with
  | nil => rfl
  | cons o rest ih => exact ih (s.add o)

/-- An item is found by its key, from whichever end, if the keys are all different. -/
theorem find?_reverse_eq_some_iff {α β : Type} [DecidableEq β] {f : α → β} {items : List α}
    (nodup : (items.map f).Nodup) {b : β} {a : α} :
    items.reverse.find? (fun a => f a = b) = some a ↔ a ∈ items ∧ f a = b := by
  have nodup' : (items.reverse.map f).Nodup := by rwa [List.map_reverse, List.nodup_reverse]
  rw [find?_eq_some_iff_of_nodup nodup', List.mem_reverse]

/-- Of several outputs that are added at one place the last one is found there. -/
theorem live_foldl_add (outputs : List Output) (s : Store) (location : Pointer) :
    (outputs.foldl add s).live[location]? =
      (outputs.reverse.find? (·.location = location)).or s.live[location]? := by
  induction outputs generalizing s with
  | nil => rfl
  | cons o rest ih =>
    rw [List.foldl_cons, ih, live_add, List.reverse_cons, List.find?_append, List.find?_cons]
    by_cases here : o.location = location <;> simp [here]

/-- Of several outputs that are added for one jig the last one is the current one. -/
theorem current_foldl_add (outputs : List Output) (s : Store) (origin : Pointer) :
    (outputs.foldl add s).current[origin]? =
      ((outputs.reverse.find? (·.origin = origin)).map (·.location)).or s.current[origin]? := by
  induction outputs generalizing s with
  | nil => rfl
  | cons o rest ih =>
    rw [List.foldl_cons, ih, current_add, List.reverse_cons, List.find?_append,
      List.find?_cons]
    by_cases same : o.origin = origin <;>
      cases rest.reverse.find? (·.origin = origin) <;> simp [same]

/-- After adding outputs, what is at a place is one of them or was there before. -/
theorem mem_of_live_foldl_add {other : Output}
    (found : (outputs.foldl add s).live[location]? = some other) :
    other ∈ outputs ∧ other.location = location ∨ s.live[location]? = some other := by
  rw [live_foldl_add] at found
  rcases Option.or_eq_some_iff.1 found with last | ⟨-, before⟩
  · have here := List.find?_some last
    exact .inl ⟨List.mem_reverse.1 (List.mem_of_find?_eq_some last), of_decide_eq_true here⟩
  · exact .inr before

/-- The jigs with a current output are those of the added ones, and those that had one before. -/
theorem isSome_current_foldl_add :
    ((outputs.foldl add s).current[origin]?).isSome ↔
      origin ∈ outputs.map (·.origin) ∨ (s.current[origin]?).isSome := by
  rw [current_foldl_add, Option.isSome_or, Bool.or_eq_true, Option.isSome_map, List.find?_isSome]
  simp [List.mem_map]

/-! ### Changes -/

namespace Coherent

/-- The jig of an output that may be added has not been destroyed. -/
theorem standing_of_room (h : s.Coherent) (due : ∀ spend ∈ spends, s.IsCurrent spend)
    (room : s.byOrigin o.origin = none ∨ o.origin ∈ spends.map (·.origin)) :
    s.destroyed[o.origin]? = none := by
  rcases hd : s.destroyed[o.origin]? with _ | last
  · rfl
  rcases room with unknown | spent
  · rw [h.byOrigin_of_destroyed hd] at unknown
    cases unknown
  · obtain ⟨spend, hs, same⟩ := List.mem_map.1 spent
    have current := due spend hs
    rw [IsCurrent, same, (h.gone _ _ hd).2] at current
    cases current

/-- The store stays coherent when current outputs are spent. -/
theorem foldl_remove (h : s.Coherent) (due : ∀ spend ∈ spends, s.IsCurrent spend) :
    (spends.foldl (remove outputs) s).Coherent where
  toIndexed := h.toIndexed.foldl_remove due
  place location o found := by
    rw [live_foldl_remove] at found
    split at found
    case isTrue => cases found
    case isFalse => exact h.place location o found
  gone origin o found := by
    rw [h.destroyed_foldl_remove due] at found
    rw [current_foldl_remove]
    split at found
    case isTrue spent =>
      obtain ⟨last, -, rfl⟩ := Option.map_eq_some_iff.1 found
      exact ⟨rfl, by rw [if_pos spent.1]⟩
    case isFalse =>
      obtain ⟨frozen, gone⟩ := h.gone origin o found
      exact ⟨frozen, by rw [gone, ite_self]⟩

end Coherent

/-- What a change that was applied has done to a coherent store. -/
structure Applied (s t : Store) (spends : List Spend) (outputs : List Output) : Prop where
  coherent : t.Coherent
  due : ∀ spend ∈ spends, s.IsCurrent spend
  free : ∀ o ∈ outputs, s.live[o.location]? = none
  /-- A jig that is written down was not known before, or it is spent. -/
  room : ∀ o ∈ outputs, s.knows o.origin = true → o.origin ∈ spends.map (·.origin)
  /-- No jig is written down that has been destroyed before. -/
  standing : ∀ o ∈ outputs, s.destroyed[o.origin]? = none
  live : ∀ location (o : Output), t.live[location]? = some o →
    o ∈ outputs ∧ o.location = location ∨
      s.live[location]? = some o ∧ location ∉ spends.map (·.location)
  current : ∀ origin : Pointer, (t.current[origin]?).isSome ↔ origin ∈ outputs.map (·.origin) ∨
    (s.current[origin]?).isSome ∧ origin ∉ spends.map (·.origin)
  destroyed : ∀ origin : Pointer, t.destroyed[origin]? =
    if origin ∈ spends.map (·.origin) ∧ ¬ outputs.any (·.origin = origin) then
      (s.byOrigin origin).map (tombstone · origin)
    else s.destroyed[origin]?

/-- A change that puts its outputs at different places is applied to a coherent store. -/
theorem Coherent.apply (h : s.Coherent) (locations : (outputs.map (·.location)).Nodup)
    (done : s.apply spends outputs = .ok t) : Applied s t spends outputs := by
  obtain ⟨due, room, rfl⟩ := h.apply_eq_ok.1 done
  have left := @Indexed.destroyed_foldl_remove _ _ outputs h.toIndexed due
  have standing o (ho : o ∈ outputs) := h.standing_of_room due (room o ho).2
  have standing' : ∀ o ∈ outputs,
      (spends.foldl (remove outputs) s).destroyed[o.origin]? = none := by
    intro o ho
    have written : outputs.any (·.origin = o.origin) = true := List.any_eq_true.2 ⟨o, ho, by simp⟩
    rw [left, if_neg fun both => both.2 written, standing o ho]
  have coherent := (h.foldl_remove due).foldl_add locations (live_of_room room) standing'
  refine ⟨coherent, due, fun o ho => (room o ho).1, fun o ho known => ?_, standing,
    fun location o found => ?_, fun origin => ?_, fun origin => ?_⟩
  · rw [h.knows_eq] at known
    refine (room o ho).2.resolve_left fun unknown => ?_
    rw [unknown] at known
    cases known
  · refine (mem_of_live_foldl_add found).imp_right fun before => ?_
    rw [live_foldl_remove] at before
    split at before
    case isTrue => cases before
    case isFalse unspent => exact ⟨before, unspent⟩
  · rw [isSome_current_foldl_add, current_foldl_remove]
    by_cases spent : origin ∈ spends.map (·.origin) <;> simp [spent]
  · rw [destroyed_foldl_add, left]

/-- Inserting an output is a change without spends. -/
theorem Indexed.apply_of_insert (h : s.Indexed) (done : s.insert o = .ok t) :
    s.apply [] [o] = .ok t := by
  obtain ⟨unknown, free, rfl⟩ := h.insert_eq_ok.1 done
  refine h.apply_eq_ok.2 ⟨nofun, fun other ho => ?_, rfl⟩
  cases List.mem_singleton.1 ho
  exact ⟨free, .inl unknown⟩

namespace Applied

variable (h : Applied s t spends outputs)

include h

/-- A jig that has been destroyed stays so. -/
theorem stays (coherent : s.Coherent) (gone : s.destroyed[origin]? = some o) :
    t.destroyed[origin]? = some o := by
  rw [h.destroyed, if_neg, gone]
  rintro ⟨spent, -⟩
  obtain ⟨spend, hs, rfl⟩ := List.mem_map.1 spent
  have current := h.due spend hs
  rw [IsCurrent, (coherent.gone _ o gone).2] at current
  cases current

/-- A jig that is spent and not written down again is destroyed. -/
theorem destroys (indexed : s.Indexed) (hs : spend ∈ spends)
    (unwritten : ∀ o ∈ outputs, o.origin ≠ spend.origin) :
    (t.destroyed[spend.origin]?).isSome := by
  obtain ⟨last, found, -⟩ := indexed.current _ _ (h.due spend hs)
  have none : ¬ outputs.any (·.origin = spend.origin) = true := by
    simpa using unwritten
  rw [h.destroyed, if_pos ⟨List.mem_map_of_mem hs, none⟩, byOrigin_of_current (h.due spend hs),
    byLocation, found]
  rfl

/-- The jigs that are known afterwards are those that were known, and those of the outputs. -/
theorem knows_iff (coherent : s.Coherent) :
    t.knows origin = true ↔ s.knows origin = true ∨ origin ∈ outputs.map (·.origin) := by
  have spent_known (spent : origin ∈ spends.map (·.origin)) : s.current[origin]? ≠ none := by
    obtain ⟨spend, hs, rfl⟩ := List.mem_map.1 spent
    rw [h.due spend hs]
    nofun
  rw [Store.knows_iff, Store.knows_iff, h.current]
  constructor
  · rintro ((written | ⟨known, -⟩) | gone)
    · exact .inr written
    · exact .inl (.inl known)
    · rw [h.destroyed] at gone
      split at gone
      case isTrue spent => exact .inl (.inl (Option.isSome_iff_ne_none.2 (spent_known spent.1)))
      case isFalse => exact .inl (.inr gone)
  · rintro ((known | gone) | written)
    · by_cases spent : origin ∈ spends.map (·.origin)
      · by_cases written : origin ∈ outputs.map (·.origin)
        · exact .inl (.inl written)
        · obtain ⟨spend, hs, rfl⟩ := List.mem_map.1 spent
          exact .inr (h.destroys coherent.toIndexed hs fun o ho same =>
            written (same ▸ List.mem_map_of_mem ho))
      · exact .inl (.inr ⟨known, spent⟩)
    · obtain ⟨o, found⟩ := Option.isSome_iff_exists.1 gone
      rw [h.stays coherent found]
      exact .inr rfl
    · exact .inl (.inl written)

end Applied

end JigLedger.Store
