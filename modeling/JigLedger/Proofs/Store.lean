import JigLedger.Proofs.Except
import JigLedger.Store
import Mathlib.Data.List.Induction

/-!
# Consistent stores

The indices of a store lead to outputs of the jig that is asked for: inserting an output keeps this,
and so does every change that puts its outputs at different locations. The tables of a store belong
together if also an output that can be spent is at the current location of its jig, and what a
destroyed jig has left is frozen. A change has to keep the jigs of its outputs apart for that. After
such a change the latest output of a jig is the new one, or the tombstone of the one that was spent,
or what it was before.
-/

namespace JigLedger

namespace Store

variable {s t : Store} {o : Output} {spend : Spend} {spends : List Spend} {outputs : List Output}
  {origin location : Pointer}

/-- The output that is found for an origin is one of that jig. -/
def Keyed (s : Store) : Prop := ∀ origin (o : Output), s.byOrigin origin = some o → o.origin = origin

/-- The indices of a store lead to outputs of the jig that is asked for. -/
structure Indexed (s : Store) : Prop where
  /-- At the current location of a jig there is an output of this jig. -/
  current : ∀ origin location, s.current[origin]? = some location →
    ∃ o : Output, s.live[location]? = some o ∧ o.origin = origin
  /-- A destroyed jig has left an output of its own. -/
  destroyed : ∀ origin (o : Output), s.destroyed[origin]? = some o → o.origin = origin

/-- The tables of a store belong together. -/
structure Consistent (s : Store) : Prop extends Indexed s where
  /-- An output that can be spent is at its location, the current one of its jig. -/
  live : ∀ location (o : Output), s.live[location]? = some o →
    o.location = location ∧ s.current[o.origin]? = some location
  /-- What a destroyed jig has left is frozen, and it is not current. -/
  gone : ∀ (origin : Pointer) (o : Output), s.destroyed[origin]? = some o →
    o.lock.kind = LockKind.frozen.code ∧ s.current[origin]? = none

/-- Another store knows all jigs of a store, and they have the same classes there. -/
def Extends (s t : Store) : Prop :=
  ∀ origin (o : Output), s.byOrigin origin = some o →
    ∃ latest : Output, t.byOrigin origin = some latest ∧ latest.classPtr = o.classPtr

theorem Extends.refl (s : Store) : s.Extends s := fun _ o found => ⟨o, found, rfl⟩

theorem Extends.trans {u : Store} (h : s.Extends t) (h' : t.Extends u) : s.Extends u := by
  intro origin o found
  obtain ⟨o', found', same⟩ := h origin o found
  obtain ⟨o'', found'', same'⟩ := h' origin o' found'
  exact ⟨o'', found'', same'.trans same⟩

theorem indexed_empty : Indexed .empty where
  current _ _ h := by simp [empty] at h
  destroyed _ _ h := by simp [empty] at h

theorem consistent_empty : Consistent .empty where
  toIndexed := indexed_empty
  live _ _ h := by simp [empty] at h
  gone _ _ h := by simp [empty] at h

/-- What is found for a jig is at its current location, if there is one. -/
theorem byOrigin_of_current (h : s.current[origin]? = some location) :
    s.byOrigin origin = s.byLocation location := by
  rw [byOrigin, h]
  rfl

/-- What is found for a jig can be spent, or the jig has left it when it was destroyed. -/
theorem live_or_destroyed_of_byOrigin (found : s.byOrigin origin = some o) :
    (∃ location : Pointer, s.live[location]? = some o) ∨ s.destroyed[origin]? = some o := by
  rw [byOrigin] at found
  split at found
  case h_1 location _ => exact .inl ⟨location, found⟩
  case h_2 => exact .inr found

namespace Indexed

/-- An output is found under its origin. -/
theorem keyed (h : s.Indexed) : s.Keyed := by
  intro origin o found
  rcases hc : s.current[origin]? with _ | location
  · rw [Store.byOrigin, hc] at found
    exact h.destroyed origin o found
  · obtain ⟨other, ho, key⟩ := h.current origin location hc
    rw [byOrigin_of_current hc, Store.byLocation, ho] at found
    cases found
    exact key

/-- A jig is known if something is found for it. -/
theorem knows_eq (h : s.Indexed) : s.knows origin = (s.byOrigin origin).isSome := by
  rw [knows, Std.ExtTreeMap.contains_eq_isSome_getElem?, Std.ExtTreeMap.contains_eq_isSome_getElem?,
    Store.byOrigin]
  rcases hc : s.current[origin]? with _ | location
  · simp
  · obtain ⟨o, ho, -⟩ := h.current origin location hc
    simp [ho]

end Indexed

namespace Consistent

/-- An output that is found at a location is there, and it is the latest one of its jig. -/
theorem byLocation (h : s.Consistent) (found : s.byLocation location = some o) :
    o.location = location ∧ s.byOrigin o.origin = some o := by
  obtain ⟨placed, current⟩ := h.live location o found
  refine ⟨placed, ?_⟩
  rw [Store.byOrigin, current]
  exact found

/-- An output that is found for a jig is found at its location too, or it is frozen. -/
theorem byOrigin (h : s.Consistent) (found : s.byOrigin origin = some o) :
    o.origin = origin ∧ (s.byLocation o.location = some o ∨ o.lock.kind = LockKind.frozen.code) := by
  refine ⟨h.keyed origin o found, ?_⟩
  rcases live_or_destroyed_of_byOrigin found with ⟨location, there⟩ | left
  · rw [(h.live location o there).1]
    exact .inl there
  · exact .inr (h.gone origin o left).1

end Consistent

/-! ### Adding outputs -/

theorem live_add (s : Store) (o : Output) (location : Pointer) :
    (s.add o).live[location]? = if o.location = location then some o else s.live[location]? := by
  simp [add, Std.ExtTreeMap.getElem?_insert]

theorem current_add (s : Store) (o : Output) (origin : Pointer) :
    (s.add o).current[origin]? =
      if o.origin = origin then some o.location else s.current[origin]? := by
  simp [add, Std.ExtTreeMap.getElem?_insert]

/-- An output is found for its jig after it has been added at a free location. -/
theorem Indexed.byOrigin_add (h : s.Indexed) (free : s.live[o.location]? = none)
    (origin : Pointer) :
    (s.add o).byOrigin origin = if o.origin = origin then some o else s.byOrigin origin := by
  rw [Store.byOrigin, current_add]
  by_cases same : o.origin = origin
  · simp [same, live_add]
  simp only [if_neg same]
  rcases hc : s.current[origin]? with _ | location
  · simp only [Store.byOrigin, hc]
    rfl
  · obtain ⟨other, ho, -⟩ := h.current origin location hc
    have apart : o.location ≠ location := by
      rintro rfl
      rw [free] at ho
      cases ho
    simp only [Store.byOrigin, hc, live_add, if_neg apart]

/-- The indices stay right when an output is added at a free location. -/
theorem Indexed.add (h : s.Indexed) (free : s.live[o.location]? = none) : (s.add o).Indexed where
  current origin location hc := by
    rw [current_add] at hc
    split at hc
    case isTrue same =>
      cases hc
      exact ⟨o, by rw [live_add, if_pos rfl], same⟩
    case isFalse =>
      obtain ⟨other, ho, key⟩ := h.current origin location hc
      have apart : o.location ≠ location := by
        rintro rfl
        rw [free] at ho
        cases ho
      exact ⟨other, by rw [live_add, if_neg apart, ho], key⟩
  destroyed := h.destroyed

/-- A store stays consistent when the output of an unknown jig is added at a free location. -/
theorem Consistent.add (h : s.Consistent) (free : s.live[o.location]? = none)
    (unknown : s.byOrigin o.origin = none) : (s.add o).Consistent := by
  have idle : s.current[o.origin]? = none := by
    rcases hc : s.current[o.origin]? with _ | location
    · rfl
    · obtain ⟨other, ho, -⟩ := h.current _ location hc
      rw [byOrigin_of_current hc, Store.byLocation, ho] at unknown
      cases unknown
  refine ⟨h.toIndexed.add free, fun location other hl => ?_, fun origin other hd => ?_⟩
  · rw [live_add] at hl
    split at hl
    case isTrue place =>
      cases hl
      exact ⟨place, by rw [current_add, if_pos rfl, place]⟩
    case isFalse =>
      obtain ⟨placed, current⟩ := h.live location other hl
      have different : o.origin ≠ other.origin := by
        intro same
        rw [same, current] at idle
        cases idle
      exact ⟨placed, by rw [current_add, if_neg different, current]⟩
  · obtain ⟨frozen, gone⟩ := h.gone origin other hd
    have different : o.origin ≠ origin := by
      intro same
      have found : s.byOrigin origin = some other := by
        rw [Store.byOrigin, gone]
        exact hd
      rw [same, found] at unknown
      cases unknown
    exact ⟨frozen, by rw [current_add, if_neg different, gone]⟩

/-- An output that was inserted is that of a new jig at a free location. -/
theorem Indexed.insert_eq_ok (h : s.Indexed) :
    s.insert o = .ok t ↔
      s.byOrigin o.origin = none ∧ s.live[o.location]? = none ∧ t = s.add o := by
  rw [insert, h.knows_eq, Std.ExtTreeMap.contains_eq_isSome_getElem?]
  rcases s.byOrigin o.origin with _ | known
  · rcases s.live[o.location]? with _ | used
    · simp [eq_comm]
    · simp
  · simp

/-- Inserting an output keeps the indices right. -/
theorem Indexed.insert (h : s.Indexed) (done : s.insert o = .ok t) : t.Indexed := by
  obtain ⟨-, free, rfl⟩ := h.insert_eq_ok.1 done
  exact h.add free

/-- Inserting an output keeps a store consistent, and it keeps what is found for other jigs. -/
theorem Consistent.insert (h : s.Consistent) (done : s.insert o = .ok t) :
    t.Consistent ∧ s.Extends t := by
  obtain ⟨unknown, free, rfl⟩ := h.insert_eq_ok.1 done
  refine ⟨h.add free unknown, fun origin other found => ⟨other, ?_, rfl⟩⟩
  have different : o.origin ≠ origin := by
    intro same
    rw [same, found] at unknown
    cases unknown
  rw [h.byOrigin_add free, if_neg different, found]

/-- The indices stay right when outputs are added at different free locations. -/
theorem Indexed.foldl_add (h : s.Indexed) (locations : (outputs.map (·.location)).Nodup)
    (free : ∀ o ∈ outputs, s.live[o.location]? = none) : (outputs.foldl Store.add s).Indexed := by
  induction outputs generalizing s with
  | nil => exact h
  | cons o rest ih =>
    simp only [List.map_cons, List.nodup_cons, List.mem_map, not_exists, not_and] at locations
    refine ih (h.add (free o (.head _))) locations.2 fun other ho => ?_
    rw [live_add, if_neg fun same => locations.1 other ho same.symm]
    exact free other (.tail _ ho)

/-- Outputs of different unknown jigs are added at different free locations: the store stays
consistent, and each output is found for its jig. -/
theorem Consistent.foldl_add (h : s.Consistent) (origins : (outputs.map (·.origin)).Nodup)
    (locations : (outputs.map (·.location)).Nodup)
    (free : ∀ o ∈ outputs, s.live[o.location]? = none)
    (unknown : ∀ o ∈ outputs, s.byOrigin o.origin = none) :
    (outputs.foldl Store.add s).Consistent ∧ ∀ origin, (outputs.foldl Store.add s).byOrigin origin =
      (outputs.find? (·.origin = origin)).or (s.byOrigin origin) := by
  induction outputs generalizing s with
  | nil => exact ⟨h, fun _ => rfl⟩
  | cons o rest ih =>
    have here := free o (.head _)
    simp only [List.map_cons, List.nodup_cons, List.mem_map, not_exists, not_and] at origins locations
    have first := h.byOrigin_add here
    obtain ⟨consistent, found⟩ := ih (h.add here (unknown o (.head _))) origins.2 locations.2
      (fun other ho => by
        rw [live_add, if_neg fun same => locations.1 other ho same.symm]
        exact free other (.tail _ ho))
      fun other ho => by
        rw [first, if_neg fun same => origins.1 other ho same.symm]
        exact unknown other (.tail _ ho)
    refine ⟨consistent, fun origin => ?_⟩
    rw [List.foldl_cons, found, first, List.find?_cons]
    by_cases same : o.origin = origin
    · have none_left : rest.find? (·.origin = origin) = none := by
        rw [List.find?_eq_none]
        intro other ho
        simpa [← same] using origins.1 other ho
      simp [same, none_left]
    · simp [same]

/-! ### Spending outputs -/

/-- A spend names the current location of its jig. -/
def IsCurrent (s : Store) (spend : Spend) : Prop :=
  s.current[spend.origin]? = some spend.location

/-- At the current location of a jig there is an output of this jig. -/
def Located (s : Store) : Prop := ∀ origin location, s.current[origin]? = some location →
  ∃ o : Output, s.live[location]? = some o ∧ o.origin = origin

/-- Current spends of one location are those of one jig. -/
theorem Located.origin_eq (h : s.Located) {other : Spend} (here : s.IsCurrent spend)
    (there : s.IsCurrent other) (same : spend.location = other.location) :
    spend.origin = other.origin := by
  obtain ⟨o, ho, key⟩ := h _ _ here
  obtain ⟨o', ho', key'⟩ := h _ _ there
  rw [same, ho'] at ho
  cases ho
  exact key.symm.trans key'

theorem live_remove (outputs : List Output) (s : Store) (spend : Spend) (location : Pointer) :
    (remove outputs s spend).live[location]? =
      if spend.location = location then none else s.live[location]? := by
  unfold remove
  rcases hl : s.live[spend.location]? with _ | last
  · dsimp only
    split
    case isTrue same => rw [← same, hl]
    case isFalse => rfl
  · dsimp only
    split <;> simp [Std.ExtTreeMap.getElem?_erase]

theorem current_remove (outputs : List Output) (s : Store) (spend : Spend) (origin : Pointer) :
    (remove outputs s spend).current[origin]? =
      if spend.origin = origin then none else s.current[origin]? := by
  unfold remove
  rcases s.live[spend.location]? with _ | last
  · simp [Std.ExtTreeMap.getElem?_erase]
  · dsimp only
    split <;> simp [Std.ExtTreeMap.getElem?_erase]

theorem destroyed_remove (outputs : List Output) (s : Store) (spend : Spend) (origin : Pointer) :
    (remove outputs s spend).destroyed[origin]? =
      if spend.origin = origin ∧ ¬ outputs.any (·.origin = origin) then
        ((s.live[spend.location]?).map (tombstone · origin)).or s.destroyed[origin]?
      else s.destroyed[origin]? := by
  unfold remove
  rcases s.live[spend.location]? with _ | last
  · simp
  · dsimp only
    by_cases same : spend.origin = origin
    · subst same
      split
      case isTrue replaced => simp [replaced]
      case isFalse gone => simp [gone]
    · split <;> simp [Std.ExtTreeMap.getElem?_insert, same]

theorem live_foldl_remove (outputs : List Output) (spends : List Spend) (s : Store)
    (location : Pointer) :
    (spends.foldl (remove outputs) s).live[location]? =
      if location ∈ spends.map (·.location) then none else s.live[location]? := by
  induction spends generalizing s with
  | nil => simp
  | cons spend rest ih =>
    rw [List.foldl_cons, ih, live_remove]
    by_cases same : spend.location = location
    · simp [same]
    · simp [same, Ne.symm same]

theorem current_foldl_remove (outputs : List Output) (spends : List Spend) (s : Store)
    (origin : Pointer) :
    (spends.foldl (remove outputs) s).current[origin]? =
      if origin ∈ spends.map (·.origin) then none else s.current[origin]? := by
  induction spends generalizing s with
  | nil => simp
  | cons spend rest ih =>
    rw [List.foldl_cons, ih, current_remove]
    by_cases same : spend.origin = origin
    · simp [same]
    · simp [same, Ne.symm same]

/-- A jig that is spent and not written down again leaves a tombstone, however often it is spent. -/
theorem Located.destroyed_foldl_remove (h : s.Located)
    (due : ∀ spend ∈ spends, s.IsCurrent spend) (origin : Pointer) :
    (spends.foldl (remove outputs) s).destroyed[origin]? =
      if origin ∈ spends.map (·.origin) ∧ ¬ outputs.any (·.origin = origin) then
        (s.byOrigin origin).map (tombstone · origin)
      else s.destroyed[origin]? := by
  -- From the last spend on: a place that is spent twice has nothing left the second time.
  induction spends using List.reverseRecOn with
  | nil => simp
  | append_singleton earlier spend ih =>
    have ih := ih fun other ho => due other (List.mem_append_left _ ho)
    have here := due spend (by simp)
    rw [List.foldl_append, List.foldl_cons, List.foldl_nil, destroyed_remove, live_foldl_remove, ih]
    by_cases replaced : outputs.any (·.origin = origin) = true
    · simp [replaced]
    by_cases same : spend.origin = origin
    · subst same
      obtain ⟨last, hl, -⟩ := h _ _ here
      have found : s.byOrigin spend.origin = some last := (byOrigin_of_current here).trans hl
      by_cases gone : spend.location ∈ earlier.map (·.location)
      · obtain ⟨other, ho, place⟩ := List.mem_map.1 gone
        have again : spend.origin ∈ earlier.map (·.origin) := by
          rw [h.origin_eq here (due other (List.mem_append_left _ ho)) place.symm]
          exact List.mem_map_of_mem ho
        simp [replaced, gone, again, found]
      · simp [replaced, gone, hl, found]
    · simp [same, Ne.symm same]

theorem Indexed.destroyed_foldl_remove (h : s.Indexed)
    (due : ∀ spend ∈ spends, s.IsCurrent spend) (origin : Pointer) :
    (spends.foldl (remove outputs) s).destroyed[origin]? =
      if origin ∈ spends.map (·.origin) ∧ ¬ outputs.any (·.origin = origin) then
        (s.byOrigin origin).map (tombstone · origin)
      else s.destroyed[origin]? :=
  Located.destroyed_foldl_remove h.current due origin

/-- The jig of an output that is spent is spent. -/
theorem Located.spent_of_mem (h : s.Located) (due : ∀ spend ∈ spends, s.IsCurrent spend)
    (hl : s.live[location]? = some o) (mem : location ∈ spends.map (·.location)) :
    o.origin ∈ spends.map (·.origin) := by
  obtain ⟨spend, hs, rfl⟩ := List.mem_map.1 mem
  obtain ⟨other, ho, key⟩ := h _ _ (due spend hs)
  rw [hl] at ho
  cases ho
  rw [key]
  exact List.mem_map_of_mem hs

/-- An output is spent if its jig is. -/
theorem Consistent.spent_iff (h : s.Consistent) (due : ∀ spend ∈ spends, s.IsCurrent spend)
    (hl : s.live[location]? = some o) :
    location ∈ spends.map (·.location) ↔ o.origin ∈ spends.map (·.origin) := by
  refine ⟨Located.spent_of_mem h.current due hl, fun mem => ?_⟩
  obtain ⟨spend, hs, same⟩ := List.mem_map.1 mem
  have there := due spend hs
  rw [IsCurrent, same, (h.live location o hl).2] at there
  cases there
  exact List.mem_map_of_mem hs

/-- The indices stay right when current outputs are spent. -/
theorem Indexed.foldl_remove (h : s.Indexed) (due : ∀ spend ∈ spends, s.IsCurrent spend) :
    (spends.foldl (remove outputs) s).Indexed where
  current origin location hc := by
    rw [current_foldl_remove] at hc
    split at hc
    case isTrue => cases hc
    case isFalse left =>
      obtain ⟨o, ho, rfl⟩ := h.current origin location hc
      have unspent := mt (Located.spent_of_mem h.current due ho) left
      exact ⟨o, by rw [live_foldl_remove, if_neg unspent, ho], rfl⟩
  destroyed origin o hd := by
    rw [h.destroyed_foldl_remove due] at hd
    split at hd
    case isTrue =>
      obtain ⟨last, found, rfl⟩ := Option.map_eq_some_iff.1 hd
      exact h.keyed origin last found
    case isFalse => exact h.destroyed origin o hd

/-- The store stays consistent when current outputs are spent. -/
theorem Consistent.foldl_remove (h : s.Consistent) (due : ∀ spend ∈ spends, s.IsCurrent spend) :
    (spends.foldl (remove outputs) s).Consistent where
  toIndexed := h.toIndexed.foldl_remove due
  live location o hl := by
    rw [live_foldl_remove] at hl
    split at hl
    case isTrue => cases hl
    case isFalse left =>
      obtain ⟨placed, hc⟩ := h.live location o hl
      exact ⟨placed, by rw [current_foldl_remove, if_neg (mt (h.spent_iff due hl).2 left), hc]⟩
  gone origin o hd := by
    rw [h.destroyed_foldl_remove due] at hd
    rw [current_foldl_remove]
    split at hd
    case isTrue spent =>
      obtain ⟨last, -, rfl⟩ := Option.map_eq_some_iff.1 hd
      exact ⟨rfl, by rw [if_pos spent.1]⟩
    case isFalse =>
      obtain ⟨frozen, gone⟩ := h.gone origin o hd
      exact ⟨frozen, by rw [gone, ite_self]⟩

/-- Nothing is found any more for the jigs that are spent, but for the tombstones of those that are
not written down again. -/
theorem Consistent.byOrigin_foldl_remove (h : s.Consistent)
    (due : ∀ spend ∈ spends, s.IsCurrent spend) (origin : Pointer) :
    (spends.foldl (remove outputs) s).byOrigin origin =
      if origin ∈ spends.map (·.origin) then
        if outputs.any (·.origin = origin) then none
        else (s.byOrigin origin).map (tombstone · origin)
      else s.byOrigin origin := by
  rw [Store.byOrigin, current_foldl_remove, h.destroyed_foldl_remove due]
  by_cases spent : origin ∈ spends.map (·.origin)
  · obtain ⟨spend, hs, same⟩ := List.mem_map.1 spent
    have gone : s.destroyed[origin]? = none := by
      rcases hd : s.destroyed[origin]? with _ | o
      · rfl
      · have there := due spend hs
        rw [IsCurrent, same, (h.gone origin o hd).2] at there
        cases there
    by_cases replaced : outputs.any (·.origin = origin) = true <;> simp [spent, replaced, gone]
  · simp only [if_neg spent]
    rcases hc : s.current[origin]? with _ | location
    · simp [Store.byOrigin, hc, spent]
    · obtain ⟨o, ho, rfl⟩ := h.current origin location hc
      simp [Store.byOrigin, hc, live_foldl_remove, mt (h.spent_iff due ho).1 spent]

/-! ### Applying a change -/

theorem checkSpend_eq_ok : s.checkSpend spend = .ok () ↔ s.IsCurrent spend := by
  rw [checkSpend, IsCurrent]
  rcases s.current[spend.origin]? with _ | location <;> simp

theorem Indexed.checkOutput_eq_ok (h : s.Indexed) :
    s.checkOutput spends o = .ok () ↔ s.live[o.location]? = none ∧
      (s.byOrigin o.origin = none ∨ o.origin ∈ spends.map (·.origin)) := by
  rw [checkOutput, h.knows_eq, Std.ExtTreeMap.contains_eq_isSome_getElem?]
  rcases s.live[o.location]? with _ | used
  · rcases s.byOrigin o.origin with _ | known <;> simp
  · simp

/-- A change that was applied has passed all checks. -/
theorem Indexed.apply_eq_ok (h : s.Indexed) :
    s.apply spends outputs = .ok t ↔ (∀ spend ∈ spends, s.IsCurrent spend) ∧
      (∀ o ∈ outputs, s.live[o.location]? = none ∧
        (s.byOrigin o.origin = none ∨ o.origin ∈ spends.map (·.origin))) ∧
      t = outputs.foldl Store.add (spends.foldl (remove outputs) s) := by
  simp only [Store.apply, bind_eq_ok, forM_eq_ok, checkSpend_eq_ok, h.checkOutput_eq_ok, pure,
    Except.pure, Except.ok.injEq, exists_const, @eq_comm _ t]

/-- The outputs of a change have free locations after its spends. -/
theorem live_of_room (room : ∀ o ∈ outputs, s.live[o.location]? = none ∧
      (s.byOrigin o.origin = none ∨ o.origin ∈ spends.map (·.origin))) :
    ∀ o ∈ outputs, (spends.foldl (remove outputs) s).live[o.location]? = none := by
  intro o ho
  rw [live_foldl_remove, (room o ho).1, ite_self]

/-- The jigs of the outputs of a change are unknown after its spends. -/
theorem Consistent.unknown_of_room (h : s.Consistent) (due : ∀ spend ∈ spends, s.IsCurrent spend)
    (room : ∀ o ∈ outputs, s.live[o.location]? = none ∧
      (s.byOrigin o.origin = none ∨ o.origin ∈ spends.map (·.origin))) :
    ∀ o ∈ outputs, (spends.foldl (remove outputs) s).byOrigin o.origin = none := by
  intro o ho
  have written : outputs.any (·.origin = o.origin) = true := List.any_eq_true.2 ⟨o, ho, by simp⟩
  rw [h.byOrigin_foldl_remove due]
  rcases (room o ho).2 with unknown | spent
  · simp [written, unknown]
  · rw [if_pos spent, if_pos written]

/-- After a change that puts its outputs at different locations the indices are right. -/
theorem Indexed.apply (h : s.Indexed) (locations : (outputs.map (·.location)).Nodup)
    (done : s.apply spends outputs = .ok t) : t.Indexed := by
  obtain ⟨due, room, rfl⟩ := h.apply_eq_ok.1 done
  exact (h.foldl_remove due).foldl_add locations (live_of_room room)

/-- After a change that keeps its outputs apart the store is consistent. The latest output of a jig
is its new output; without one it is the tombstone of the output that was spent, or what it was. -/
theorem Consistent.apply (h : s.Consistent) (origins : (outputs.map (·.origin)).Nodup)
    (locations : (outputs.map (·.location)).Nodup) (done : s.apply spends outputs = .ok t) :
    t.Consistent ∧ ∀ origin, t.byOrigin origin =
      (outputs.find? (·.origin = origin)).or
        (if origin ∈ spends.map (·.origin) then (s.byOrigin origin).map (tombstone · origin)
        else s.byOrigin origin) := by
  obtain ⟨due, room, rfl⟩ := h.apply_eq_ok.1 done
  have left := @Consistent.byOrigin_foldl_remove _ _ outputs h due
  obtain ⟨consistent, found⟩ := (h.foldl_remove due).foldl_add origins locations
    (live_of_room room) (h.unknown_of_room due room)
  refine ⟨consistent, fun origin => ?_⟩
  rw [found, left]
  rcases hf : outputs.find? (·.origin = origin) with _ | o
  · have unwritten : outputs.any (·.origin = origin) = false := by
      simpa [List.find?_eq_none] using hf
    simp [unwritten]
  · simp [hf]

/-- After a change that keeps its outputs apart and writes jigs down as what they were, all jigs are
still known, with their classes. -/
theorem Consistent.extends_apply (h : s.Consistent) (origins : (outputs.map (·.origin)).Nodup)
    (locations : (outputs.map (·.location)).Nodup) (done : s.apply spends outputs = .ok t)
    (classes : ∀ o ∈ outputs, ∀ last, s.byOrigin o.origin = some last →
      o.classPtr = last.classPtr) : s.Extends t := by
  intro origin o found
  rw [(h.apply origins locations done).2, found]
  rcases hf : outputs.find? (·.origin = origin) with _ | written
  · by_cases spent : origin ∈ spends.map (·.origin)
    · exact ⟨tombstone o origin, by simp [hf, spent], rfl⟩
    · exact ⟨o, by simp [hf, spent], rfl⟩
  · have same : written.origin = origin := by simpa using List.find?_some hf
    exact ⟨written, by simp [hf], classes written (List.mem_of_find?_eq_some hf) o (same ▸ found)⟩

end Store

end JigLedger
