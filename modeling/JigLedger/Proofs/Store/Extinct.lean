import JigLedger.Proofs.Store.Coherent

/-!
# Jigs that are gone

A jig is gone once it has left a tombstone and nothing of it can be spent. Every change of the store
asks for the current location of what it spends, and it may only write down jigs that are not known
or that it spends. So whatever is done to the store afterwards, even if its other tables do not
belong together, the jig does not come back.
-/

namespace JigLedger.Store

variable {s t : Store} {o tomb : Output} {spend : Spend} {spends : List Spend}
  {outputs : List Output} {origin : Pointer}

/-- A jig has left a tombstone, and nothing that can be spent. -/
structure Extinct (s : Store) (origin : Pointer) (tomb : Output) : Prop where
  current : s.current[origin]? = none
  destroyed : s.destroyed[origin]? = some tomb
  live : ∀ (location : Pointer) (o : Output), s.live[location]? = some o → o.origin ≠ origin

/-- A change that was applied has passed all checks. -/
theorem apply_eq_ok : s.apply spends outputs = .ok t ↔ (∀ spend ∈ spends, s.IsCurrent spend) ∧
    (∀ o ∈ outputs, s.checkOutput spends o = .ok ()) ∧
    t = outputs.foldl Store.add (spends.foldl (remove outputs) s) := by
  simp only [Store.apply, bind_eq_ok, forM_eq_ok, checkSpend_eq_ok, pure, Except.pure,
    Except.ok.injEq, exists_const, @eq_comm _ t]

/-- An output that was inserted is that of a jig that is not known, at a free location. -/
theorem insert_eq_ok : s.insert o = .ok t ↔
    s.knows o.origin = false ∧ s.live[o.location]? = none ∧ t = s.add o := by
  rw [Store.insert, Std.ExtTreeMap.contains_eq_isSome_getElem?]
  cases s.knows o.origin
  · rcases s.live[o.location]? with _ | used
    · simp [eq_comm]
    · simp
  · simp

/-- An output that has passed its check is of a jig that is spent, or that is not known. -/
theorem spent_of_checkOutput (checked : s.checkOutput spends o = .ok ())
    (known : s.knows o.origin = true) : o.origin ∈ spends.map (·.origin) := by
  rw [checkOutput, known] at checked
  split at checked
  case isTrue => cases checked
  case isFalse => simpa using checked

/-- Spending other jigs leaves the tombstone of a jig as it is. -/
theorem destroyed_foldl_remove_of_unspent (unspent : origin ∉ spends.map (·.origin)) :
    (spends.foldl (remove outputs) s).destroyed[origin]? = s.destroyed[origin]? := by
  induction spends generalizing s with
  | nil => rfl
  | cons spend rest ih =>
    simp only [List.map_cons, List.mem_cons, not_or] at unspent
    rw [List.foldl_cons, ih unspent.2, destroyed_remove, if_neg fun both => unspent.1 both.1.symm]

/-- What the destroyed jigs have left has a property. -/
def Leaves (q : Output → Prop) (s : Store) : Prop :=
  ∀ (origin : Pointer) (o : Output), s.destroyed[origin]? = some o → q o

/-- Whatever a destroyed jig has left is frozen. -/
def Sealed (s : Store) : Prop :=
  ∀ (origin : Pointer) (o : Output), s.destroyed[origin]? = some o →
    o.lock.kind = LockKind.frozen.code

theorem Consistent.sealed (h : s.Consistent) : s.Sealed :=
  fun origin o left => (h.gone origin o left).1

section Leaves

variable {q : Output → Prop} (tombs : ∀ last origin, q (tombstone last origin)) (h : s.Leaves q)

include tombs h

/-- The jigs that are spent leave tombstones. -/
theorem Leaves.foldl_remove : (spends.foldl (remove outputs) s).Leaves q := by
  induction spends generalizing s with
  | nil => exact h
  | cons spend rest ih =>
    refine ih fun origin o left => ?_
    rw [destroyed_remove] at left
    split at left
    case isFalse => exact h origin o left
    case isTrue =>
      rcases Option.or_eq_some_iff.1 left with new | ⟨-, old⟩
      · obtain ⟨last, -, rfl⟩ := Option.map_eq_some_iff.1 new
        exact tombs last origin
      · exact h origin o old

theorem Leaves.apply (done : s.apply spends outputs = .ok t) : t.Leaves q := by
  obtain ⟨-, -, rfl⟩ := apply_eq_ok.1 done
  intro origin o left
  rw [destroyed_foldl_add] at left
  exact h.foldl_remove tombs origin o left

end Leaves

theorem Leaves.insert {q : Output → Prop} (h : s.Leaves q) (done : s.insert o = .ok t) :
    t.Leaves q := by
  obtain ⟨-, -, rfl⟩ := insert_eq_ok.1 done
  exact h

theorem Sealed.apply (h : s.Sealed) (done : s.apply spends outputs = .ok t) : t.Sealed :=
  Leaves.apply (fun _ _ => rfl) h done

theorem Sealed.insert (h : s.Sealed) (done : s.insert o = .ok t) : t.Sealed := Leaves.insert h done

namespace Extinct

variable (h : s.Extinct origin tomb)

include h

/-- Whoever asks for the jig finds its tombstone. -/
theorem byOrigin : s.byOrigin origin = some tomb := by
  rw [Store.byOrigin, h.current]
  exact h.destroyed

/-- The jig is known. -/
theorem knows : s.knows origin = true := by
  rw [knows_iff, h.destroyed]
  exact .inr rfl

/-- No change brings the jig back. -/
theorem apply (done : s.apply spends outputs = .ok t) : t.Extinct origin tomb := by
  obtain ⟨due, checked, rfl⟩ := apply_eq_ok.1 done
  have unspent : origin ∉ spends.map (·.origin) := by
    intro mem
    obtain ⟨spend, hs, rfl⟩ := List.mem_map.1 mem
    have current := due spend hs
    rw [IsCurrent, h.current] at current
    cases current
  have unwritten : ∀ o ∈ outputs, o.origin ≠ origin := by
    rintro o ho rfl
    exact unspent (spent_of_checkOutput (checked o ho) h.knows)
  refine ⟨?_, ?_, fun location o found => ?_⟩
  · rw [← Option.not_isSome_iff_eq_none, isSome_current_foldl_add, current_foldl_remove, h.current]
    simpa using unwritten
  · rw [destroyed_foldl_add, destroyed_foldl_remove_of_unspent unspent, h.destroyed]
  · rcases mem_of_live_foldl_add found with ⟨ho, -⟩ | before
    · exact unwritten o ho
    · rw [live_foldl_remove] at before
      split at before
      case isTrue => cases before
      case isFalse => exact h.live location o before

/-- No insertion brings the jig back. -/
theorem insert (done : s.insert o = .ok t) : t.Extinct origin tomb := by
  obtain ⟨unknown, -, rfl⟩ := insert_eq_ok.1 done
  have different : o.origin ≠ origin := by
    rintro rfl
    rw [h.knows] at unknown
    cases unknown
  refine ⟨by rw [current_add, if_neg different, h.current], h.destroyed, fun location other => ?_⟩
  rw [live_add]
  split
  case isTrue =>
    rintro ⟨⟩
    exact different
  case isFalse => exact h.live location other

end Extinct

/-- A jig that is spent and not written down again is gone, with the output that was spent as its
tombstone. -/
theorem Consistent.extinct (h : s.Consistent) (done : s.apply spends outputs = .ok t)
    (hs : spend ∈ spends) (unwritten : ∀ o ∈ outputs, o.origin ≠ spend.origin) :
    ∃ last, s.byLocation spend.location = some last ∧ last.origin = spend.origin ∧
      s.byOrigin spend.origin = some last ∧
      t.Extinct spend.origin (tombstone last spend.origin) := by
  obtain ⟨due, room, rfl⟩ := h.apply_eq_ok.1 done
  obtain ⟨last, there, key⟩ := h.current _ _ (due spend hs)
  have spent : spend.origin ∈ spends.map (·.origin) := List.mem_map_of_mem hs
  have none : ¬ outputs.any (·.origin = spend.origin) = true := by simpa using unwritten
  have found : s.byOrigin spend.origin = some last :=
    (byOrigin_of_current (due spend hs)).trans there
  refine ⟨last, there, key, found, ?_, ?_, fun location o stored => ?_⟩
  · rw [← Option.not_isSome_iff_eq_none, isSome_current_foldl_add, current_foldl_remove,
      if_pos spent]
    simpa using unwritten
  · rw [destroyed_foldl_add, h.destroyed_foldl_remove due, if_pos ⟨spent, none⟩, found]
    rfl
  · rcases mem_of_live_foldl_add stored with ⟨ho, -⟩ | before
    · exact unwritten o ho
    · rintro same
      rw [live_foldl_remove] at before
      split at before
      case isTrue => cases before
      case isFalse unspent =>
        -- The jig has one current output only, and this one is spent.
        exact unspent ((h.spent_iff due before).2 (same ▸ spent))

end JigLedger.Store
