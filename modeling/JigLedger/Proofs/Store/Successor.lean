import JigLedger.Proofs.Store.Extinct

/-!
# What a change of a store leads to

The tables of a store are aligned if they agree on what can be spent: each jig is current where its
output is stored, each output that is stored is the current one of its jig, and no jig is both
current and destroyed. On such a store a change is applied exactly if it spends what is current,
puts outputs at free places only and spends the jigs that it writes down again. If its outputs are
apart from each other, every entry of the tables afterwards is known: `Successor` lists them.
-/

namespace JigLedger.Store

variable {s t : Store} {o : Output} {spend : Spend} {spends : List Spend} {outputs : List Output}
  {origin location : Pointer}

/-- The tables agree on what can be spent. -/
structure Aligned (s : Store) : Prop where
  /-- The output of a jig that is current is stored at its place. -/
  current : ∀ origin location, s.current[origin]? = some location →
    ∃ o : Output, s.live[location]? = some o ∧ o.origin = origin ∧ o.location = location
  /-- An output that is stored is the current one of its jig. -/
  live : ∀ location (o : Output), s.live[location]? = some o → s.current[o.origin]? = some location
  /-- A jig that has been destroyed is not current. -/
  gone : ∀ origin : Pointer, (s.destroyed[origin]?).isSome → s.current[origin]? = none

theorem Consistent.aligned (h : s.Consistent) : s.Aligned where
  current origin location hc := by
    obtain ⟨o, stored, key⟩ := h.current origin location hc
    exact ⟨o, stored, key, (h.live location o stored).1⟩
  live location o stored := (h.live location o stored).2
  gone origin left := by
    obtain ⟨o, found⟩ := Option.isSome_iff_exists.1 left
    exact (h.gone origin o found).2

theorem Aligned.located (h : s.Aligned) : s.Located := fun origin location hc =>
  have ⟨o, stored, key, _⟩ := h.current origin location hc
  ⟨o, stored, key⟩

/-- What a change has to fulfil to be applied. -/
structure Permits (s : Store) (spends : List Spend) (outputs : List Output) : Prop where
  /-- Each spend names the current place of its jig. -/
  due : ∀ spend ∈ spends, s.current[spend.origin]? = some spend.location
  /-- Nothing is stored where outputs are put. -/
  free : ∀ o ∈ outputs, s.live[o.location]? = none
  /-- The jig of an output is spent, if it is current or has been destroyed. -/
  room : ∀ o ∈ outputs, (s.current[o.origin]?).isSome ∨ (s.destroyed[o.origin]?).isSome →
    ∃ spend ∈ spends, spend.origin = o.origin

theorem checkOutput_eq_ok : s.checkOutput spends o = .ok () ↔ s.live[o.location]? = none ∧
    ((s.current[o.origin]?).isSome ∨ (s.destroyed[o.origin]?).isSome →
      ∃ spend ∈ spends, spend.origin = o.origin) := by
  rw [checkOutput, Std.ExtTreeMap.contains_eq_isSome_getElem?, ← knows_iff]
  rcases s.live[o.location]? with _ | used
  · cases s.knows o.origin <;> simp
  · simp

/-- The store after all writes of a change. -/
def written (s : Store) (spends : List Spend) (outputs : List Output) : Store :=
  outputs.foldl add (spends.foldl (remove outputs) s)

/-- A change that is applied is written down after it has been permitted. -/
theorem apply_eq_ok_iff_permits : s.apply spends outputs = .ok t ↔
    s.Permits spends outputs ∧ t = s.written spends outputs := by
  simp only [apply_eq_ok, checkOutput_eq_ok, IsCurrent, written]
  constructor
  · rintro ⟨due, checked, same⟩
    exact ⟨⟨due, fun o ho => (checked o ho).1, fun o ho => (checked o ho).2⟩, same⟩
  · rintro ⟨⟨due, free, room⟩, same⟩
    exact ⟨due, fun o ho => ⟨free o ho, room o ho⟩, same⟩

/-- A change is applied exactly if it is permitted. -/
theorem exists_apply_iff : (∃ t, s.apply spends outputs = .ok t) ↔ s.Permits spends outputs :=
  ⟨fun ⟨_, done⟩ => (apply_eq_ok_iff_permits.1 done).1,
    fun permitted => ⟨_, apply_eq_ok_iff_permits.2 ⟨permitted, rfl⟩⟩⟩

/-- The tables of a store after a change, entry by entry. -/
structure Successor (s : Store) (spends : List Spend) (outputs : List Output) (t : Store) :
    Prop where
  /-- Stored are the outputs of the change, and what was stored before and is not spent. -/
  live : ∀ location (o : Output), t.live[location]? = some o ↔
    o ∈ outputs ∧ o.location = location ∨
      s.live[location]? = some o ∧ ∀ spend ∈ spends, spend.location ≠ location
  /-- Jigs are current where the change puts them, and where they were if they are not spent. -/
  current : ∀ origin location, t.current[origin]? = some location ↔
    (∃ o ∈ outputs, o.origin = origin ∧ o.location = location) ∨
      s.current[origin]? = some location ∧ ∀ spend ∈ spends, spend.origin ≠ origin
  /-- A jig that is spent and has no output is destroyed. It has left the output that was its last
  one, with a frozen lock. -/
  tombs : ∀ spend ∈ spends, (∀ o ∈ outputs, o.origin ≠ spend.origin) →
    ∃ last : Output, s.byOrigin spend.origin = some last ∧ t.Extinct spend.origin
      { last with lock := ⟨spend.origin, LockKind.frozen.code, []⟩ }
  /-- What other destroyed jigs have left is the same. -/
  destroyed : ∀ origin : Pointer,
    (∀ spend ∈ spends, spend.origin ≠ origin) ∨ (∃ o ∈ outputs, o.origin = origin) →
      t.destroyed[origin]? = s.destroyed[origin]?
  /-- The same is found for a jig that the change is not about. -/
  untouched : ∀ origin : Pointer, (∀ spend ∈ spends, spend.origin ≠ origin) →
    (∀ o ∈ outputs, o.origin ≠ origin) →
      t.current[origin]? = s.current[origin]? ∧ t.byOrigin origin = s.byOrigin origin

/-! ### What the writes leave alone -/

/-- A change leaves other places alone. -/
theorem live_written_of_ne (unspent : ∀ spend ∈ spends, spend.location ≠ location)
    (unwritten : ∀ o ∈ outputs, o.location ≠ location) :
    (s.written spends outputs).live[location]? = s.live[location]? := by
  have elsewhere : outputs.reverse.find? (·.location = location) = none := by
    simpa [List.find?_eq_none] using unwritten
  rw [written, live_foldl_add, elsewhere, live_foldl_remove, if_neg]
  · rfl
  · simpa using unspent

section Frame

variable (unspent : ∀ spend ∈ spends, spend.origin ≠ origin)

include unspent

/-- A change leaves other jigs where they are. -/
theorem current_written_of_ne (unwritten : ∀ o ∈ outputs, o.origin ≠ origin) :
    (s.written spends outputs).current[origin]? = s.current[origin]? := by
  have others : outputs.reverse.find? (·.origin = origin) = none := by
    simpa [List.find?_eq_none] using unwritten
  rw [written, current_foldl_add, others, current_foldl_remove, if_neg]
  · rfl
  · simpa using unspent

/-- A change that does not spend a jig leaves its tombstone alone. -/
theorem destroyed_written_of_ne :
    (s.written spends outputs).destroyed[origin]? = s.destroyed[origin]? := by
  rw [written, destroyed_foldl_add, destroyed_foldl_remove_of_unspent]
  simpa using unspent

end Frame

/-! ### The tables after all writes -/

/-- A jig that is written down and not spent is not current. -/
theorem Permits.idle_of_unspent (permitted : s.Permits spends outputs) (ho : o ∈ outputs)
    (unspent : ∀ spend ∈ spends, spend.origin ≠ o.origin) : s.current[o.origin]? = none := by
  rw [← Option.not_isSome_iff_eq_none]
  intro known
  obtain ⟨spend, hs, same⟩ := permitted.room o ho (.inl known)
  exact unspent spend hs same

/-- Stored are the outputs, if they are at different places, and what was stored and is not
spent. -/
theorem Permits.live_written (permitted : s.Permits spends outputs)
    (locations : (outputs.map (·.location)).Nodup) (location : Pointer) (o : Output) :
    (s.written spends outputs).live[location]? = some o ↔
      o ∈ outputs ∧ o.location = location ∨
        s.live[location]? = some o ∧ ∀ spend ∈ spends, spend.location ≠ location := by
  rw [written, live_foldl_add, Option.or_eq_some_iff, find?_reverse_eq_some_iff locations,
    live_foldl_remove]
  refine or_congr_right ?_
  constructor
  · rintro ⟨-, stored⟩
    split at stored
    case isTrue => cases stored
    case isFalse unspent =>
      exact ⟨stored, fun spend hs place => unspent (List.mem_map.2 ⟨spend, hs, place⟩)⟩
  · rintro ⟨stored, unspent⟩
    refine ⟨List.find?_eq_none.2 fun other ho place => ?_, ?_⟩
    · have free := permitted.free other (List.mem_reverse.1 ho)
      rw [of_decide_eq_true place, stored] at free
      cases free
    · rw [if_neg, stored]
      rintro mem
      obtain ⟨spend, hs, place⟩ := List.mem_map.1 mem
      exact unspent spend hs place

/-- Current are the jigs of the outputs, if they are different ones, and those that were current and
are not spent. -/
theorem Permits.current_written (permitted : s.Permits spends outputs)
    (origins : (outputs.map (·.origin)).Nodup) (origin location : Pointer) :
    (s.written spends outputs).current[origin]? = some location ↔
      (∃ o ∈ outputs, o.origin = origin ∧ o.location = location) ∨
        s.current[origin]? = some location ∧ ∀ spend ∈ spends, spend.origin ≠ origin := by
  rw [written, current_foldl_add, Option.or_eq_some_iff, Option.map_eq_some_iff,
    current_foldl_remove]
  simp only [find?_reverse_eq_some_iff origins, and_assoc]
  refine or_congr_right ?_
  constructor
  · rintro ⟨-, before⟩
    split at before
    case isTrue => cases before
    case isFalse unspent =>
      exact ⟨before, fun spend hs same => unspent (List.mem_map.2 ⟨spend, hs, same⟩)⟩
  · rintro ⟨before, unspent⟩
    refine ⟨?_, ?_⟩
    · rw [Option.map_eq_none_iff, List.find?_eq_none]
      intro o ho same
      have same : o.origin = origin := of_decide_eq_true same
      have idle := permitted.idle_of_unspent (List.mem_reverse.1 ho) (same ▸ unspent)
      rw [same, before] at idle
      cases idle
    · rw [if_neg, before]
      rintro mem
      obtain ⟨spend, hs, same⟩ := List.mem_map.1 mem
      exact unspent spend hs same

section Written

variable (h : s.Aligned) (permitted : s.Permits spends outputs)

include h permitted

/-- A place is spent exactly if the jig that is current there is spent. -/
theorem Aligned.spent_iff (hc : s.current[origin]? = some location) :
    (∃ spend ∈ spends, spend.location = location) ↔ ∃ spend ∈ spends, spend.origin = origin := by
  constructor
  · rintro ⟨spend, hs, place⟩
    have here : s.IsCurrent ⟨origin, location⟩ := hc
    exact ⟨spend, hs, h.located.origin_eq (permitted.due spend hs) here place⟩
  · rintro ⟨spend, hs, same⟩
    have there := permitted.due spend hs
    rw [same, hc] at there
    exact ⟨spend, hs, (Option.some.inj there).symm⟩

/-- No jig is written down that has been destroyed. -/
theorem Aligned.standing (ho : o ∈ outputs) : s.destroyed[o.origin]? = none := by
  rw [← Option.not_isSome_iff_eq_none]
  intro left
  obtain ⟨spend, hs, same⟩ := permitted.room o ho (.inr left)
  have there := permitted.due spend hs
  rw [same, h.gone o.origin left] at there
  cases there

/-- The jigs that are destroyed are those that are spent and not written down again. -/
theorem Aligned.destroyed_written (origin : Pointer) :
    (s.written spends outputs).destroyed[origin]? =
      if (∃ spend ∈ spends, spend.origin = origin) ∧ ∀ o ∈ outputs, o.origin ≠ origin then
        (s.byOrigin origin).map (tombstone · origin)
      else s.destroyed[origin]? := by
  rw [written, destroyed_foldl_add, h.located.destroyed_foldl_remove permitted.due]
  simp [List.mem_map]

/-- A jig that is spent and not written down leaves its last output, with a frozen lock. -/
theorem Aligned.extinct_written (origins : (outputs.map (·.origin)).Nodup)
    (locations : (outputs.map (·.location)).Nodup) (hs : spend ∈ spends)
    (unwritten : ∀ o ∈ outputs, o.origin ≠ spend.origin) :
    ∃ last : Output, s.byOrigin spend.origin = some last ∧
      (s.written spends outputs).Extinct spend.origin
        { last with lock := ⟨spend.origin, LockKind.frozen.code, []⟩ } := by
  obtain ⟨last, stored, -⟩ := h.current _ _ (permitted.due spend hs)
  have found : s.byOrigin spend.origin = some last :=
    (byOrigin_of_current (permitted.due spend hs)).trans stored
  refine ⟨last, found, ?_, ?_, fun location o there => ?_⟩
  · rw [Option.eq_none_iff_forall_ne_some]
    intro location hc
    rcases (permitted.current_written origins _ _).1 hc with ⟨o, ho, same, -⟩ | ⟨-, unspent⟩
    · exact unwritten o ho same
    · exact unspent spend hs rfl
  · rw [h.destroyed_written permitted, if_pos ⟨⟨spend, hs, rfl⟩, unwritten⟩, found]
    rfl
  · rcases (permitted.live_written locations _ _).1 there with ⟨ho, -⟩ | ⟨before, unspent⟩
    · exact unwritten o ho
    · rintro same
      have hc := h.live location o before
      obtain ⟨other, ho, place⟩ := (h.spent_iff permitted hc).2 ⟨spend, hs, same.symm⟩
      exact unspent other ho place

/-- The same is found for a jig that is neither spent nor written down. -/
theorem Aligned.untouched_written (unspent : ∀ spend ∈ spends, spend.origin ≠ origin)
    (unwritten : ∀ o ∈ outputs, o.origin ≠ origin) :
    (s.written spends outputs).current[origin]? = s.current[origin]? ∧
      (s.written spends outputs).byOrigin origin = s.byOrigin origin := by
  have same : (s.written spends outputs).current[origin]? = s.current[origin]? :=
    current_written_of_ne unspent unwritten
  refine ⟨same, ?_⟩
  rw [byOrigin, byOrigin, same]
  rcases hc : s.current[origin]? with _ | location
  · exact destroyed_written_of_ne unspent
  · obtain ⟨o, stored, -⟩ := h.current origin location hc
    refine live_written_of_ne (fun spend hs place => ?_) fun other ho place => ?_
    · obtain ⟨other, ho, spent⟩ := (h.spent_iff permitted hc).1 ⟨spend, hs, place⟩
      exact unspent other ho spent
    · have free := permitted.free other ho
      rw [place, stored] at free
      cases free

/-- What a change leads to that is permitted. -/
theorem Aligned.successor (origins : (outputs.map (·.origin)).Nodup)
    (locations : (outputs.map (·.location)).Nodup) :
    Successor s spends outputs (s.written spends outputs) where
  live := permitted.live_written locations
  current := permitted.current_written origins
  tombs _ hs unwritten := h.extinct_written permitted origins locations hs unwritten
  destroyed origin kept := by
    rw [h.destroyed_written permitted, if_neg]
    rintro ⟨⟨spend, hs, spent⟩, unwritten⟩
    rcases kept with unspent | ⟨o, ho, written⟩
    · exact unspent spend hs spent
    · exact unwritten o ho written
  untouched _ unspent unwritten := h.untouched_written permitted unspent unwritten

end Written

/-- What a destroyed jig has left stays unless the jig is spent and not written down again. -/
theorem Successor.destroyed_of_kept (next : Successor s spends outputs t)
    (kept : ¬ ∃ spend ∈ spends, spend.origin = origin ∧ ∀ o ∈ outputs, o.origin ≠ spend.origin) :
    t.destroyed[origin]? = s.destroyed[origin]? := by
  refine next.destroyed origin (Classical.byContradiction fun neither => ?_)
  simp only [not_or, not_forall, not_exists, not_and, not_not, exists_prop] at neither
  obtain ⟨⟨spend, hs, rfl⟩, unwritten⟩ := neither
  exact kept ⟨spend, hs, rfl, unwritten⟩

/-- Stores whose tables have the same entries are the same. -/
theorem eq_of_getElem? {t' : Store}
    (live : ∀ location : Pointer, t.live[location]? = t'.live[location]?)
    (current : ∀ origin : Pointer, t.current[origin]? = t'.current[origin]?)
    (destroyed : ∀ origin : Pointer, t.destroyed[origin]? = t'.destroyed[origin]?) : t = t' := by
  cases t
  cases t'
  cases Std.ExtTreeMap.ext_getElem? fun location => live location
  cases Std.ExtTreeMap.ext_getElem? fun origin => current origin
  cases Std.ExtTreeMap.ext_getElem? fun origin => destroyed origin
  rfl

/-- All tables after a change are determined. -/
theorem Successor.unique {t' : Store} (next : Successor s spends outputs t)
    (next' : Successor s spends outputs t') : t = t' := by
  refine eq_of_getElem? (fun location => Option.ext fun o => ?_)
    (fun origin => Option.ext fun location => ?_) fun origin => ?_
  · exact (next.live location o).trans (next'.live location o).symm
  · exact (next.current origin location).trans (next'.current origin location).symm
  · by_cases tomb : ∃ spend ∈ spends, spend.origin = origin ∧ ∀ o ∈ outputs, o.origin ≠ spend.origin
    · obtain ⟨spend, hs, rfl, unwritten⟩ := tomb
      obtain ⟨last, found, gone⟩ := next.tombs spend hs unwritten
      obtain ⟨last', found', gone'⟩ := next'.tombs spend hs unwritten
      cases found.symm.trans found'
      exact gone.destroyed.trans gone'.destroyed.symm
    · exact (next.destroyed_of_kept tomb).trans (next'.destroyed_of_kept tomb).symm

/-- The tables stay aligned. -/
theorem Successor.aligned (next : Successor s spends outputs t) (h : s.Aligned)
    (permitted : s.Permits spends outputs) : t.Aligned where
  current origin location hc := by
    rcases (next.current origin location).1 hc with ⟨o, ho, key, place⟩ | ⟨before, unspent⟩
    · exact ⟨o, (next.live location o).2 (.inl ⟨ho, place⟩), key, place⟩
    · obtain ⟨o, stored, key, place⟩ := h.current origin location before
      refine ⟨o, (next.live location o).2 (.inr ⟨stored, fun spend hs there => ?_⟩), key, place⟩
      obtain ⟨other, ho, spent⟩ := (h.spent_iff permitted before).1 ⟨spend, hs, there⟩
      exact unspent other ho spent
  live location o stored := by
    rcases (next.live location o).1 stored with ⟨ho, place⟩ | ⟨before, unspent⟩
    · exact (next.current _ _).2 (.inl ⟨o, ho, rfl, place⟩)
    · have hc := h.live location o before
      refine (next.current _ _).2 (.inr ⟨hc, fun spend hs spent => ?_⟩)
      obtain ⟨other, ho, place⟩ := (h.spent_iff permitted hc).2 ⟨spend, hs, spent⟩
      exact unspent other ho place
  gone origin left := by
    rw [Option.eq_none_iff_forall_ne_some]
    intro location hc
    by_cases tomb : ∃ spend ∈ spends, spend.origin = origin ∧ ∀ o ∈ outputs, o.origin ≠ spend.origin
    · obtain ⟨spend, hs, rfl, unwritten⟩ := tomb
      obtain ⟨last, -, extinct⟩ := next.tombs spend hs unwritten
      rw [extinct.current] at hc
      cases hc
    · rw [next.destroyed_of_kept tomb] at left
      rcases (next.current origin location).1 hc with ⟨o, ho, rfl, -⟩ | ⟨before, -⟩
      · rw [h.standing permitted ho] at left
        cases left
      · rw [h.gone origin left] at before
        cases before

/-! ### A small store -/

/-- An output of a public jig. Jigs and places have numbers. -/
def numbered (jig place : UInt32) : Output :=
  ⟨⟨default, jig⟩, ⟨default, place⟩, default, ⟨⟨default, jig⟩, LockKind.everyone.code, []⟩, []⟩

/-- The output of jig `jig` at `place` is spent. -/
def spending (jig place : UInt32) : Spend := ⟨⟨default, jig⟩, ⟨default, place⟩⟩

/-- The first two jigs are current at the places 11 and 12; the third one has been destroyed. -/
def shelf : Store := [spending 3 13].foldl (remove [])
  ([numbered 1 11, numbered 2 12, numbered 3 13].foldl add empty)

theorem consistent_shelf : shelf.Consistent := by
  have stored : ([numbered 1 11, numbered 2 12, numbered 3 13].foldl add empty).Consistent :=
    (consistent_empty.foldl_add (by decide) (by decide) (by decide +kernel) (by decide +kernel)).1
  refine stored.foldl_remove fun spend hs => ?_
  cases List.mem_singleton.1 hs
  show _ = _
  decide +kernel

theorem aligned_shelf : shelf.Aligned := consistent_shelf.aligned

end JigLedger.Store
