import JigLedger.Proofs.Store.Successor

/-!
# Independent changes

Two changes of a store are independent if no jig is spent or written down by both, and neither puts
an output where the other one puts or spends one. On an aligned store neither of them then makes a
difference to what the other one has to fulfil, and each write of the first can be swapped with each
write of the second. So it does not matter which one comes first.
-/

namespace JigLedger.Store

variable {s t : Store} {a b : Output} {spend other : Spend} {spends spends' : List Spend}
  {outputs outputs' : List Output} {origin location : Pointer}

/-- Two changes that have no jig in common, and no place where one of them puts an output. -/
structure Independent (spends : List Spend) (outputs : List Output) (spends' : List Spend)
    (outputs' : List Output) : Prop where
  /-- No jig is spent or written down by both. -/
  origins : ∀ origin ∈ spends.map (·.origin) ++ outputs.map (·.origin),
    origin ∉ spends'.map (·.origin) ++ outputs'.map (·.origin)
  /-- The first change puts outputs where the second one neither puts nor spends any. -/
  left : ∀ o ∈ outputs, (∀ o' ∈ outputs', o'.location ≠ o.location) ∧
    ∀ spend ∈ spends', spend.location ≠ o.location
  /-- The second change puts outputs where the first one neither puts nor spends any. -/
  right : ∀ o ∈ outputs', (∀ o' ∈ outputs, o'.location ≠ o.location) ∧
    ∀ spend ∈ spends, spend.location ≠ o.location

theorem Independent.symm (h : Independent spends outputs spends' outputs') :
    Independent spends' outputs' spends outputs where
  origins origin here there := h.origins origin there here
  left := h.right
  right := h.left

/-! ### Swapping writes -/

/-- Outputs of different jigs at different places are added in any order. -/
theorem add_comm (origins : a.origin ≠ b.origin) (locations : a.location ≠ b.location) :
    (s.add a).add b = (s.add b).add a := by
  refine eq_of_getElem? (fun location => ?_) (fun origin => ?_) fun _ => rfl
  · simp only [live_add]
    by_cases here : b.location = location
    · subst here
      simp [locations]
    · simp [here]
  · simp only [current_add]
    by_cases here : b.origin = origin
    · subst here
      simp [origins]
    · simp [here]

/-- An output is added before or after one of another jig at another place is spent. -/
theorem remove_add_comm (origins : spend.origin ≠ a.origin)
    (locations : spend.location ≠ a.location) :
    (remove outputs s spend).add a = remove outputs (s.add a) spend := by
  refine eq_of_getElem? (fun location => ?_) (fun origin => ?_) fun origin => ?_
  · simp only [live_add, live_remove]
    by_cases here : a.location = location
    · subst here
      simp [locations]
    · simp [here]
  · simp only [current_add, current_remove]
    by_cases here : a.origin = origin
    · subst here
      simp [origins]
    · simp [here]
  · have stored : (s.add a).live[spend.location]? = s.live[spend.location]? := by
      rw [live_add, if_neg locations.symm]
    have left (s : Store) : (s.add a).destroyed = s.destroyed := rfl
    rw [left, destroyed_remove, destroyed_remove, stored, left]

/-- Outputs of different jigs at different places are spent in any order. -/
theorem remove_comm (origins : spend.origin ≠ other.origin)
    (locations : spend.location ≠ other.location) :
    remove outputs' (remove outputs s spend) other =
      remove outputs (remove outputs' s other) spend := by
  refine eq_of_getElem? (fun location => ?_) (fun origin => ?_) fun origin => ?_
  · simp only [live_remove]
    by_cases here : spend.location = location <;> by_cases there : other.location = location <;>
      simp [here, there]
  · simp only [current_remove]
    by_cases here : spend.origin = origin <;> by_cases there : other.origin = origin <;>
      simp [here, there]
  · have stored : (remove outputs s spend).live[other.location]? = s.live[other.location]? := by
      rw [live_remove, if_neg locations]
    have stored' : (remove outputs' s other).live[spend.location]? = s.live[spend.location]? := by
      rw [live_remove, if_neg locations.symm]
    rw [destroyed_remove, destroyed_remove, destroyed_remove, destroyed_remove, stored, stored']
    by_cases here : spend.origin = origin
    · have apart : ¬ other.origin = origin := fun there => origins (here.trans there.symm)
      simp [apart]
    · simp [here]

/-- Steps that can be swapped one by one can be swapped all together. -/
theorem foldl_foldl_comm {σ α β : Type} {f : σ → α → σ} {g : σ → β → σ} {as : List α} {bs : List β}
    (swap : ∀ a ∈ as, ∀ b ∈ bs, ∀ s, g (f s a) b = f (g s b) a) (s : σ) :
    bs.foldl g (as.foldl f s) = as.foldl f (bs.foldl g s) := by
  have past (b : β) (hb : b ∈ bs) (s : σ) : g (as.foldl f s) b = as.foldl f (g s b) := by
    clear * - swap hb
    induction as generalizing s with
    | nil => rfl
    | cons a rest ih =>
      rw [List.foldl_cons, List.foldl_cons, ih fun a ha => swap a (.tail _ ha),
        swap a (.head _) b hb]
  clear swap
  induction bs generalizing s with
  | nil => rfl
  | cons b rest ih =>
    rw [List.foldl_cons, List.foldl_cons, past b (.head _)]
    exact ih _ fun b hb => past b (.tail _ hb)

namespace Independent

variable (h : Independent spends outputs spends' outputs')

include h

/-- What is spent by one change is not spent by the other one. -/
theorem spend_ne_spend (hs : spend ∈ spends) (ho : other ∈ spends') :
    spend.origin ≠ other.origin := fun same =>
  h.origins _ (List.mem_append_left _ (List.mem_map_of_mem hs))
    (List.mem_append_left _ (same ▸ List.mem_map_of_mem ho))

/-- What is spent by the first change is not written down by the second one. -/
theorem spend_ne_output (hs : spend ∈ spends) (hb : b ∈ outputs') : spend.origin ≠ b.origin :=
  fun same => h.origins _ (List.mem_append_left _ (List.mem_map_of_mem hs))
    (List.mem_append_right _ (same ▸ List.mem_map_of_mem hb))

/-- What is written down by one change is not written down by the other one. -/
theorem output_ne_output (ha : a ∈ outputs) (hb : b ∈ outputs') : a.origin ≠ b.origin :=
  fun same => h.origins _ (List.mem_append_right _ (List.mem_map_of_mem ha))
    (List.mem_append_right _ (same ▸ List.mem_map_of_mem hb))

/-- The writes of two changes can be made in any order, if they do not spend at a common place. -/
theorem written_comm
    (places : ∀ spend ∈ spends, ∀ other ∈ spends', spend.location ≠ other.location) :
    (s.written spends outputs).written spends' outputs' =
      (s.written spends' outputs').written spends outputs := by
  have spent (s : Store) : spends'.foldl (remove outputs') (spends.foldl (remove outputs) s) =
      spends.foldl (remove outputs) (spends'.foldl (remove outputs') s) :=
    foldl_foldl_comm (fun spend hs other ho _ =>
      remove_comm (h.spend_ne_spend hs ho) (places spend hs other ho)) s
  have added (s : Store) : outputs'.foldl add (outputs.foldl add s) =
      outputs.foldl add (outputs'.foldl add s) :=
    foldl_foldl_comm (fun a ha b hb _ =>
      add_comm (h.output_ne_output ha hb) ((h.left a ha).1 b hb).symm) s
  have spent_added (s : Store) : spends'.foldl (remove outputs') (outputs.foldl add s) =
      outputs.foldl add (spends'.foldl (remove outputs') s) :=
    foldl_foldl_comm (fun a ha spend hs _ =>
      (remove_add_comm (h.symm.spend_ne_output hs ha) ((h.left a ha).2 spend hs)).symm) s
  have added_spent (s : Store) : outputs'.foldl add (spends.foldl (remove outputs) s) =
      spends.foldl (remove outputs) (outputs'.foldl add s) :=
    foldl_foldl_comm (fun spend hs b hb _ =>
      remove_add_comm (h.spend_ne_output hs hb) ((h.right b hb).2 spend hs)) s
  calc outputs'.foldl add (spends'.foldl (remove outputs')
        (outputs.foldl add (spends.foldl (remove outputs) s)))
    _ = outputs'.foldl add (outputs.foldl add
        (spends'.foldl (remove outputs') (spends.foldl (remove outputs) s))) := by rw [spent_added]
    _ = outputs.foldl add (outputs'.foldl add
        (spends.foldl (remove outputs) (spends'.foldl (remove outputs') s))) := by
      rw [added, spent]
    _ = outputs.foldl add (spends.foldl (remove outputs)
        (outputs'.foldl add (spends'.foldl (remove outputs') s))) := by rw [added_spent]

/-- The writes of a change make no difference to what the other one has to fulfil. -/
theorem permits_written :
    (s.written spends outputs).Permits spends' outputs' ↔ s.Permits spends' outputs' := by
  have current_spend (other) (ho : other ∈ spends') :
      (s.written spends outputs).current[other.origin]? = s.current[other.origin]? :=
    current_written_of_ne (fun _ hs => h.spend_ne_spend hs ho)
      fun _ ha => (h.symm.spend_ne_output ho ha).symm
  have current_output (b) (hb : b ∈ outputs') :
      (s.written spends outputs).current[b.origin]? = s.current[b.origin]? :=
    current_written_of_ne (fun _ hs => h.spend_ne_output hs hb) fun _ ha => h.output_ne_output ha hb
  have destroyed (b) (hb : b ∈ outputs') :
      (s.written spends outputs).destroyed[b.origin]? = s.destroyed[b.origin]? :=
    destroyed_written_of_ne fun _ hs => h.spend_ne_output hs hb
  have live (b) (hb : b ∈ outputs') :
      (s.written spends outputs).live[b.location]? = s.live[b.location]? :=
    live_written_of_ne (h.right b hb).2 (h.right b hb).1
  constructor
  · rintro ⟨due, free, room⟩
    exact ⟨fun other ho => current_spend other ho ▸ due other ho,
      fun b hb => live b hb ▸ free b hb,
      fun b hb => current_output b hb ▸ destroyed b hb ▸ room b hb⟩
  · rintro ⟨due, free, room⟩
    exact ⟨fun other ho => (current_spend other ho).trans (due other ho),
      fun b hb => (live b hb).trans (free b hb),
      fun b hb => by rw [current_output b hb, destroyed b hb]; exact room b hb⟩

/-- The changes are applied one after the other exactly if each of them is permitted at first. -/
theorem apply_both : (s.apply spends outputs >>= (·.apply spends' outputs')) = .ok t ↔
    s.Permits spends outputs ∧ s.Permits spends' outputs' ∧
      t = (s.written spends outputs).written spends' outputs' := by
  simp only [bind_eq_ok, apply_eq_ok_iff_permits]
  constructor
  · rintro ⟨_, ⟨first, rfl⟩, second, rfl⟩
    exact ⟨first, h.permits_written.1 second, rfl⟩
  · rintro ⟨first, second, rfl⟩
    exact ⟨_, ⟨first, rfl⟩, h.permits_written.2 second, rfl⟩

end Independent

/-- Two independent changes of an aligned store are applied in one order if they are applied in the
other, and they lead to the same store, with the same snapshot. -/
theorem independent_apply_comm (aligned : s.Aligned)
    (h : Independent spends outputs spends' outputs') :
    ((∃ t, (s.apply spends outputs >>= (·.apply spends' outputs')) = .ok t) ↔
      ∃ t, (s.apply spends' outputs' >>= (·.apply spends outputs)) = .ok t) ∧
    ∀ t t', (s.apply spends outputs >>= (·.apply spends' outputs')) = .ok t →
      (s.apply spends' outputs' >>= (·.apply spends outputs)) = .ok t' →
        t = t' ∧ t.snapshot = t'.snapshot := by
  simp only [h.apply_both, h.symm.apply_both]
  constructor
  · constructor
    · rintro ⟨_, first, second, -⟩
      exact ⟨_, second, first, rfl⟩
    · rintro ⟨_, second, first, -⟩
      exact ⟨_, first, second, rfl⟩
  · rintro _ _ ⟨first, second, rfl⟩ ⟨-, -, rfl⟩
    -- The one jig that is current at a place cannot be spent by both.
    have places : ∀ spend ∈ spends, ∀ other ∈ spends', spend.location ≠ other.location :=
      fun spend hs other ho place => h.spend_ne_spend hs ho
        (aligned.located.origin_eq (first.due spend hs) (second.due other ho) place)
    have same := h.written_comm (s := s) places
    exact ⟨same, congrArg snapshot same⟩

/-- The first jig moves, and the second one is destroyed while a fourth one is new, in both
orders. -/
theorem independent_apply_comm_shelf :
    shelf.Aligned ∧ Independent [spending 1 11] [numbered 1 21] [spending 2 12] [numbered 4 24] ∧
    ∃ t, (shelf.apply [spending 1 11] [numbered 1 21] >>=
        (·.apply [spending 2 12] [numbered 4 24])) = .ok t ∧
      ∃ t', (shelf.apply [spending 2 12] [numbered 4 24] >>=
        (·.apply [spending 1 11] [numbered 1 21])) = .ok t' ∧ t.snapshot = t'.snapshot := by
  have apart : Independent [spending 1 11] [numbered 1 21] [spending 2 12] [numbered 4 24] :=
    ⟨by decide, by decide, by decide⟩
  have first : shelf.Permits [spending 1 11] [numbered 1 21] :=
    ⟨by decide +kernel, by decide +kernel, by decide +kernel⟩
  have second : shelf.Permits [spending 2 12] [numbered 4 24] :=
    ⟨by decide +kernel, by decide +kernel, by decide +kernel⟩
  obtain ⟨iff, same⟩ := independent_apply_comm aligned_shelf apart
  have done := apart.apply_both.2 ⟨first, second, rfl⟩
  obtain ⟨t, done'⟩ := iff.1 ⟨_, done⟩
  exact ⟨aligned_shelf, apart, _, done, t, done', (same _ t done done').2⟩

end JigLedger.Store
