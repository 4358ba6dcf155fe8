import JigLedger.Proofs.Store

/-!
# Stores under any changes

A store changes by inserting an output and by applying spends and outputs, whatever these are; a
change that is refused leaves it as it was. Inserting looks at the place of the output, but applying
compares the outputs of a change with the store only, and not with each other. So the tables of a
store belong together as long as the changes that are applied keep their outputs apart, and a change
that does not is applied nevertheless, and loses an output.
-/

namespace JigLedger.Store

/-- A change of a store. -/
inductive Change where
  | insert (o : Output)
  | apply (spends : List Spend) (outputs : List Output)

namespace Change

/-- The store after a change, or why it is refused. -/
def on : Change → Store → Except StoreError Store
  | insert o, s => s.insert o
  | apply spends outputs, s => s.apply spends outputs

/-- What a change adds. -/
def outputs : Change → List Output
  | insert o => [o]
  | apply _ outputs => outputs

/-- Outputs of one jig, or at one place, are the same output. -/
def Tidy (change : Change) : Prop :=
  ∀ a ∈ change.outputs, ∀ b ∈ change.outputs, a.origin = b.origin ∨ a.location = b.location → a = b

end Change

/-- The store after a change that may be refused. -/
def after (s : Store) (change : Change) : Store :=
  match change.on s with
  | .ok t => t
  | .error _ => s

/-- The store after several changes. -/
def afterAll (s : Store) (changes : List Change) : Store := changes.foldl after s

/-- Something holds of each change that is not refused and the store that it leads to. -/
def Accepted (P : Change → Store → Prop) : Store → List Change → Prop
  | _, [] => True
  | s, change :: rest => (∀ t, change.on s = .ok t → P change t) ∧ Accepted P (s.after change) rest

variable {s t : Store} {o : Output} {outputs : List Output} {change : Change}

/-- An output is in the store as it is: at its place, the current one of its jig. -/
def Holds (s : Store) (o : Output) : Prop :=
  s.live[o.location]? = some o ∧ s.current[o.origin]? = some o.location

/-- Neither the place of an output nor its jig is known. -/
def Lacks (s : Store) (o : Output) : Prop :=
  s.live[o.location]? = none ∧ s.byOrigin o.origin = none

/-- Adding an output that is there changes nothing. -/
theorem Holds.add_eq (h : s.Holds o) : s.add o = s := by
  have live : s.live.insert o.location o = s.live := by
    refine Std.ExtTreeMap.ext_getElem? fun location => ?_
    rw [Std.ExtTreeMap.getElem?_insert]
    split
    case isTrue same =>
      rw [← Std.LawfulEqCmp.eq_of_compare same, h.1]
    case isFalse => rfl
  have current : s.current.insert o.origin o.location = s.current := by
    refine Std.ExtTreeMap.ext_getElem? fun origin => ?_
    rw [Std.ExtTreeMap.getElem?_insert]
    split
    case isTrue same =>
      rw [← Std.LawfulEqCmp.eq_of_compare same, h.2]
    case isFalse => rfl
  rw [Store.add, live, current]

/-- An output that has been added is there. -/
theorem holds_add (s : Store) (o : Output) : (s.add o).Holds o :=
  ⟨by rw [live_add, if_pos rfl], by rw [current_add, if_pos rfl]⟩

section Apart

variable {other : Output} (origins : o.origin ≠ other.origin)
  (locations : o.location ≠ other.location)

include origins locations

/-- An output stays there when another jig is put elsewhere. -/
theorem Holds.add (h : s.Holds other) : (s.add o).Holds other :=
  ⟨by rw [live_add, if_neg locations, h.1], by rw [current_add, if_neg origins, h.2]⟩

theorem Lacks.add (consistent : s.Consistent) (free : s.live[o.location]? = none)
    (h : s.Lacks other) : (s.add o).Lacks other :=
  ⟨by rw [live_add, if_neg locations, h.1],
    by rw [consistent.byOrigin_add free, if_neg origins, h.2]⟩

end Apart

/-- Adding outputs that are the same when they agree in their jig or place keeps a store consistent,
and all of them are in it. -/
theorem Consistent.foldl_add_tidy (h : s.Consistent)
    (tidy : ∀ a ∈ outputs, ∀ b ∈ outputs, a.origin = b.origin ∨ a.location = b.location → a = b)
    (room : ∀ o ∈ outputs, s.Lacks o ∨ s.Holds o) :
    (outputs.foldl Store.add s).Consistent ∧ ∀ o, (o ∈ outputs ∨ s.Holds o ∧
      ∀ a ∈ outputs, a.origin ≠ o.origin ∧ a.location ≠ o.location) →
        (outputs.foldl Store.add s).Holds o := by
  induction outputs generalizing s with
  | nil =>
    refine ⟨h, fun o ho => ?_⟩
    rcases ho with ho | ho
    · cases ho
    · exact ho.1
  | cons first rest ih =>
    have apart {o : Output} (ho : o ∈ rest) (ne : o ≠ first) :
        first.origin ≠ o.origin ∧ first.location ≠ o.location := by
      constructor <;> intro same
      · exact ne (tidy first (.head _) o (.tail _ ho) (.inl same)).symm
      · exact ne (tidy first (.head _) o (.tail _ ho) (.inr same)).symm
    have consistent : (s.add first).Consistent := by
      rcases room first (.head _) with lacks | holds
      · exact h.add lacks.1 lacks.2
      · exact holds.add_eq.symm ▸ h
    have room' : ∀ o ∈ rest, (s.add first).Lacks o ∨ (s.add first).Holds o := by
      intro o ho
      by_cases same : o = first
      · exact .inr (same ▸ holds_add s first)
      obtain ⟨origins, locations⟩ := apart ho same
      rcases room first (.head _) with free | holds
      · exact (room o (.tail _ ho)).imp (·.add origins locations h free.1) (·.add origins locations)
      · exact holds.add_eq.symm ▸ room o (.tail _ ho)
    obtain ⟨done, found⟩ := ih consistent
      (fun a ha b hb => tidy a (.tail _ ha) b (.tail _ hb)) room'
    refine ⟨done, fun o ho => found o ?_⟩
    rcases ho with ho | ⟨holds, others⟩
    · rcases List.mem_cons.1 ho with rfl | ho
      · by_cases again : o ∈ rest
        · exact .inl again
        · refine .inr ⟨holds_add s o, fun a ha => ?_⟩
          have ne : a ≠ o := fun same => again (same ▸ ha)
          exact ⟨(apart ha ne).1.symm, (apart ha ne).2.symm⟩
      · exact .inl ho
    · obtain ⟨origins, locations⟩ := others first (.head _)
      exact .inr ⟨holds.add origins locations, fun a ha => others a (.tail _ ha)⟩

/-- A change that is applied keeps its outputs apart exactly if the store is consistent afterwards
and has all of them. -/
theorem Consistent.tidy_iff (h : s.Consistent) (done : change.on s = .ok t) :
    change.Tidy ↔ t.Consistent ∧ ∀ o ∈ change.outputs, t.Holds o := by
  constructor
  · intro tidy
    cases change with
    | insert o =>
      obtain ⟨unknown, free, rfl⟩ := h.insert_eq_ok.1 done
      refine ⟨h.add free unknown, fun other ho => ?_⟩
      cases List.mem_singleton.1 ho
      exact holds_add s o
    | apply spends outputs =>
      obtain ⟨due, room, rfl⟩ := h.apply_eq_ok.1 done
      have lacks o (ho : o ∈ outputs) : (spends.foldl (remove outputs) s).Lacks o :=
        ⟨live_of_room room o ho, h.unknown_of_room due room o ho⟩
      obtain ⟨consistent, found⟩ :=
        (h.foldl_remove due).foldl_add_tidy tidy fun o ho => .inl (lacks o ho)
      exact ⟨consistent, fun o ho => found o (.inl ho)⟩
  · rintro ⟨-, found⟩ a ha b hb same
    have place : a.location = b.location := by
      rcases same with origins | locations
      · have current := (found a ha).2
        rw [origins, (found b hb).2] at current
        exact (Option.some.inj current).symm
      · exact locations
    have here := (found a ha).1
    rw [place, (found b hb).1] at here
    exact (Option.some.inj here).symm

/-- A store is as consistent after several changes as they keep their outputs apart. -/
theorem Consistent.accepted_iff (h : s.Consistent) (changes : List Change) :
    (Accepted (fun change _ => change.Tidy) s changes ↔
      Accepted (fun change t => t.Consistent ∧ ∀ o ∈ change.outputs, t.Holds o) s changes) ∧
    (Accepted (fun change _ => change.Tidy) s changes → (s.afterAll changes).Consistent) := by
  induction changes generalizing s with
  | nil => exact ⟨.rfl, fun _ => h⟩
  | cons change rest ih =>
    rw [afterAll, List.foldl_cons, ← afterAll]
    rcases hc : change.on s with e | t
    · have same : s.after change = s := by rw [after, hc]
      simp only [Accepted, hc, same, reduceCtorEq, false_implies, implies_true, true_and]
      exact ih h
    · have next : s.after change = t := by rw [after, hc]
      have here := h.tidy_iff hc
      simp only [Accepted, hc, next, Except.ok.injEq, forall_eq']
      refine ⟨⟨fun all => ?_, fun all => ?_⟩, fun all => (ih (here.1 all.1).1).2 all.2⟩
      · have consistent := here.1 all.1
        exact ⟨consistent, (ih consistent.1).1.1 all.2⟩
      · exact ⟨here.2 all.1, (ih all.1.1).1.2 all.2⟩

/-- The store is consistent after each change, applied or refused, and has all that was added,
exactly if every change that is applied keeps its outputs apart. Then what is found for a jig is an
output of this jig, and what is found at a place is an output with this place. -/
theorem consistent_iff_tidy (changes : List Change) :
    (Accepted (fun change _ => change.Tidy) .empty changes ↔
      Accepted (fun change t => t.Consistent ∧ ∀ o ∈ change.outputs, t.Holds o) .empty changes) ∧
    (Accepted (fun change _ => change.Tidy) .empty changes →
      (empty.afterAll changes).Consistent ∧
      (∀ origin o, (empty.afterAll changes).byOrigin origin = some o → o.origin = origin) ∧
      ∀ location o, (empty.afterAll changes).byLocation location = some o →
        o.location = location) := by
  obtain ⟨iff, last⟩ := consistent_empty.accepted_iff changes
  refine ⟨iff, fun tidy => ⟨last tidy, fun origin o found => ?_, fun location o found => ?_⟩⟩
  · exact (last tidy).keyed origin o found
  · exact ((last tidy).byLocation found).1

end JigLedger.Store
