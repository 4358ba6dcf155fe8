import Mathlib.Data.List.Forall2
import Mathlib.Data.List.Nodup

/-!
# Results that may be errors

When a check or a step succeeds that is put together from others, all of them have succeeded.
-/

namespace JigLedger

variable {α β ε ε' : Type}

theorem bind_eq_ok {x : Except ε α} {f : α → Except ε β} {b : β} :
    x >>= f = .ok b ↔ ∃ a, x = .ok a ∧ f a = .ok b := by
  cases x <;> simp [bind, Except.bind]

theorem mapError_eq_ok {x : Except ε α} {f : ε → ε'} {a : α} :
    x.mapError f = .ok a ↔ x = .ok a := by
  cases x with
  | ok _ => exact ⟨fun h => by cases h; rfl, fun h => by cases h; rfl⟩
  | error _ => exact ⟨nofun, nofun⟩

theorem toOption_eq_some {x : Except ε α} {a : α} : x.toOption = some a ↔ x = .ok a := by
  cases x <;> simp [Except.toOption]

/-- The only thing that a computation can give; it may also fail. -/
def Gives (x : Except ε α) (a : α) : Prop := ∀ b, x = .ok b → b = a

theorem gives_ok (a : α) : Gives (.ok a : Except ε α) a := fun _ same => (Except.ok.inj same).symm

theorem gives_error (e : ε) (a : α) : Gives (.error e) a := nofun

theorem Gives.bind {x : Except ε α} {f : α → Except ε β} {a : α} {b : β} (hx : Gives x a)
    (hf : Gives (f a) b) : Gives (x >>= f) b := by
  intro b' h
  obtain ⟨a', first, second⟩ := bind_eq_ok.1 h
  exact hf b' (hx a' first ▸ second)

/-- A check does not change what is given after it. -/
theorem Gives.after {x : Except ε α} {y : Except ε β} {b : β} (hy : Gives y b) :
    Gives (x >>= fun _ => y) b := by
  intro b' h
  obtain ⟨_, -, second⟩ := bind_eq_ok.1 h
  exact hy b' second

/-- What succeeds gives what can be got out of it. -/
theorem eq_ok_getD {x : Except ε α} (d : α) (h : x.isOk = true) : x = .ok (x.toOption.getD d) := by
  cases x with
  | ok _ => rfl
  | error _ => cases h

/-- Each item is related to something if all of them are related to a list. -/
theorem exists_forall₂ {R : α → β → Prop} {items : List α} :
    (∃ others, List.Forall₂ R items others) ↔ ∀ a ∈ items, ∃ b, R a b := by
  induction items with
  | nil => exact ⟨fun _ => nofun, fun _ => ⟨[], .nil⟩⟩
  | cons a items ih =>
    rw [List.forall_mem_cons, ← ih]
    constructor
    · rintro ⟨_, _ | ⟨here, others⟩⟩
      exact ⟨⟨_, here⟩, _, others⟩
    · rintro ⟨⟨b, here⟩, bs, others⟩
      exact ⟨b :: bs, .cons here others⟩

/-- Items at the same index are related. -/
theorem forall₂_getElem? {α β : Type} {R : α → β → Prop} {as : List α} {bs : List β}
    (h : List.Forall₂ R as bs) {i : Nat} {a : α} {b : β} (ha : as[i]? = some a)
    (hb : bs[i]? = some b) : R a b := by
  induction h generalizing i with
  | nil => cases ha
  | cons here _ ih =>
    cases i with
    | zero =>
      cases ha
      cases hb
      exact here
    | succ i => exact ih ha hb

/-- An item is found by its key if the keys are all different. -/
theorem find?_eq_some_iff_of_nodup [DecidableEq β] {f : α → β} {items : List α}
    (nodup : (items.map f).Nodup) {b : β} {a : α} :
    items.find? (fun a => f a = b) = some a ↔ a ∈ items ∧ f a = b := by
  constructor
  · intro found
    have key := List.find?_some found
    exact ⟨List.mem_of_find?_eq_some found, of_decide_eq_true key⟩
  · rintro ⟨mem, rfl⟩
    obtain ⟨first, found⟩ : ∃ first, items.find? (fun other => f other = f a) = some first := by
      rw [← Option.isSome_iff_exists, List.find?_isSome]
      exact ⟨a, mem, decide_eq_true rfl⟩
    have key := List.find?_some found
    have there := List.mem_of_find?_eq_some found
    rw [found, List.inj_on_of_nodup_map nodup there mem (of_decide_eq_true key)]

/-- A check of all items succeeds if it does so for each of them. -/
theorem forM_eq_ok {f : α → Except ε Unit} {items : List α} {u : Unit} :
    items.forM f = .ok u ↔ ∀ a ∈ items, f a = .ok () := by
  induction items with
  | nil => simp [pure, Except.pure]
  | cons a rest ih =>
    rw [List.forM_eq_forM] at ih
    rw [List.forM_eq_forM, List.forM_cons, bind_eq_ok, List.forall_mem_cons, ← ih]
    exact ⟨fun ⟨_, here, others⟩ => ⟨here, others⟩, fun ⟨here, others⟩ => ⟨⟨⟩, here, others⟩⟩

/-- A list of results is one of items when each of them has its result. -/
theorem mapM_eq_ok {f : α → Except ε β} {items : List α} {results : List β} :
    items.mapM f = .ok results ↔ List.Forall₂ (fun a b => f a = .ok b) items results := by
  induction items generalizing results with
  | nil => simp [pure, Except.pure, eq_comm]
  | cons a rest ih =>
    simp only [List.mapM_cons, bind_eq_ok, pure, Except.pure, Except.ok.injEq, ih]
    constructor
    · rintro ⟨b, here, bs, others, rfl⟩
      exact .cons here others
    · rintro (_ | ⟨here, others⟩)
      exact ⟨_, here, _, others, rfl⟩

/-- If there is a result then there was an item. -/
theorem exists_of_mapM_eq_ok_some {f : α → Except ε β} {item : Option α} {b : β}
    (h : item.mapM f = .ok (some b)) : ∃ a, item = some a ∧ f a = .ok b := by
  cases item with
  | none => cases h
  | some a =>
    obtain ⟨b', here, same⟩ := bind_eq_ok.1 ((map_eq_pure_bind some (f a)).symm.trans h)
    cases same
    exact ⟨a, rfl, here⟩

/-- What holds at the start of a fold, and is carried on by each step, holds at the end. It may be
about the items that have been taken. -/
theorem foldlM_induction {P : List α → β → Prop} {f : β → α → Except ε β} {items : List α}
    {start result : β} (h : P [] start)
    (step : ∀ taken, ∀ a ∈ items, ∀ b b', P taken b → f b a = .ok b' → P (taken ++ [a]) b')
    (done : items.foldlM f start = .ok result) : P items result := by
  suffices ∀ taken, P taken start → P (taken ++ items) result from this [] h
  clear h
  induction items generalizing start with
  | nil =>
    cases done
    exact fun taken h => taken.append_nil.symm ▸ h
  | cons a rest ih =>
    rw [List.foldlM_cons, bind_eq_ok] at done
    obtain ⟨next, here, others⟩ := done
    intro taken h
    rw [List.append_cons]
    exact ih (fun taken a ha => step taken a (.tail _ ha)) others _
      (step taken a (.head _) _ _ h here)

/-- Each of the results is that of an item. -/
theorem exists_of_mapM_eq_ok {f : α → Except ε β} {items : List α} {results : List β}
    (h : items.mapM f = .ok results) {b : β} (mem : b ∈ results) : ∃ a ∈ items, f a = .ok b := by
  have pairs := mapM_eq_ok.1 h
  clear h
  induction pairs with
  | nil => cases mem
  | cons here _ ih =>
    rcases List.mem_cons.1 mem with rfl | mem
    · exact ⟨_, .head _, here⟩
    · obtain ⟨a, ha, h⟩ := ih mem
      exact ⟨a, .tail _ ha, h⟩

end JigLedger
