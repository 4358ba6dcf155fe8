import JigLedger.Proofs.Engine.Computation
import JigLedger.Proofs.Memory

/-!
# Footprints in memory

A computation that fills an area of memory writes to this area and to what it has allocated itself,
and nowhere else. What it promises depends on these bytes only, so it still holds after everything
that is written elsewhere later. Two computations that fill disjoint areas therefore keep both
promises when one follows the other.

Which memory is meant is left open: a view says of a session what the memory is and which area of it
has been handed out so far.
-/

namespace JigLedger.Engine

/-- What a session shows: a memory, and the area of it that has been handed out. -/
abbrev View := Session → LinearMemory → Set Nat → Prop

variable {view : View} {α β : Type} {W W₁ W₂ : Set Nat}

/-- Each success writes to an area and to what has been handed out meanwhile, and what is promised
holds of all memories with the same bytes there. -/
structure Fills (view : View) (W : Set Nat) (m : Engine α) (Q : α → LinearMemory → Prop) :
    Prop where
  leads : ∀ {s mem A a t}, view s mem A → W ⊆ A → runFrom s m = (.ok a, t) →
    ∃ mem' A', view t mem' A' ∧ A ⊆ A' ∧ LinearMemory.AgreesOn (A \ W) mem mem' ∧
      ∀ later, LinearMemory.AgreesOn (W ∪ A' \ A) mem' later → Q a later

/-- A heap hands out areas that are within the memory and apart from each other, and its other bytes
in use stay as they are. -/
structure Serves (view : View) (heap : Heap Engine) : Prop where
  size : ∀ {s mem A}, view s mem A → mem.size ≤ UInt32.size
  alloc : ∀ {s mem A size p t}, view s mem A → runFrom s (heap.alloc size) = (.ok p, t) →
    p ≠ 0 ∧ ∃ mem', view t mem' (A ∪ span p.toNat size.toNat) ∧ LinearMemory.AgreesOn A mem mem' ∧
      p.toNat + size.toNat ≤ mem'.size ∧ Disjoint A (span p.toNat size.toNat)
  write : ∀ {s mem A address bs t}, view s mem A →
    runFrom s (heap.write address bs) = (.ok (), t) → ∃ mem', mem.write address bs = .ok mem' ∧
      (span address.toNat bs.length ⊆ A → view t mem' A)
  fail : ∀ {α : Type} {s t} {e : MemoryError} {a : α}, runFrom s (heap.fail e) ≠ (.ok a, t)

/-- The bytes from an address on are in an area, as far as there are such bytes at all. -/
def Covers (W : Set Nat) (address : UInt32) (size : Nat) : Prop :=
  address.toNat + size ≤ UInt32.size → span address.toNat size ⊆ W

theorem covers_span (address : UInt32) (size : Nat) :
    Covers (span address.toNat size) address size := fun _ => subset_rfl

namespace Fills

variable {m : Engine α} {f : α → Engine β} {Q Q₁ : α → LinearMemory → Prop}
  {R : β → LinearMemory → Prop}

/-! ### Putting computations together -/

theorem pure {a : α} (h : ∀ mem, Q a mem) : Fills view W (pure a) Q := by
  constructor
  intro s mem A b t shown _ run
  cases run
  exact ⟨mem, A, shown, subset_rfl, Set.eqOn_refl _ _, fun later _ => h later⟩

/-- A computation that fills an area also fills a greater one, and it keeps what follows from its
promise. -/
theorem weaken (h : Fills view W₁ m Q₁) (sub : W₁ ⊆ W) (imp : ∀ a mem, Q₁ a mem → Q a mem) :
    Fills view W m Q := by
  constructor
  intro s mem A a t shown inside run
  obtain ⟨mem', A', shown', more, same, promise⟩ := h.leads shown (sub.trans inside) run
  refine ⟨mem', A', shown', more, same.mono (Set.sdiff_subset_sdiff_right sub), ?_⟩
  intro later agrees
  exact imp a later (promise later (agrees.mono (Set.union_subset_union_left _ sub)))

theorem mono (h : Fills view W₁ m Q) (sub : W₁ ⊆ W) : Fills view W m Q :=
  h.weaken sub fun _ _ promise => promise

theorem imp (h : Fills view W m Q₁) (imp : ∀ a mem, Q₁ a mem → Q a mem) : Fills view W m Q :=
  h.weaken subset_rfl imp

/-- If the parts fill disjoint areas, the promise of the first one is still kept at the end. -/
theorem bind (hm : Fills view W₁ m Q₁) (apart : Disjoint W₁ W₂) (sub : W₁ ∪ W₂ ⊆ W)
    (hf : ∀ a mem, Q₁ a mem → Fills view W₂ (f a) fun b mem => Q₁ a mem → R b mem) :
    Fills view W (m >>= f) R := by
  constructor
  intro s mem A b u shown inside run
  obtain ⟨a, t, first, second⟩ := runFrom_bind_eq_ok run
  have sub₁ : W₁ ⊆ W := Set.subset_union_left.trans sub
  have sub₂ : W₂ ⊆ W := Set.subset_union_right.trans sub
  obtain ⟨mem₁, A₁, shown₁, more₁, same₁, promise₁⟩ := hm.leads shown (sub₁.trans inside) first
  have here := promise₁ mem₁ (Set.eqOn_refl _ _)
  obtain ⟨mem₂, A₂, shown₂, more₂, same₂, promise₂⟩ :=
    (hf a mem₁ here).leads shown₁ ((sub₂.trans inside).trans more₁) second
  refine ⟨mem₂, A₂, shown₂, more₁.trans more₂, ?_, ?_⟩
  · -- what neither part fills
    have left : A \ W ⊆ A \ W₁ := Set.sdiff_subset_sdiff_right sub₁
    have right : A \ W ⊆ A₁ \ W₂ := by
      intro x hx
      exact ⟨more₁ hx.1, fun hw => hx.2 (sub₂ hw)⟩
    exact (same₁.mono left).trans (same₂.mono right)
  · intro later agrees
    refine promise₂ later (agrees.mono ?_) (promise₁ later ?_)
    · rintro x (hx | hx)
      · exact .inl (sub₂ hx)
      · exact .inr ⟨hx.1, fun ha => hx.2 (more₁ ha)⟩
    · -- the second part leaves alone what the first one has filled
      have kept : W₁ ∪ A₁ \ A ⊆ A₁ \ W₂ := by
        rintro x (hx | hx)
        · exact ⟨more₁ (inside (sub₁ hx)), Set.disjoint_left.1 apart hx⟩
        · exact ⟨hx.1, fun hw => hx.2 (inside (sub₂ hw))⟩
      have part : W₁ ∪ A₁ \ A ⊆ W ∪ A₂ \ A := by
        rintro x (hx | hx)
        · exact .inl (sub₁ hx)
        · exact .inr ⟨more₂ hx.1, hx.2⟩
      exact (same₂.mono kept).trans (agrees.mono part)

/-- What is returned may depend on what has been promised. -/
theorem bind_pure {g : α → β} (hm : Fills view W m Q₁) (imp : ∀ a mem, Q₁ a mem → R (g a) mem) :
    Fills view W (m >>= fun a => Pure.pure (g a)) R := by
  refine hm.bind (Set.disjoint_empty W) (by rw [Set.union_empty]) fun a _ _ => .pure ?_
  exact fun mem promise => imp a mem promise

/-- If both parts fill the same area, the promise of the second one is kept. -/
theorem bind_same {Q₁ : α → LinearMemory → Prop} (hm : Fills view W m Q₁)
    (hf : ∀ a, Fills view W (f a) R) : Fills view W (m >>= f) R := by
  constructor
  intro s mem A b u shown inside run
  obtain ⟨a, t, first, second⟩ := runFrom_bind_eq_ok run
  obtain ⟨mem₁, A₁, shown₁, more₁, same₁, -⟩ := hm.leads shown inside first
  obtain ⟨mem₂, A₂, shown₂, more₂, same₂, promise⟩ :=
    (hf a).leads shown₁ (inside.trans more₁) second
  refine ⟨mem₂, A₂, shown₂, more₁.trans more₂, ?_, fun later agrees => promise later ?_⟩
  · exact same₁.trans (same₂.mono (Set.sdiff_subset_sdiff_left more₁))
  · refine agrees.mono (Set.union_subset_union_right _ ?_)
    exact Set.sdiff_subset_sdiff_right more₁

/-! ### The operations of a heap -/

variable {heap : Heap Engine} (serves : Serves view heap)

include serves

theorem fail {e : MemoryError} : Fills view W (heap.fail e) Q := by
  constructor
  intro s mem A a t _ _ run
  exact absurd run serves.fail

/-- Going on with the result of a check. -/
theorem lift {x : Except MemoryError α} (h : ∀ a, x = .ok a → ∀ mem, Q a mem) :
    Fills view W (heap.lift x) Q := by
  cases x with
  | ok a => exact .pure (h a rfl)
  | error e => exact fail serves

/-- What has been allocated is within the memory and apart from what is filled already; from then on
it may be filled as well. -/
theorem alloc_bind {size : UInt32} {f : UInt32 → Engine β}
    (hf : ∀ p, p ≠ 0 → p.toNat + size.toNat ≤ UInt32.size →
      Disjoint W (span p.toNat size.toNat) →
      Fills view (W ∪ span p.toNat size.toNat) (f p) R) :
    Fills view W (heap.alloc size >>= f) R := by
  constructor
  intro s mem A b u shown inside run
  obtain ⟨p, t, first, second⟩ := runFrom_bind_eq_ok run
  obtain ⟨nonzero, mem₁, shown₁, same₁, within, apart⟩ := serves.alloc shown first
  have bounded := Nat.le_trans within (serves.size shown₁)
  have inside₁ : W ∪ span p.toNat size.toNat ⊆ A ∪ span p.toNat size.toNat :=
    Set.union_subset_union_left _ inside
  obtain ⟨mem₂, A₂, shown₂, more₂, same₂, promise⟩ :=
    (hf p nonzero bounded (apart.mono_left inside)).leads shown₁ inside₁ second
  refine ⟨mem₂, A₂, shown₂, Set.subset_union_left.trans more₂, ?_, ?_⟩
  · have kept : A \ W ⊆ (A ∪ span p.toNat size.toNat) \ (W ∪ span p.toNat size.toNat) := by
      intro x hx
      refine ⟨.inl hx.1, ?_⟩
      rintro (hw | hp)
      · exact hx.2 hw
      · exact Set.disjoint_left.1 apart hx.1 hp
    exact (same₁.mono Set.sdiff_subset).trans (same₂.mono kept)
  · intro later agrees
    refine promise later (agrees.mono ?_)
    rintro x ((hw | hp) | hx)
    · exact .inl hw
    · exact .inr ⟨more₂ (.inr hp), fun ha => Set.disjoint_left.1 apart ha hp⟩
    · exact .inr ⟨hx.1, fun ha => hx.2 (.inl ha)⟩

/-- What has been written stands where it has been written to. -/
theorem write {address : UInt32} {bs : Bytes} (covers : Covers W address bs.length) :
    Fills view W (heap.write address bs) fun _ mem => mem.Holds address.toNat bs := by
  constructor
  intro s mem A _ t shown inside run
  obtain ⟨mem', written, shown'⟩ := serves.write shown run
  obtain ⟨within, rfl⟩ := LinearMemory.write_eq_ok.1 written
  have covered : span address.toNat bs.length ⊆ W :=
    covers (Nat.le_trans within (serves.size shown))
  refine ⟨_, A, shown' (covered.trans inside), subset_rfl, ?_, ?_⟩
  · refine LinearMemory.agreesOn_overwrite ?_
    exact (Set.disjoint_sdiff_left).mono_right covered
  · intro later agrees
    have stands : (mem.overwrite address.toNat bs).Holds address.toNat bs :=
      LinearMemory.slice_overwrite mem address.toNat bs
    exact stands.agrees agrees (covered.trans Set.subset_union_left)

theorem writeWord {address word : UInt32} (covers : Covers W address 4) :
    Fills view W (heap.writeWord address word) fun _ mem =>
      mem.Holds address.toNat (littleEndian 4 word.toNat) :=
  write serves (by rwa [length_littleEndian])

end Fills

end JigLedger.Engine
