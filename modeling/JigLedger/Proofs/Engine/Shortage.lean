import JigLedger.Proofs.Engine.Custody
import JigLedger.Proofs.Paging

/-!
# Where using the memory of a package can fail

Whatever the engine brings into the memory of a package, it asks the allocator of the package for
room and writes to what it has been given. All of that is within the memory, since a memory never
becomes smaller. So the allocator is the only one that can fail: where it has not failed, everything
has been written.
-/

namespace JigLedger

namespace Engine

open Wasm (Instance Thread Val Finishes pageSize)

/-- What an allocator has handed out is within the memory. -/
theorem Allotted.inside {config : Config} {p : Package} {links : List HostImport} {i : Instance}
    {A : Set Nat} (h : Allotted config p links i A) :
    pageSize ∣ i.memory.size ∧ A ⊆ Set.Iio i.memory.size := by
  induction h with
  | started h =>
    obtain ⟨allocated, filled, first, second, last⟩ := h
    refine ⟨?_, Set.empty_subset _⟩
    have whole : pageSize ∣ filled.memory.size := by
      rw [Instance.size_writeSegments second]
      exact Wasm.Module.dvd_size_allocate first
    unfold Begins at last
    split at last
    · exact last ▸ whole
    · obtain ⟨results, ran⟩ := last
      exact (ran.size_le whole).1
  | given _ returns ih =>
    obtain ⟨f, results, -, ran, -⟩ := returns.ran
    obtain ⟨whole, more⟩ := ran.size_le ih.1
    refine ⟨whole, Set.union_subset (ih.2.trans (Set.Iio_subset_Iio more)) ?_⟩
    exact fun a ha => Nat.lt_of_lt_of_le (mem_span.1 ha).2 returns.within
  | written _ _ ih =>
    rw [LinearMemory.size_overwrite]
    exact ih

variable {α β : Type} {view : View} {fallen : Failure → Session → Prop} {W : Set Nat}
  {c : Context} {s t : Session}

/-! ### Computations that use a heap -/

/-- A heap serves the engine, and what it has handed out is within the memory, where writing
succeeds. Its allocator fails in certain ways only. -/
structure Withstands (view : View) (fallen : Failure → Session → Prop) (heap : Heap Engine) : Prop
    extends Serves view heap where
  inside : ∀ {s mem A}, view s mem A → A ⊆ Set.Iio mem.size
  fell : ∀ {s mem A size failure t}, view s mem A →
    runFrom s (heap.alloc size) = (.error failure, t) → fallen failure t
  writes : ∀ {s mem A address bs failure t}, view s mem A →
    address.toNat + bs.length ≤ mem.size → runFrom s (heap.write address bs) ≠ (.error failure, t)

/-- A computation that is given an area fails in certain ways only. -/
structure FailsOnly (view : View) (fallen : Failure → Session → Prop) (W : Set Nat) (m : Engine α) :
    Prop where
  leads : ∀ {s mem A failure t}, view s mem A → W ⊆ A → runFrom s m = (.error failure, t) →
    fallen failure t

/-- Every memory that has the bytes of an area has bytes up to an address. -/
def Reaches (W : Set Nat) (address : Nat) : Prop := ∀ size, W ⊆ Set.Iio size → address ≤ size

theorem reaches_span {address size : Nat} (some : 0 < size) (sub : span address size ⊆ W) :
    Reaches W (address + size) := by
  intro bound inside
  have last : address + size - 1 ∈ span address size := mem_span.2 (by omega)
  have below : address + size - 1 < bound := inside (sub last)
  omega

namespace FailsOnly

variable {m : Engine α} {f : α → Engine β} {Q : α → LinearMemory → Prop}

theorem pure (a : α) : FailsOnly view fallen W (pure a) := by
  constructor
  intro s mem A failure t _ _ run
  cases run

/-- The second part begins with what the first one has left. -/
theorem bind (hm : FailsOnly view fallen W m) (fills : Fills view W m Q)
    (hf : ∀ a mem, Q a mem → FailsOnly view fallen W (f a)) :
    FailsOnly view fallen W (m >>= f) := by
  constructor
  intro s mem A failure u shown inside run
  rw [runFrom_bind] at run
  rcases first : runFrom s m with ⟨e | a, t⟩ <;> rw [first] at run
  · cases run
    exact hm.leads shown inside first
  · obtain ⟨mem', A', shown', more, -, promise⟩ := fills.leads shown inside first
    exact (hf a mem' (promise mem' (Set.eqOn_refl _ _))).leads shown' (inside.trans more) run

/-- What is returned does not matter. -/
theorem bind_pure {g : α → β} (hm : FailsOnly view fallen W m) :
    FailsOnly view fallen W (m >>= fun a => Pure.pure (g a)) := by
  constructor
  intro s mem A failure u shown inside run
  rw [runFrom_bind] at run
  rcases first : runFrom s m with ⟨e | a, t⟩ <;> rw [first] at run
  · cases run
    exact hm.leads shown inside first
  · cases run

variable {heap : Heap Engine} (stands : Withstands view fallen heap)

/-- Going on with the result of a check that is passed. -/
theorem lift {x : Except MemoryError α} {a : α} (h : x = .ok a) :
    FailsOnly view fallen W (heap.lift x) := by
  subst h
  exact pure a

include stands

theorem alloc_bind {size : UInt32} {f : UInt32 → Engine β}
    (hf : ∀ p, p ≠ 0 → p.toNat + size.toNat ≤ UInt32.size →
      FailsOnly view fallen (W ∪ span p.toNat size.toNat) (f p)) :
    FailsOnly view fallen W (heap.alloc size >>= f) := by
  constructor
  intro s mem A failure u shown inside run
  rw [runFrom_bind] at run
  rcases first : runFrom s (heap.alloc size) with ⟨e | p, t⟩ <;> rw [first] at run
  · cases run
    exact stands.fell shown first
  · obtain ⟨nonzero, mem', shown', -, within, -⟩ := stands.alloc shown first
    exact (hf p nonzero (within.trans (stands.size shown'))).leads shown'
      (Set.union_subset_union_left _ inside) run

theorem write {address : UInt32} {bs : Bytes} (reaches : Reaches W (address.toNat + bs.length)) :
    FailsOnly view fallen W (heap.write address bs) := by
  constructor
  intro s mem A failure t shown inside run
  have enough := reaches mem.size (inside.trans (stands.inside shown))
  exact absurd run (stands.writes shown enough)

theorem writeWord {address word : UInt32} (covered : span address.toNat 4 ⊆ W) :
    FailsOnly view fallen W (heap.writeWord address word) := by
  refine write stands ?_
  rw [length_littleEndian]
  exact reaches_span (by decide) covered

end FailsOnly

/-! ### The heap of a package -/

/-- A request to the allocator of a package that runs has failed. Since an earlier session, only the
memory of this package has changed: its allocator was called, and the room that it gave was written
to. -/
def Withholds (c : Context) (home : Nat) (inst : PackageInstance) (s₀ : Session) (failure : Failure)
    (t : Session) : Prop :=
  ∃ s mem A size, yard c inst s₀ s mem A ∧
    runFrom s ((host c).alloc home (.object home) size) = (.error failure, t)

/-- Writing bytes to the memory of a package that runs fails only outside of it. -/
theorem runFrom_writeBytes_ne_error {home : Nat} {inst : PackageInstance} {guest : Guest}
    {address : UInt32} {bs : Bytes} {failure : Failure} (there : s.instances[home]? = some inst)
    (here : s.guests[inst.guest]? = some guest)
    (within : address.toNat + bs.length ≤ guest.machine.memory.size) :
    runFrom s (writeBytes home address bs) ≠ (.error failure, t) := by
  have written := LinearMemory.write_eq_ok.2 ⟨within, rfl⟩
  rw [writeBytes, runFrom_bind_of_ok (runFrom_instanceAt_eq_ok.2 ⟨there, rfl⟩)]
  dsimp only
  rw [runFrom_bind_of_ok (runFrom_guestAt_eq_ok.2 ⟨here, rfl⟩),
    runFrom_bind_of_ok (runFrom_orPlain_eq_ok.2 ⟨written, rfl⟩)]
  nofun

/-- Between calls, using the memory of a package fails only with a request to its allocator. -/
theorem withstands_heap {inst : PackageInstance} {s₀ : Session} {home : Nat}
    (frameless : s₀.frames = []) (there : s₀.instances[home]? = some inst) :
    Withstands (yard c inst s₀) (Withholds c home inst s₀) ((host c).heap home (.object home)) where
  toServes := serves_heap frameless there
  inside := by
    rintro s _ A ⟨-, guest, -, rfl, leased⟩
    exact leased.allotted.inside.2
  fell shown run := ⟨_, _, _, _, shown, run⟩
  writes := by
    rintro s _ A address bs failure t ⟨only, guest, here, rfl, -⟩ within
    exact runFrom_writeBytes_ne_error (only.instances ▸ there) here within

end Engine

end JigLedger
