import JigLedger.Proofs.Layout
import JigLedger.Proofs.Memory
import Mathlib.Algebra.GroupWithZero.Nat

/-!
# Writing to a memory that grows

A memory that grows at its end hands out its room in order. A computation that writes values to it
therefore succeeds as soon as there is room for all that it allocates, and it takes exactly this
room. It changes only the area that it is meant to fill, and what it promises depends on this area
and on what it has allocated, so the promise is kept when more is written elsewhere later.
-/

namespace JigLedger

namespace Layout

/-- The least multiple of a number that is not below another one. -/
def roundUp (n align : Nat) : Nat := (n + (align - 1)) / align * align

/-- Offsets are aligned exactly as long as they are 32-bit words. -/
theorem toNat_alignUp {offset align : UInt32} (h : IsAlignment align)
    (room : roundUp offset.toNat align.toNat < UInt32.size) :
    (alignUp offset align).toNat = roundUp offset.toNat align.toNat := by
  have small := offset.toNat_lt
  rw [UInt32.size] at room
  rw [roundUp] at room ⊢
  rcases h with rfl | rfl | rfl | rfl
  · rw [alignUp, if_pos (by decide)]
    simp
  all_goals
    rw [alignUp, if_neg (by decide)]
    simp only [UInt32.reduceToNat] at room ⊢
    split
    case isTrue even =>
      have even := congrArg UInt32.toNat even
      simp only [UInt32.toNat_add, UInt32.toNat_mul, UInt32.toNat_div, UInt32.toNat_mod,
        UInt32.reduceToNat] at even ⊢
      omega
    case isFalse odd =>
      simp only [← UInt32.toNat_inj, UInt32.toNat_add, UInt32.toNat_mul, UInt32.toNat_div,
        UInt32.toNat_mod, UInt32.reduceToNat] at odd ⊢
      omega

theorem le_roundUp {n align : Nat} (h : align = 1 ∨ align = 2 ∨ align = 4 ∨ align = 8) :
    n ≤ roundUp n align ∧ roundUp n align < n + 8 := by
  rw [roundUp]
  rcases h with rfl | rfl | rfl | rfl <;> omega

end Layout

namespace LinearMemory

variable {A : Set Nat} {m m' : LinearMemory} {bs : Bytes}

/-- Bytes stand at an address, within the memory. -/
structure Stands (m : LinearMemory) (address : Nat) (bs : Bytes) : Prop where
  holds : m.Holds address bs
  inside : address + bs.length ≤ m.size

/-- What stands somewhere stands there in a larger memory with the same bytes. -/
theorem Stands.agrees {address : Nat} (h : m.Stands address bs) (same : AgreesOn A m m')
    (sub : span address bs.length ⊆ A) (size : m.size ≤ m'.size) : m'.Stands address bs :=
  ⟨h.holds.agrees same sub, Nat.le_trans h.inside size⟩

theorem Stands.read {address length : UInt32} (h : m.Stands address.toNat bs)
    (size : length.toNat = bs.length) : m.read address length = .ok bs := by
  have checked : m.checkRange address length.toNat = .ok () := by
    rw [checkRange_eq_ok, size]
    exact h.inside
  rw [LinearMemory.read, checked]
  change Except.ok (m.slice address.toNat length.toNat) = _
  rw [size, show m.slice address.toNat bs.length = bs from h.holds]

theorem Stands.readWord {address word : UInt32}
    (h : m.Stands address.toNat (littleEndian 4 word.toNat)) : m.readWord address = .ok word := by
  have four : (4 : UInt32).toNat = (littleEndian 4 word.toNat).length :=
    (length_littleEndian 4 _).symm
  have whole : word.toNat % stringCount 4 = word.toNat := Nat.mod_eq_of_lt word.toNat_lt
  rw [LinearMemory.readWord, h.read four]
  change Except.ok (UInt32.ofNat (ofLittleEndian (littleEndian 4 word.toNat))) = _
  rw [ofLittleEndian_littleEndian, whole, UInt32.ofNat_toNat]

/-- Bytes that are written in two parts. -/
theorem overwrite_append (m : LinearMemory) (address : Nat) (bs bs' : Bytes) :
    m.overwrite address (bs ++ bs') =
      (m.overwrite address bs).overwrite (address + bs.length) bs' := by
  induction bs generalizing m address with
  | nil => rfl
  | cons b bs ih =>
    rw [List.cons_append, overwrite, ih, overwrite, List.length_cons]
    congr 1
    omega

/-- Two parts that stand one behind the other. -/
theorem Stands.append {address : Nat} {bs' : Bytes} (h : m.Stands address (bs ++ bs')) :
    m.Stands address bs ∧ m.Stands (address + bs.length) bs' := by
  have whole : m.slice address (bs ++ bs').length = bs ++ bs' := h.holds
  have inside := h.inside
  rw [List.length_append] at whole inside
  have parts : m.slice address (bs.length + bs'.length) =
      m.slice address bs.length ++ m.slice (address + bs.length) bs'.length := by
    rw [slice, slice, slice, ← List.map_append, List.range'_append_1]
  rw [parts] at whole
  obtain ⟨first, second⟩ := List.append_inj whole (length_slice _ _ _)
  exact ⟨⟨first, by omega⟩, second, by omega⟩

/-- A buffer is read as what stands behind its length. -/
theorem Stands.readBuffer {address length : UInt32} (size : length.toNat = bs.length)
    (room : address.toNat + 4 < UInt32.size)
    (head : m.Stands address.toNat (littleEndian 4 length.toNat))
    (body : m.Stands (address.toNat + 4) bs) : m.readBuffer address = .ok bs := by
  have next : (address + 4).toNat = address.toNat + 4 := by
    rw [UInt32.toNat_add]
    exact Nat.mod_eq_of_lt room
  have body : m.Stands (address + 4).toNat bs := next ▸ body
  rw [LinearMemory.readBuffer, head.readWord]
  change (if address.toNat + 4 < UInt32.size then m.read (address + 4) length else _) = _
  rw [if_pos room, body.read size]

end LinearMemory

namespace BumpMemory

variable {α β : Type} {b : BumpMemory}

/-- The end of such a memory cannot be moved behind this one. -/
def limit : Nat := UInt32.size - 8

/-- The room that an allocation takes. -/
def taken (size : Nat) : Nat := Layout.roundUp size 8

/-- A memory that ends where it hands out next, at a multiple of the alignment. -/
structure IsSound (b : BumpMemory) : Prop where
  size : b.memory.size = b.next.toNat
  aligned : b.next.toNat % 8 = 0
  start : 8 ≤ b.next.toNat

theorem isSound_empty : empty.IsSound := ⟨rfl, rfl, Nat.le_refl _⟩

/-- Allocating succeeds where there is room, and takes it. -/
theorem IsSound.alloc (h : b.IsSound) {size : UInt32}
    (room : b.next.toNat + taken size.toNat ≤ limit) : ∃ b', b.alloc size = .ok (b.next, b') ∧
      b'.IsSound ∧ b'.next.toNat = b.next.toNat + taken size.toNat ∧
      LinearMemory.AgreesOn (span 0 b.next.toNat) b.memory b'.memory := by
  have aligned := h.aligned
  have start := h.start
  have most : limit = 4294967288 := rfl
  have two : UInt32.size = 4294967296 := rfl
  have eight : allocAlign.toNat = 8 := rfl
  rw [most] at room
  rw [taken, Layout.roundUp] at room ⊢
  have sum : (b.next + size).toNat = b.next.toNat + size.toNat := by
    rw [UInt32.toNat_add]
    refine Nat.mod_eq_of_lt ?_
    omega
  have next : (Layout.alignUp (b.next + size) allocAlign).toNat =
      b.next.toNat + (size.toNat + (8 - 1)) / 8 * 8 := by
    have aligning : Layout.IsAlignment allocAlign := .inr (.inr (.inr rfl))
    rw [Layout.toNat_alignUp aligning, sum, eight, Layout.roundUp]
    · omega
    · rw [sum, eight, Layout.roundUp]
      omega
  refine ⟨_, by rw [BumpMemory.alloc, if_pos (by omega)], ⟨?_, ?_, ?_⟩, next, fun a ha => ?_⟩
  · exact LinearMemory.size_resize _
  · change (Layout.alignUp (b.next + size) allocAlign).toNat % 8 = 0
    omega
  · change 8 ≤ (Layout.alignUp (b.next + size) allocAlign).toNat
    omega
  · refine (LinearMemory.byte_resize ?_ a).symm
    rw [h.size]
    omega

/-- Writing keeps a memory sound. -/
theorem IsSound.write (h : b.IsSound) (address : Nat) (bs : Bytes) :
    IsSound { b with memory := b.memory.overwrite address bs } :=
  ⟨(LinearMemory.size_overwrite _ _ _).trans h.size, h.aligned, h.start⟩

/-- The memories that come from the empty one by allocations that there is room for and by
writes. -/
inductive Reached : BumpMemory → Prop
  | empty : Reached empty
  | alloc {b b' : BumpMemory} {size address : UInt32} (h : Reached b)
      (room : b.next.toNat + taken size.toNat ≤ limit) (run : b.alloc size = .ok (address, b')) :
      Reached b'
  | write {b b' : BumpMemory} {address : UInt32} {bs : Bytes} (h : Reached b)
      (run : b.write address bs = .ok b') : Reached b'

theorem Reached.isSound (h : b.Reached) : b.IsSound := by
  induction h with
  | empty => exact isSound_empty
  | alloc _ room run ih =>
    obtain ⟨b', allocated, sound, -⟩ := ih.alloc room
    cases allocated.symm.trans run
    exact sound
  | @write b _ address bs _ run ih =>
    obtain ⟨memory, written, same⟩ := bind_eq_ok.1 run
    obtain ⟨-, rfl⟩ := LinearMemory.write_eq_ok.1 written
    cases same
    exact ih.write address.toNat bs

/-- Runs a computation on a memory: its result, and the memory afterwards. -/
def runOn (b : BumpMemory) (m : Run α) : Except MemoryError α × BumpMemory := (ExceptT.run m).run b

theorem runOn_bind_of_ok {m : Run α} {f : α → Run β} {a : α} {b' : BumpMemory}
    (h : b.runOn m = (.ok a, b')) : b.runOn (m >>= f) = b'.runOn (f a) := by
  change (ExceptT.run m >>= ExceptT.bindCont f).run b = _
  rw [runOn] at h
  rw [StateT.run_bind, h]
  rfl

theorem runOn_bind_of_error {m : Run α} {f : α → Run β} {e : MemoryError} {b' : BumpMemory}
    (h : b.runOn m = (.error e, b')) : b.runOn (m >>= f) = (.error e, b') := by
  change (ExceptT.run m >>= ExceptT.bindCont f).run b = _
  rw [runOn] at h
  rw [StateT.run_bind, h]
  rfl

/-- A computation in two parts succeeds only if both of them do. -/
theorem exists_of_runOn_bind {m : Run α} {f : α → Run β} {c : β} {b'' : BumpMemory}
    (h : b.runOn (m >>= f) = (.ok c, b'')) :
    ∃ a b', b.runOn m = (.ok a, b') ∧ b'.runOn (f a) = (.ok c, b'') := by
  rcases first : b.runOn m with ⟨e | a, b'⟩
  · rw [runOn_bind_of_error first] at h
    cases h
  · rw [runOn_bind_of_ok first] at h
    exact ⟨a, b', rfl, h⟩

theorem runOn_alloc {size address : UInt32} {b' : BumpMemory}
    (h : b.alloc size = .ok (address, b')) : b.runOn (heap.alloc size) = (.ok address, b') := by
  simp [runOn, heap, h, ExceptT.run, StateT.run]

theorem runOn_alloc_of_error {size : UInt32} {e : MemoryError} (h : b.alloc size = .error e) :
    b.runOn (heap.alloc size) = (.error e, b) := by
  simp [runOn, heap, h, ExceptT.run, StateT.run]

/-- Bytes can be written where there is room. -/
theorem runOn_write {address : UInt32} {bs : Bytes}
    (within : address.toNat + bs.length ≤ b.memory.size) :
    b.runOn (heap.write address bs) =
      (.ok (), { b with memory := b.memory.overwrite address.toNat bs }) := by
  have written : b.write address bs =
      .ok { b with memory := b.memory.overwrite address.toNat bs } := by
    rw [BumpMemory.write, LinearMemory.write_eq_ok.2 ⟨within, rfl⟩]
    rfl
  simp [runOn, heap, written, ExceptT.run, StateT.run]

/-- Bytes that would not be inside the memory are not written. -/
theorem exists_runOn_write_eq {address : UInt32} {bs : Bytes}
    (outside : ¬ address.toNat + bs.length ≤ b.memory.size) :
    ∃ e, b.runOn (heap.write address bs) = (.error e, b) := by
  have refused : b.memory.checkRange address bs.length =
      .error (.outOfBounds address.toNat bs.length b.memory.size) := by
    rw [LinearMemory.checkRange, LinearMemory.contains, decide_eq_false outside]
    rfl
  have failed : b.write address bs =
      .error (.outOfBounds address.toNat bs.length b.memory.size) := by
    rw [BumpMemory.write, LinearMemory.write, refused]
    rfl
  refine ⟨.outOfBounds address.toNat bs.length b.memory.size, ?_⟩
  simp [runOn, heap, failed, ExceptT.run, StateT.run]

/-! ### Computations that take room -/

/-- With room for so many bytes a computation succeeds and takes them. It changes only an area, and
what is promised holds of all memories with the same bytes there and in what was taken. -/
structure Takes (W : Set Nat) (n : Nat) (m : Run α) (Q : α → LinearMemory → Prop) : Prop where
  leads : ∀ {b : BumpMemory}, b.IsSound → W ⊆ span 0 b.next.toNat →
    b.next.toNat + n ≤ limit → ∃ a b', b.runOn m = (.ok a, b') ∧ b'.IsSound ∧
      b'.next.toNat = b.next.toNat + n ∧
      LinearMemory.AgreesOn (span 0 b.next.toNat \ W) b.memory b'.memory ∧
      ∀ later, LinearMemory.AgreesOn (W ∪ span b.next.toNat n) b'.memory later →
        b'.memory.size ≤ later.size → Q a later

namespace Takes

variable {W W₁ W₂ : Set Nat} {n n₁ n₂ : Nat} {m : Run α} {f : α → Run β}
  {Q Q₁ : α → LinearMemory → Prop} {R : β → LinearMemory → Prop}

theorem pure {a : α} (h : ∀ mem, Q a mem) : Takes W 0 (pure a) Q :=
  ⟨fun {b} sound _ _ => ⟨a, b, rfl, sound, rfl, Set.eqOn_refl _ _, fun later _ _ => h later⟩⟩

/-- What is to be shown may rely on the room being there. -/
theorem of_room (h : n ≤ limit → Takes W n m Q) : Takes W n m Q :=
  ⟨fun sound inside room => (h (by omega)).leads sound inside room⟩

/-- A computation keeps what follows from its promise. -/
theorem imp (h : Takes W n m Q₁) (imp : ∀ a mem, Q₁ a mem → Q a mem) : Takes W n m Q := by
  constructor
  intro b sound inside room
  obtain ⟨a, b', run, sound', next, same, promise⟩ := h.leads sound inside room
  refine ⟨a, b', run, sound', next, same, fun later agrees size => ?_⟩
  exact imp a later (promise later agrees size)

/-- A computation that fills an area also fills a greater one. -/
theorem widen (h : Takes W₁ n m Q) (sub : W₁ ⊆ W) : Takes W n m Q := by
  constructor
  intro b sound inside room
  obtain ⟨a, b', run, sound', next, same, promise⟩ := h.leads sound (sub.trans inside) room
  refine ⟨a, b', run, sound', next, same.mono (Set.sdiff_subset_sdiff_right sub), ?_⟩
  intro later agrees size
  exact promise later (agrees.mono (Set.union_subset_union_left _ sub)) size

/-- If the parts fill disjoint areas, the promise of the first one is still kept at the end. -/
theorem bind (hm : Takes W₁ n₁ m Q₁) (apart : Disjoint W₁ W₂) (sub : W₁ ∪ W₂ ⊆ W)
    (hf : ∀ a mem, Q₁ a mem → Takes W₂ n₂ (f a) fun b mem => Q₁ a mem → R b mem) :
    Takes W (n₁ + n₂) (m >>= f) R := by
  constructor
  intro b sound inside room
  have sub₁ : W₁ ⊆ W := Set.subset_union_left.trans sub
  have sub₂ : W₂ ⊆ W := Set.subset_union_right.trans sub
  obtain ⟨a, b₁, run₁, sound₁, next₁, same₁, promise₁⟩ :=
    hm.leads sound (sub₁.trans inside) (by omega)
  have here := promise₁ b₁.memory (Set.eqOn_refl _ _) (Nat.le_refl _)
  have grown : span 0 b.next.toNat ⊆ span 0 b₁.next.toNat := span_subset (Nat.le_refl _) (by omega)
  obtain ⟨c, b₂, run₂, sound₂, next₂, same₂, promise₂⟩ :=
    (hf a b₁.memory here).leads sound₁ ((sub₂.trans inside).trans grown) (by omega)
  have size : b₁.memory.size ≤ b₂.memory.size := by
    rw [sound₁.size, sound₂.size]
    omega
  have room₁ : span b.next.toNat n₁ ⊆ span b.next.toNat (n₁ + n₂) :=
    span_subset (Nat.le_refl _) (by omega)
  have room₂ : span b₁.next.toNat n₂ ⊆ span b.next.toNat (n₁ + n₂) :=
    span_subset (by omega) (by omega)
  refine ⟨c, b₂, ?_, sound₂, by omega, ?_, fun later agrees larger => ?_⟩
  · rw [runOn_bind_of_ok run₁, run₂]
  · have left : span 0 b.next.toNat \ W ⊆ span 0 b.next.toNat \ W₁ :=
      Set.sdiff_subset_sdiff_right sub₁
    have right : span 0 b.next.toNat \ W ⊆ span 0 b₁.next.toNat \ W₂ := by
      intro x hx
      exact ⟨grown hx.1, fun hw => hx.2 (sub₂ hw)⟩
    exact (same₁.mono left).trans (same₂.mono right)
  · refine promise₂ later (agrees.mono (Set.union_subset_union sub₂ room₂)) larger
      (promise₁ later ?_ (Nat.le_trans size larger))
    -- The second part leaves alone what the first one has filled.
    have kept : W₁ ∪ span b.next.toNat n₁ ⊆ span 0 b₁.next.toNat \ W₂ := by
      rintro x (hx | hx)
      · exact ⟨grown (inside (sub₁ hx)), Set.disjoint_left.1 apart hx⟩
      · refine ⟨?_, fun hw => ?_⟩
        · rw [mem_span] at hx ⊢
          omega
        · have before := inside (sub₂ hw)
          rw [mem_span] at hx before
          omega
    exact (same₂.mono kept).trans (agrees.mono (Set.union_subset_union sub₁ room₁))

/-- What is returned may depend on what has been promised. -/
theorem bind_pure {g : α → β} (hm : Takes W n m Q₁) (imp : ∀ a mem, Q₁ a mem → R (g a) mem) :
    Takes W n (m >>= fun a => Pure.pure (g a)) R :=
  hm.bind (Set.disjoint_empty W) (by rw [Set.union_empty]) fun a _ _ =>
    .pure fun mem promise => imp a mem promise

/-- Something that is not written down takes no room and keeps all promises. -/
theorem after {x : Except MemoryError α} {a : α} (hx : x = .ok a) (h : Takes W n (f a) R) :
    Takes W n (heap.lift x >>= f) R := by
  subst hx
  exact h

/-- What has been allocated is within the memory, apart from what is filled already, and may be
filled as well. -/
theorem alloc_bind {size : UInt32} {f : UInt32 → Run β}
    (hf : ∀ p, p ≠ 0 → p.toNat + size.toNat ≤ limit → Disjoint W (span p.toNat size.toNat) →
      Takes (W ∪ span p.toNat size.toNat) n (f p) fun b mem =>
        p.toNat + size.toNat ≤ mem.size → R b mem) :
    Takes W (taken size.toNat + n) (heap.alloc size >>= f) R := by
  constructor
  intro b sound inside room
  obtain ⟨b₁, allocated, sound₁, next₁, same₁⟩ := @IsSound.alloc b sound size (by omega)
  have run₁ := runOn_alloc allocated
  have enough : size.toNat ≤ taken size.toNat := (Layout.le_roundUp (by decide)).1
  have nonzero : b.next ≠ 0 := by
    intro zero
    have start := sound.start
    rw [zero] at start
    exact absurd start (by decide)
  have apart : Disjoint W (span b.next.toNat size.toNat) :=
    (disjoint_span (by omega)).mono_left inside
  have inside₁ : W ∪ span b.next.toNat size.toNat ⊆ span 0 b₁.next.toNat := by
    refine Set.union_subset (inside.trans ?_) ?_ <;> refine span_subset ?_ ?_ <;> omega
  obtain ⟨c, b₂, run₂, sound₂, next₂, same₂, promise⟩ :=
    (hf b.next nonzero (by omega) apart).leads sound₁ inside₁ (by omega)
  refine ⟨c, b₂, by rw [runOn_bind_of_ok run₁, run₂], sound₂, by omega, ?_, ?_⟩
  · have kept : span 0 b.next.toNat \ W ⊆
        span 0 b₁.next.toNat \ (W ∪ span b.next.toNat size.toNat) := by
      rintro x ⟨hx, outside⟩
      refine ⟨span_subset (Nat.le_refl _) (by omega) hx, ?_⟩
      rintro (hw | hp)
      · exact outside hw
      · rw [mem_span] at hx hp
        omega
    exact (same₁.mono Set.sdiff_subset).trans (same₂.mono kept)
  · intro later agrees larger
    have here : b.next.toNat + size.toNat ≤ later.size := by
      rw [sound₂.size] at larger
      omega
    refine promise later (agrees.mono ?_) larger here
    rintro x ((hw | hp) | hx)
    · exact .inl hw
    · exact .inr (span_subset (Nat.le_refl _) (by omega) hp)
    · exact .inr (span_subset (by omega) (by omega) hx)

/-- Bytes that are written where there is room stand there. -/
theorem of_overwrite {address : UInt32} {bs : Bytes} {u : Run Unit}
    (run : ∀ b : BumpMemory, address.toNat + bs.length ≤ b.memory.size →
      b.runOn u = (.ok (), { b with memory := b.memory.overwrite address.toNat bs }))
    (some : 0 < bs.length) (sub : span address.toNat bs.length ⊆ W) :
    Takes W 0 u fun _ mem => mem.Stands address.toNat bs := by
  constructor
  intro b sound inside _
  have last := (sub.trans inside) (mem_span.2 (by omega) :
    address.toNat + bs.length - 1 ∈ span address.toNat bs.length)
  have within : address.toNat + bs.length ≤ b.memory.size := by
    rw [mem_span] at last
    rw [sound.size]
    omega
  refine ⟨(), _, run b within, sound.write _ _, rfl, ?_, fun later agrees larger => ?_⟩
  · exact LinearMemory.agreesOn_overwrite (Set.disjoint_sdiff_left.mono_right sub)
  · have stands : (b.memory.overwrite address.toNat bs).Stands address.toNat bs :=
      ⟨LinearMemory.slice_overwrite _ _ _, by rwa [LinearMemory.size_overwrite]⟩
    exact stands.agrees agrees (sub.trans Set.subset_union_left) larger

theorem write {address : UInt32} {bs : Bytes} (some : 0 < bs.length)
    (sub : span address.toNat bs.length ⊆ W) :
    Takes W 0 (heap.write address bs) fun _ mem => mem.Stands address.toNat bs :=
  of_overwrite (fun _ => runOn_write) some sub

theorem writeWord {address word : UInt32} (sub : span address.toNat 4 ⊆ W) :
    Takes W 0 (heap.writeWord address word) fun _ mem =>
      mem.Stands address.toNat (littleEndian 4 word.toNat) :=
  write (by rw [length_littleEndian]; decide) (by rwa [length_littleEndian])

/-- Bytes that are written behind a word stand there as one. -/
theorem writeBehind {address word : UInt32} {bs : Bytes}
    (place : (address + 4).toNat = address.toNat + 4)
    (sub : span address.toNat (4 + bs.length) ⊆ W) :
    Takes W 0 (heap.writeWord address word >>= fun _ => heap.write (address + 4) bs) fun _ mem =>
      mem.Stands address.toNat (littleEndian 4 word.toNat) ∧ mem.Stands (address.toNat + 4) bs := by
  have head : (littleEndian 4 word.toNat).length = 4 := length_littleEndian 4 _
  have whole : (littleEndian 4 word.toNat ++ bs).length = 4 + bs.length := by
    rw [List.length_append, head]
  refine (of_overwrite (fun b within => ?_) (by omega) (whole ▸ sub)).imp fun _ mem stands => ?_
  · rw [whole] at within
    have first : b.runOn (heap.writeWord address word) = (.ok (), { b with
        memory := b.memory.overwrite address.toNat (littleEndian 4 word.toNat) }) :=
      runOn_write (by rw [head]; omega)
    rw [runOn_bind_of_ok first, runOn_write, place, LinearMemory.overwrite_append, head]
    change (address + 4).toNat + _ ≤ (b.memory.overwrite _ _).size
    rw [LinearMemory.size_overwrite, place]
    omega
  · have parts := stands.append
    rwa [head] at parts

end Takes

end BumpMemory

end JigLedger
