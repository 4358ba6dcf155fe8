import Mathlib
import JigLedger.Proofs.Value.Room

/-!
# Values in slots of a memory that grows

A value of any type whose objects are laid out can be written to a slot, wherever it is in the
memory and whatever stands around it, as long as there is room for what is allocated. It is read
back, and no other byte of the memory has changed. So several values can be written to slots that
do not overlap, and all of them are there in the end.
-/

namespace JigLedger

namespace Layout

/-- Offsets are rounded up to multiples of eight, also where they do not fit into 32 bits. -/
theorem toNat_alignUp_mod (offset : UInt32) : (alignUp offset allocAlign).toNat % 8 = 0 := by
  have eight : allocAlign.toNat = 8 := rfl
  rw [alignUp, if_neg (by decide), UInt32.toNat_mul, eight]
  omega

end Layout

namespace BumpMemory

variable {b : BumpMemory}

/-- The memories that come from the empty one by any allocations and writes that succeed. -/
inductive Arises : BumpMemory → Prop
  | empty : Arises empty
  | alloc {b b' : BumpMemory} {size address : UInt32} (h : Arises b)
      (run : b.alloc size = .ok (address, b')) : Arises b'
  | write {b b' : BumpMemory} {address : UInt32} {bs : Bytes} (h : Arises b)
      (run : b.write address bs = .ok b') : Arises b'

/-- Every memory ends where it hands out next, at a multiple of the alignment. -/
theorem Arises.ends (h : b.Arises) :
    b.memory.size = b.next.toNat ∧ b.next.toNat % 8 = 0 := by
  induction h with
  | empty => exact ⟨rfl, rfl⟩
  | alloc _ run _ =>
    rw [BumpMemory.alloc] at run
    split at run
    case isTrue =>
      cases run
      exact ⟨LinearMemory.size_resize _, Layout.toNat_alignUp_mod _⟩
    case isFalse => cases run
  | write _ run ih =>
    obtain ⟨memory, written, same⟩ := bind_eq_ok.1 run
    obtain ⟨-, rfl⟩ := LinearMemory.write_eq_ok.1 written
    cases same
    exact ⟨(LinearMemory.size_overwrite _ _ _).trans ih.1, ih.2⟩

/-- Every memory that has a byte at all is sound. -/
theorem Arises.isSound (h : b.Arises) (some : 0 < b.memory.size) : b.IsSound := by
  obtain ⟨size, aligned⟩ := h.ends
  exact ⟨size, aligned, by omega⟩

end BumpMemory

namespace Ty

open BumpMemory

/-- All types whose objects are laid out from their declared fields. -/
inductive LaidOut : Ty → Prop
  | leaf {t : Ty} (plain : t.isLeaf = true) : LaidOut t
  | array {item : Ty} (h : LaidOut item) : LaidOut (.array item)
  | map {k v : Ty} (hk : LaidOut k) (hv : LaidOut v) : LaidOut (.map k v)
  | nullable {t : Ty} (h : LaidOut t) : LaidOut (.nullable t)
  | object {name : String} {fields : List Field} {size : UInt32}
      (laid : ∃ declared, Layout.place 0 declared = (fields, size))
      (h : ∀ f ∈ fields, LaidOut f.ty) : LaidOut (.object name fields size)

/-- Values of all types that are laid out are stored. -/
theorem LaidOut.storable {t : Ty} (h : t.LaidOut) : t.Storable := by
  induction h with
  | leaf plain => exact storable_of_isLeaf plain
  | array _ ih => exact ih.array
  | map _ _ ihk ihv => exact ihk.map ihv
  | nullable _ ih => exact ih.nullable
  | object laid _ ih => exact .object laid ih

theorem laidOut_objectOf {name : String} {declared : List (String × Ty)}
    (h : ∀ f ∈ declared, f.2.LaidOut) : (objectOf name declared).LaidOut :=
  .object ⟨declared, rfl⟩ fun _ mem => h _ (Layout.exists_of_mem_place mem)

/-- A value that is to be written, and where. -/
structure Deposit where
  ty : Ty
  value : Value
  address : UInt32

namespace Deposit

/-- The slot of the value. -/
def slot (d : Deposit) : Set Nat := span d.address.toNat d.ty.size.toNat

/-- The number of bytes that are allocated for the value. -/
def room (d : Deposit) : Nat := d.ty.footprint d.value

/-- Writes the value to its slot. -/
def put (d : Deposit) : Run Unit := d.ty.writeValue heap d.value d.address

/-- The value stands in its slot. -/
def StandsIn (d : Deposit) (mem : LinearMemory) : Prop :=
  d.ty.readValue mem d.address = .ok d.value

/-- The value has the shape of its type, and its slot is inside the memory. -/
structure Fits (d : Deposit) (b : BumpMemory) : Prop where
  laidOut : d.ty.LaidOut
  shape : d.ty.check d.value = .ok ()
  inside : d.address.toNat + d.ty.size.toNat ≤ b.memory.size

variable {d : Deposit} {deposits : List Deposit} {b : BumpMemory}

theorem Fits.slot_subset (h : d.Fits b) (sound : b.IsSound) : d.slot ⊆ span 0 b.next.toNat := by
  have inside := h.inside
  rw [sound.size] at inside
  exact span_subset (Nat.zero_le _) (by omega)

/-- There is at least one byte in every slot. -/
theorem Fits.isSound (h : d.Fits b) (arises : b.Arises) : b.IsSound := by
  have some := (Layout.isAlignment_size d.ty).le.1
  have inside := h.inside
  exact arises.isSound (by omega)

/-- A value is written to its slot and to the room that it takes. -/
theorem takes_put (laid : d.ty.LaidOut) (shape : d.ty.check d.value = .ok ()) :
    Takes d.slot d.room d.put fun _ mem => d.StandsIn mem :=
  laid.storable.slot shape (Set.Subset.refl _)

/-- Values are written to slots that do not overlap, one after the other. -/
theorem takes_forM_put (laid : ∀ d ∈ deposits, d.ty.LaidOut ∧ d.ty.check d.value = .ok ())
    (apart : deposits.Pairwise fun d e => Disjoint d.slot e.slot) :
    Takes (⋃ d ∈ deposits, d.slot) (deposits.map room).sum (deposits.forM put) fun _ mem =>
      ∀ d ∈ deposits, d.StandsIn mem := by
  induction deposits with
  | nil => exact .pure fun _ => nofun
  | cons d rest ih =>
    obtain ⟨here, apart⟩ := List.pairwise_cons.1 apart
    obtain ⟨⟨laidOut, shape⟩, laid⟩ := List.forall_mem_cons.1 laid
    rw [List.map_cons, List.sum_cons, List.forM_eq_forM, List.forM_cons, ← List.forM_eq_forM]
    refine (takes_put laidOut shape).bind ?_ ?_ fun _ _ _ => (ih laid apart).imp ?_
    · rw [Set.disjoint_iUnion₂_right]
      exact here
    · simp
    · intro _ mem others first
      exact List.forall_mem_cons.2 ⟨first, others⟩

/-- With room for what is allocated, a value is written to its slot, wherever that is in the memory:
it is read back, and every other byte is as it was. It stays there as long as its slot and what was
allocated for it do. So several values that are written one after the other to slots that do not
overlap are all read back in the end. -/
theorem put_framed :
    (∀ (b : BumpMemory) (d : Deposit), b.Arises → d.Fits b → b.memory.size + d.room ≤ limit →
      ∃ b', b.runOn d.put = (.ok (), b') ∧ b'.memory.size = b.memory.size + d.room ∧
        d.StandsIn b'.memory ∧
        LinearMemory.AgreesOn (span 0 b.memory.size \ d.slot) b.memory b'.memory ∧
        ∀ later : LinearMemory, b'.memory.size ≤ later.size →
          LinearMemory.AgreesOn (d.slot ∪ span b.memory.size d.room) b'.memory later →
            d.StandsIn later) ∧
      ∀ (b : BumpMemory) (deposits : List Deposit), b.Arises → (∀ d ∈ deposits, d.Fits b) →
        deposits.Pairwise (fun d e => Disjoint d.slot e.slot) →
        b.memory.size + (deposits.map room).sum ≤ limit →
        ∃ b', b.runOn (deposits.forM put) = (.ok (), b') ∧
          b'.memory.size = b.memory.size + (deposits.map room).sum ∧
          (∀ d ∈ deposits, d.StandsIn b'.memory) ∧
          LinearMemory.AgreesOn (span 0 b.memory.size \ ⋃ d ∈ deposits, d.slot)
            b.memory b'.memory := by
  constructor
  · intro b d arises fits room
    have sound := fits.isSound arises
    have size := sound.size
    obtain ⟨_, b', run, sound', next, same, promise⟩ :=
      (takes_put fits.laidOut fits.shape).leads sound (fits.slot_subset sound) (size ▸ room)
    rw [← sound'.size, ← size] at next
    rw [← size] at same promise
    refine ⟨b', run, next, promise _ (Set.eqOn_refl _ _) (Nat.le_refl _), same, ?_⟩
    exact fun later larger agrees => promise later agrees larger
  · intro b deposits arises fits apart room
    cases deposits with
    | nil => exact ⟨b, rfl, rfl, nofun, Set.eqOn_refl _ _⟩
    | cons first rest =>
      have sound := (fits first (.head _)).isSound arises
      have size := sound.size
      have inside : (⋃ d ∈ first :: rest, d.slot) ⊆ span 0 b.next.toNat :=
        Set.iUnion₂_subset fun d mem => (fits d mem).slot_subset sound
      obtain ⟨_, b', run, sound', next, same, promise⟩ :=
        (takes_forM_put (fun d mem => ⟨(fits d mem).laidOut, (fits d mem).shape⟩) apart).leads
          sound inside (size ▸ room)
      rw [← sound'.size, ← size] at next
      rw [← size] at same
      exact ⟨b', run, next, promise _ (Set.eqOn_refl _ _) (Nat.le_refl _), same⟩

/-! ### Two neighbours -/

/-- A memory in which eight bytes have been handed out. -/
def shelf : BumpMemory := ⟨.zeros 16, 16⟩

/-- A map whose keys are lists, in the first four bytes. -/
def index : Deposit where
  ty := .map (.array .u8) (.nullable (.nullable .u64))
  value := .map [(.array [.u8 1, .u8 2], .u64 7), (.array [], .null)]
  address := 8

/-- The second one of these fields stands behind a gap. -/
def labelFields : List (String × Ty) := [("size", .u8), ("text", .nullable .string)]

/-- An object, in the next four bytes. -/
def label : Deposit where
  ty := .objectOf "Label" labelFields
  value := .object [.u8 3, .string "tag"]
  address := 12

/-- Both of them are read back from the memory into which they were written. -/
theorem put_framed_neighbours : shelf.Arises ∧ index.Fits shelf ∧ label.Fits shelf ∧
    Disjoint index.slot label.slot ∧ shelf.memory.size + (index.room + label.room) ≤ limit ∧
    ∃ b', shelf.runOn ([index, label].forM put) = (.ok (), b') ∧ index.StandsIn b'.memory ∧
      label.StandsIn b'.memory := by
  have arises : shelf.Arises := @BumpMemory.Arises.alloc _ _ 8 _ .empty rfl
  have indexed : index.Fits shelf :=
    ⟨.map (.array (.leaf rfl)) (.nullable (.nullable (.leaf rfl))), rfl, by decide⟩
  have fields : ∀ f ∈ labelFields, f.2.LaidOut :=
    List.forall_mem_cons.2 ⟨.leaf rfl, List.forall_mem_cons.2 ⟨.nullable (.leaf rfl), nofun⟩⟩
  have labelled : label.Fits shelf := ⟨laidOut_objectOf fields, rfl, by decide⟩
  have apart : Disjoint index.slot label.slot := disjoint_span (by decide)
  have room : shelf.memory.size + ([index, label].map Deposit.room).sum ≤ limit := by decide
  obtain ⟨b', run, -, stand, -⟩ := put_framed.2 shelf [index, label] arises
    (by simp [indexed, labelled]) (by simp [apart]) room
  exact ⟨arises, indexed, labelled, apart, room, b', run, stand _ (.head _),
    stand _ (.tail _ (.head _))⟩

end Deposit

end Ty

end JigLedger
