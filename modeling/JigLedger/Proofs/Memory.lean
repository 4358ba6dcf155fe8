import JigLedger.Memory.Access
import JigLedger.Proofs.Except
import Mathlib.Data.Set.BooleanAlgebra
import Mathlib.Data.Set.Function
import Mathlib.Order.CompletePartialOrder
import Mathlib.Order.Interval.Set.Basic

/-!
# Areas of memory

What is read from a memory depends on the bytes in some area only, and what is written changes the
bytes in some area only. So what has been written is read back from every later memory that agrees
with the one written to on the area in question.
-/

namespace JigLedger

/-- The addresses of `size` bytes from an address on. -/
def span (address size : Nat) : Set Nat := Set.Ico address (address + size)

@[simp] theorem mem_span {address size a : Nat} :
    a ∈ span address size ↔ address ≤ a ∧ a < address + size := Set.mem_Ico

@[simp] theorem span_zero (address : Nat) : span address 0 = ∅ := by simp [span]

theorem span_subset {address size address' size' : Nat} (below : address' ≤ address)
    (above : address + size ≤ address' + size') :
    span address size ⊆ span address' size' := Set.Ico_subset_Ico below above

/-- Two neighbours are one span. -/
theorem span_union_span (address m n : Nat) :
    span address m ∪ span (address + m) n = span address (m + n) := by
  ext a
  rw [Set.mem_union, mem_span, mem_span, mem_span]
  omega

theorem disjoint_span {address size address' size' : Nat} (apart : address + size ≤ address') :
    Disjoint (span address size) (span address' size') := by
  rw [Set.disjoint_left]
  intro a h h'
  rw [mem_span] at h h'
  omega

/-- A byte of one span is not in another one that is disjoint from it. -/
theorem not_disjoint_span {address size a : Nat} {A : Set Nat} (inside : a ∈ A)
    (there : a ∈ span address size) : ¬ Disjoint A (span address size) :=
  fun apart => Set.disjoint_left.1 apart inside there

namespace LinearMemory

variable {A : Set Nat} {m m' : LinearMemory} {address : Nat} {bs : Bytes}

/-! ### Agreement -/

/-- Two memories have the same bytes in an area. -/
abbrev AgreesOn (A : Set Nat) (m m' : LinearMemory) : Prop := Set.EqOn m.byte m'.byte A

theorem AgreesOn.slice {count : Nat} (h : AgreesOn A m m') (sub : span address count ⊆ A) :
    m.slice address count = m'.slice address count := by
  apply List.ext_getElem?
  intro i
  rw [getElem?_slice, getElem?_slice]
  by_cases inside : i < count
  · rw [if_pos inside, if_pos inside, h (sub (mem_span.2 (by omega)))]
  · rw [if_neg inside, if_neg inside]

/-- Writing changes nothing outside of what is written. -/
theorem agreesOn_overwrite (apart : Disjoint A (span address bs.length)) :
    AgreesOn A m (m.overwrite address bs) := by
  intro a ha
  have outside : a ∉ span address bs.length := Set.disjoint_left.1 apart ha
  rw [mem_span] at outside
  rw [byte_overwrite]
  by_cases behind : address ≤ a
  · have beyond : bs[a - address]? = none := List.getElem?_eq_none (by omega)
    rw [if_pos behind, beyond, Option.getD_none]
  · rw [if_neg behind]

/-- A memory that grows keeps its bytes. -/
theorem byte_resize {size : Nat} (grows : m.size ≤ size) (a : Nat) :
    (m.resize size).byte a = m.byte a := by
  rw [resize, if_pos grows]
  rfl

theorem size_resize (size : Nat) : (m.resize size).size = size := by
  unfold resize
  split <;> rfl

/-! ### What stands at an address -/

/-- The bytes stand at an address. -/
def Holds (m : LinearMemory) (address : Nat) (bs : Bytes) : Prop :=
  m.slice address bs.length = bs

theorem Holds.agrees (h : m.Holds address bs) (same : AgreesOn A m m')
    (sub : span address bs.length ⊆ A) : m'.Holds address bs := (same.slice sub).symm.trans h

theorem checkRange_eq_ok {address : UInt32} {length : Nat} :
    m.checkRange address length = .ok () ↔ address.toNat + length ≤ m.size := by
  rw [checkRange, contains]
  by_cases inside : address.toNat + length ≤ m.size <;> simp [inside]

theorem write_eq_ok {address : UInt32} :
    m.write address bs = .ok m' ↔
      address.toNat + bs.length ≤ m.size ∧ m' = m.overwrite address.toNat bs := by
  rw [write, ← checkRange_eq_ok]
  rcases m.checkRange address bs.length with e | u
  · simp [bind, Except.bind]
  · simp [bind, Except.bind, pure, Except.pure, eq_comm]

theorem Holds.read {address length : UInt32} (h : m.Holds address.toNat bs)
    (size : length.toNat = bs.length) : Gives (m.read address length) bs := by
  refine Gives.after ?_
  rw [size]
  exact fun other same => (Except.ok.inj same).symm.trans h

theorem Holds.readWord {address word : UInt32}
    (h : m.Holds address.toNat (littleEndian 4 word.toNat)) : Gives (m.readWord address) word := by
  have four : (4 : UInt32).toNat = (littleEndian 4 word.toNat).length :=
    (length_littleEndian 4 _).symm
  refine (h.read four).bind ?_
  have whole : word.toNat % stringCount 4 = word.toNat := Nat.mod_eq_of_lt word.toNat_lt
  rw [ofLittleEndian_littleEndian, whole, UInt32.ofNat_toNat]
  exact gives_ok word

/-- A buffer is read as what stands behind its length. -/
theorem Holds.readBuffer {address length : UInt32} (size : length.toNat = bs.length)
    (head : m.Holds address.toNat (littleEndian 4 length.toNat))
    (body : m.Holds (address.toNat + 4) bs) : Gives (m.readBuffer address) bs := by
  refine head.readWord.bind ?_
  by_cases room : address.toNat + 4 < UInt32.size
  · rw [if_pos room]
    have next : (address + 4).toNat = address.toNat + 4 := by
      rw [UInt32.toNat_add]
      exact Nat.mod_eq_of_lt room
    exact (next ▸ body : m.Holds (address + 4).toNat bs).read size
  · rw [if_neg room]
    exact gives_error _ _

end LinearMemory

end JigLedger
