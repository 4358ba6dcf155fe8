import JigLedger.Bytes
import Std.Data.ExtTreeMap

/-!
# Linear memory

Memory is a number of bytes, of which those never written are zero. Only written bytes are kept,
so that large memories cost nothing. `byte` is the view in which the operations are described.
-/

namespace JigLedger

/-- A memory of `size` bytes. -/
structure LinearMemory where
  size : Nat
  /-- The bytes that have been written. -/
  cells : Std.ExtTreeMap Nat UInt8 compare

namespace LinearMemory

/-- A memory of zero bytes. -/
def zeros (size : Nat) : LinearMemory := ⟨size, ∅⟩

instance : Inhabited LinearMemory := ⟨zeros 0⟩

/-- The byte at an address; zero outside of the memory. -/
def byte (m : LinearMemory) (address : Nat) : UInt8 := m.cells.getD address 0

/-- The `count` bytes from an address on. -/
def slice (m : LinearMemory) (address count : Nat) : Bytes :=
  (List.range' address count).map m.byte

/-- All bytes. -/
def bytes (m : LinearMemory) : Bytes := m.slice 0 m.size

/-- The memory with other bytes from an address on. -/
def overwrite (m : LinearMemory) (address : Nat) : Bytes → LinearMemory
  | [] => m
  | b :: bs => overwrite { m with cells := m.cells.insert address b } (address + 1) bs

/-- `count` bytes from an address on are inside. -/
def contains (m : LinearMemory) (address count : Nat) : Bool := address + count ≤ m.size

/-- The memory with another size; bytes beyond the new end are lost. -/
def resize (m : LinearMemory) (size : Nat) : LinearMemory :=
  if m.size ≤ size then { m with size := size }
  else ⟨size, m.cells.filter fun address _ => address < size⟩

@[simp] theorem byte_zeros (size address : Nat) : (zeros size).byte address = 0 := by
  simp [byte, zeros]

@[simp] theorem size_overwrite (m : LinearMemory) (address : Nat) (bs : Bytes) :
    (m.overwrite address bs).size = m.size := by
  induction bs generalizing m address with
  | nil => rfl
  | cons b bs ih => simp [overwrite, ih]

theorem byte_overwrite_of_lt (m : LinearMemory) {address a : Nat} (bs : Bytes) (h : a < address) :
    (m.overwrite address bs).byte a = m.byte a := by
  induction bs generalizing m address with
  | nil => rfl
  | cons b bs ih =>
    rw [overwrite, ih _ (by omega)]
    have : address ≠ a := by omega
    simp [byte, Std.ExtTreeMap.getD_insert, this]

/-- The bytes written are there afterwards, and all others are as before. -/
theorem byte_overwrite (m : LinearMemory) (address a : Nat) (bs : Bytes) :
    (m.overwrite address bs).byte a =
      if address ≤ a then (bs[a - address]?).getD (m.byte a) else m.byte a := by
  induction bs generalizing m address with
  | nil => simp [overwrite]
  | cons b bs ih =>
    rw [overwrite]
    by_cases heq : a = address
    · subst heq
      rw [byte_overwrite_of_lt _ _ (by omega)]
      simp [byte]
    · rw [ih]
      have hne : address ≠ a := fun h => heq h.symm
      by_cases hlt : address + 1 ≤ a
      · have e : a - address = (a - (address + 1)) + 1 := by omega
        simp [hlt, show address ≤ a by omega, e, byte, Std.ExtTreeMap.getD_insert, hne]
      · simp [hlt, show ¬ address ≤ a by omega, byte, Std.ExtTreeMap.getD_insert, hne]

@[simp] theorem length_slice (m : LinearMemory) (address count : Nat) :
    (m.slice address count).length = count := by
  simp [slice]

theorem getElem?_slice (m : LinearMemory) (address count i : Nat) :
    (m.slice address count)[i]? = if i < count then some (m.byte (address + i)) else none := by
  by_cases h : i < count <;> simp [slice, h]

/-- Bytes read back as they were written. -/
theorem slice_overwrite (m : LinearMemory) (address : Nat) (bs : Bytes) :
    (m.overwrite address bs).slice address bs.length = bs := by
  apply List.ext_getElem?
  intro i
  rw [getElem?_slice, byte_overwrite]
  by_cases h : i < bs.length
  · simp [h]
  · simp [h]

end LinearMemory

end JigLedger
