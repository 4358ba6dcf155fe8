import JigLedger.Memory.Basic
import JigLedger.Value.Check

/-!
# Checked access to memory

Addresses are 32-bit words and every access is checked against the size of the memory. A buffer is
a length of four bytes and that many bytes after it.
-/

namespace JigLedger

/-- Why a value could not be moved into or out of a memory. -/
inductive MemoryError where
  | outOfBounds (address length size : Nat)
  | bufferOverflow (address : Nat)
  | bufferTooLarge
  | collectionTooLarge (length : Nat)
  | allocationOverflow (size : Nat)
  /-- The guest's allocator returned the null address. -/
  | nullAllocation (size : Nat)
  | value (error : ValueError)
  | notScalar (ty : Ty)
  | notPointer (ty : Ty)
  | nullPointer (ty : Ty)
  | notUtf8 (fault : Utf8.Fault)
  | noOrigin (address : Nat)
  | identifier (error : IdentifierError)
  | missingBlob
  | shortBlob (length needed : Nat)
  | fieldValues (expected actual : Nat)
deriving Repr

/-- The wording of a memory error. -/
def MemoryError.message : MemoryError → String
  | outOfBounds address length size =>
    s!"memory access out of bounds: {address}+{length} > {size}"
  | bufferOverflow address => s!"buffer pointer overflow at {address}"
  | bufferTooLarge => "buffer too large"
  | collectionTooLarge n => s!"collection too large: {n}"
  | allocationOverflow size => s!"allocation of {size} bytes overflows"
  | nullAllocation size => s!"guest allocator returned null for {size} bytes"
  | value e => e.message
  | notScalar t => s!"{t.toText} is not a scalar"
  | notPointer t => s!"{t.toText} is not a pointer type"
  | nullPointer t => s!"null pointer for non-nullable {t.toText}"
  | notUtf8 fault => s!"invalid utf-8 string: {fault.message}"
  | noOrigin address => s!"jig at {address} has no origin yet"
  | identifier e => e.message
  | missingBlob => "missing argument blob"
  | shortBlob length needed => s!"argument blob is {length} bytes, need {needed}"
  | fieldValues expected actual => s!"expected {expected} values, got {actual}"

namespace LinearMemory

/-- Fails unless `length` bytes from the address on are inside. -/
def checkRange (m : LinearMemory) (address : UInt32) (length : Nat) : Except MemoryError Unit :=
  if m.contains address.toNat length then .ok ()
  else .error (.outOfBounds address.toNat length m.size)

/-- The bytes from an address on. -/
def read (m : LinearMemory) (address length : UInt32) : Except MemoryError Bytes := do
  m.checkRange address length.toNat
  return m.slice address.toNat length.toNat

/-- The memory with other bytes from an address on. -/
def write (m : LinearMemory) (address : UInt32) (bs : Bytes) : Except MemoryError LinearMemory := do
  m.checkRange address bs.length
  return m.overwrite address.toNat bs

/-- The word at an address. -/
def readWord (m : LinearMemory) (address : UInt32) : Except MemoryError UInt32 := do
  return UInt32.ofNat (ofLittleEndian (← m.read address 4))

/-- The contents of the buffer at an address. -/
def readBuffer (m : LinearMemory) (address : UInt32) : Except MemoryError Bytes := do
  let length ← m.readWord address
  if address.toNat + 4 < UInt32.size then
    m.read (address + 4) length
  else .error (.bufferOverflow address.toNat)

end LinearMemory

/-- A memory with an allocator: what is needed to write values. Allocating may run the code of a
guest, so it has effects in some monad `m`. -/
structure Heap (m : Type → Type) where
  /-- The address of so many fresh bytes, never zero. -/
  alloc : UInt32 → m UInt32
  /-- Writes bytes to an address. -/
  write : UInt32 → Bytes → m Unit
  /-- Gives up. -/
  fail : {α : Type} → MemoryError → m α

namespace Heap

variable {m : Type → Type} [Monad m]

/-- Continues with the result of a check. -/
def lift (h : Heap m) {α : Type} : Except MemoryError α → m α
  | .ok a => pure a
  | .error e => h.fail e

/-- Writes a word to an address. -/
def writeWord (h : Heap m) (address value : UInt32) : m Unit :=
  h.write address (littleEndian 4 value.toNat)

/-- Allocates a buffer with the given contents. -/
def writeBuffer (h : Heap m) (bs : Bytes) : m UInt32 := do
  if bs.length < UInt32.size then
    let length := UInt32.ofNat bs.length
    let address ← h.alloc (4 + length)
    h.writeWord address length
    h.write (address + 4) bs
    return address
  else h.fail .bufferTooLarge

end Heap

/-- Guest allocations are aligned to this boundary. -/
def allocAlign : UInt32 := 8

/-- A memory that grows at its end. The first eight bytes are never handed out, so that address
zero can stand for nothing. -/
structure BumpMemory where
  memory : LinearMemory
  /-- The next address to hand out. -/
  next : UInt32

namespace BumpMemory

/-- The memory before anything has been allocated. -/
def empty : BumpMemory := ⟨.zeros 8, allocAlign⟩

/-- Hands out the bytes at the end of the memory; the end is then rounded up to the alignment,
modulo `2³²`. -/
def alloc (b : BumpMemory) (size : UInt32) : Except MemoryError (UInt32 × BumpMemory) :=
  if b.next.toNat + size.toNat < UInt32.size then
    let next := Layout.alignUp (b.next + size) allocAlign
    .ok (b.next, ⟨b.memory.resize next.toNat, next⟩)
  else .error (.allocationOverflow size.toNat)

/-- Writes bytes to an address. -/
def write (b : BumpMemory) (address : UInt32) (bs : Bytes) : Except MemoryError BumpMemory := do
  return { b with memory := ← b.memory.write address bs }

/-- Computations on such a memory; what was written before a failure stays. -/
abbrev Run (α : Type) := ExceptT MemoryError (StateM BumpMemory) α

/-- The memory as a heap. -/
def heap : Heap Run where
  alloc size := fun b =>
    match b.alloc size with
    | .ok (address, b) => (.ok address, b)
    | .error e => (.error e, b)
  write address bs := fun b =>
    match b.write address bs with
    | .ok b => (.ok (), b)
    | .error e => (.error e, b)
  fail e := fun b => (.error e, b)

end BumpMemory

end JigLedger
