import JigLedger.Memory.Access

/-!
# Values in guest memory

Scalars stand in place; everything else is a pointer:

| type         | what the pointer leads to                            |
|--------------|------------------------------------------------------|
| string/bytes | a buffer                                             |
| array        | length and address of the items, one after the other |
| map          | length and address of the entries, key before value  |
| nullable     | zero for null; a scalar has a place of its own       |
| object       | the fields, laid out from offset 0                   |
| jig          | a record whose first word leads to a buffer with the origin |

Reading only looks at memory; writing also allocates. A call passes each value as one word.
-/

namespace JigLedger.Ty

/-- The fields of a map entry and its size. -/
def entryLayout (k v : Ty) : List Field × UInt32 := Layout.place 0 [("key", k), ("value", v)]

/-- The offset of the value in a map entry. -/
def entryValueOffset (k v : Ty) : UInt32 := Layout.alignUp k.size v.align

/-- The size of a map entry. -/
def entrySize (k v : Ty) : UInt32 := (entryLayout k v).2

/-! ### Reading -/

/-- The scalar that bytes of the right number show. -/
def scalarOf? (t : Ty) (bs : Bytes) : Option Value :=
  let n := ofLittleEndian bs
  match t with
  | bool => some (.bool (n ≠ 0))
  | u8 => some (.u8 (UInt8.ofNat n))
  | u16 => some (.u16 (UInt16.ofNat n))
  | u32 => some (.u32 (UInt32.ofNat n))
  | u64 => some (.u64 (UInt64.ofNat n))
  | i8 => some (.i8 (UInt8.ofNat n).toInt8)
  | i16 => some (.i16 (UInt16.ofNat n).toInt16)
  | i32 => some (.i32 (UInt32.ofNat n).toInt32)
  | i64 => some (.i64 (UInt64.ofNat n).toInt64)
  | _ => none

/-- The scalar at an address. -/
def readScalar (mem : LinearMemory) (t : Ty) (address : UInt32) : Except MemoryError Value := do
  let bs ← mem.read address t.size
  match t.scalarOf? bs with
  | some v => return v
  | none => .error (.notScalar t)

/-- Reads a value in place, given how to read what a pointer of its type leads to. -/
def readSlot (mem : LinearMemory) (pointee : UInt32 → Except MemoryError Value) (t : Ty)
    (address : UInt32) : Except MemoryError Value := do
  if t.isScalar then t.readScalar mem address
  else pointee (← mem.readWord address)

/-- `count` results for addresses that are `stride` apart, from `address` on. -/
def readStrided {α : Type} (item : UInt32 → Except MemoryError α) (stride : UInt32) :
    (address : UInt32) → (count : Nat) → Except MemoryError (List α)
  | _, 0 => .ok []
  | address, n + 1 => do
    let a ← item address
    let rest ← readStrided item stride (address + stride) n
    return a :: rest

/-- The origin in the record of a jig. -/
def readOrigin (mem : LinearMemory) (address : UInt32) : Except MemoryError Pointer := do
  let buffer ← mem.readWord address
  if buffer = 0 then .error (.noOrigin address.toNat)
  else (Pointer.ofBytes (← mem.readBuffer buffer)).mapError .identifier

mutual

/-- The value that a pointer of a type leads to. -/
def readPointee (mem : LinearMemory) : Ty → UInt32 → Except MemoryError Value
  | nullable t, p =>
    if p = 0 then .ok .null
    else if t.isScalar then t.readScalar mem p
    else t.readPointee mem p
  | string, p =>
    if p = 0 then .error (.nullPointer string)
    else do
      match Utf8.decode (← mem.readBuffer p) with
      | .ok s => return .string s
      | .error fault => .error (.notUtf8 fault)
  | bytes, p =>
    if p = 0 then .error (.nullPointer bytes)
    else do return .bytes (← mem.readBuffer p)
  | array t, p =>
    if p = 0 then .error (.nullPointer (array t))
    else do
      let length ← mem.readWord p
      let data ← mem.readWord (p + 4)
      mem.checkRange data (length.toNat * t.size.toNat)
      return .array (← readStrided (t.readSlot mem (t.readPointee mem)) t.size data length.toNat)
  | map k v, p =>
    if p = 0 then .error (.nullPointer (map k v))
    else do
      let length ← mem.readWord p
      let data ← mem.readWord (p + 4)
      let stride := entrySize k v
      mem.checkRange data (length.toNat * stride.toNat)
      let entry (base : UInt32) : Except MemoryError (Value × Value) := do
        let key ← k.readSlot mem (k.readPointee mem) base
        let value ← v.readSlot mem (v.readPointee mem) (base + entryValueOffset k v)
        return (key, value)
      return .map (← readStrided entry stride data length.toNat)
  | object name fields size, p =>
    if p = 0 then .error (.nullPointer (object name fields size))
    else do return .object (← readFieldsAt mem fields p)
  | jig demand, p =>
    if p = 0 then .error (.nullPointer (jig demand))
    else do return .jig (← readOrigin mem p)
  | t, p => .error (if p = 0 then .nullPointer t else .notPointer t)

/-- The values of fields that stand relative to an address. -/
def readFieldsAt (mem : LinearMemory) : List Field → UInt32 → Except MemoryError (List Value)
  | [], _ => .ok []
  | f :: fields, base => do
    let v ← f.ty.readSlot mem (f.ty.readPointee mem) (base + f.offset)
    let values ← readFieldsAt mem fields base
    return v :: values

end

/-- The value in place at an address. -/
def readValue (mem : LinearMemory) (t : Ty) (address : UInt32) : Except MemoryError Value :=
  t.readSlot mem (t.readPointee mem) address

/-- The number of bytes that fields take from offset 0 on. -/
def extent (fields : List Field) : UInt32 :=
  fields.foldl (fun n f => max n (f.offset + f.ty.size)) 0

/-- The arguments in a blob: a buffer in which they are laid out like the fields of an object.
Without parameters the blob is not looked at. -/
def readArgs (mem : LinearMemory) (params : List Field) (blob : UInt32) :
    Except MemoryError (List Value) := do
  if params.isEmpty then return []
  else if blob = 0 then .error .missingBlob
  else
    let length ← mem.readWord blob
    let needed := extent params
    if length < needed then .error (.shortBlob length.toNat needed.toNat)
    else readFieldsAt mem params (blob + 4)

/-- The value that a word of 64 bits stands for. -/
def lift (mem : LinearMemory) (t : Ty) (word : UInt64) : Except MemoryError Value :=
  match t with
  | bool => .ok (.bool (word.toUInt32 ≠ 0))
  | u8 => .ok (.u8 word.toUInt8)
  | u16 => .ok (.u16 word.toUInt16)
  | u32 => .ok (.u32 word.toUInt32)
  | u64 => .ok (.u64 word)
  | i8 => .ok (.i8 word.toUInt8.toInt8)
  | i16 => .ok (.i16 word.toUInt16.toInt16)
  | i32 => .ok (.i32 word.toUInt32.toInt32)
  | i64 => .ok (.i64 word.toInt64)
  | t => t.readPointee mem word.toUInt32

/-! ### Writing -/

section Writing

variable {m : Type → Type} [Monad m] (heap : Heap m)

/-- The bytes of a scalar in place. -/
def scalarBytes? : Value → Option Bytes
  | .bool b => some [if b then 1 else 0]
  | .u8 n => some [n]
  | .i8 n => some [n.toUInt8]
  | .u16 n => some (littleEndian 2 n.toNat)
  | .i16 n => some (littleEndian 2 n.toUInt16.toNat)
  | .u32 n => some (littleEndian 4 n.toNat)
  | .i32 n => some (littleEndian 4 n.toUInt32.toNat)
  | .u64 n => some (littleEndian 8 n.toNat)
  | .i64 n => some (littleEndian 8 n.toUInt64.toNat)
  | _ => none

/-- Writes a value in place, given how to allocate what a pointer of its type leads to. -/
def writeSlot (alloc : Value → m UInt32) (t : Ty) (v : Value) (address : UInt32) : m Unit := do
  if t.isScalar then
    heap.lift ((t.check v).mapError .value)
    match scalarBytes? v with
    | some bs => heap.write address bs
    | none => heap.fail (.notScalar t)
  else
    heap.writeWord address (← alloc v)

/-- Writes items at addresses that are `stride` apart, from `address` on. -/
def writeStrided {α : Type} (item : α → UInt32 → m Unit) (stride : UInt32) :
    (address : UInt32) → List α → m Unit
  | _, [] => pure ()
  | address, a :: rest => do
    item a address
    writeStrided item stride (address + stride) rest

/-- Allocates a sequence: its items, then the record of length and address. -/
def allocSequence {α : Type} (item : α → UInt32 → m Unit) (stride : UInt32) (items : List α) :
    m UInt32 := do
  if items.length < UInt32.size then
    let length := UInt32.ofNat items.length
    let size := min (length.toNat * stride.toNat) (UInt32.size - 1)
    let data ← heap.alloc (max (UInt32.ofNat size) 1)
    writeStrided item stride data items
    let header ← heap.alloc 8
    heap.writeWord header length
    heap.writeWord (header + 4) data
    return header
  else heap.fail (.collectionTooLarge items.length)

mutual

/-- Allocates what a pointer of a type leads to, and returns its address; null is zero. -/
def allocValue : Ty → Value → m UInt32
  | string, .string s => heap.writeBuffer (utf8 s)
  | bytes, .bytes bs => heap.writeBuffer bs
  | array t, .array items =>
    allocSequence heap (writeSlot heap t.allocValue t) t.size items
  | map k v, .map entries =>
    let entry (e : Value × Value) (base : UInt32) : m Unit := do
      writeSlot heap k.allocValue k e.1 base
      writeSlot heap v.allocValue v e.2 (base + entryValueOffset k v)
    allocSequence heap entry (entrySize k v) entries
  | nullable _, .null => pure 0
  | nullable t, v =>
    if t.isScalar then do
      let address ← heap.alloc t.size
      writeSlot heap t.allocValue t v address
      return address
    else t.allocValue v
  | object name fields size, .object values => do
    heap.lift (((object name fields size).check (.object values)).mapError .value)
    let address ← heap.alloc (max size 1)
    writeFieldsAt fields values address
    return address
  | jig _, .jig origin => do
    let buffer ← heap.writeBuffer origin.toBytes
    let record ← heap.alloc 4
    heap.writeWord record buffer
    return record
  | t, v => heap.fail (.value (.mismatch t v))

/-- Writes the values of fields relative to an address. -/
def writeFieldsAt : List Field → List Value → UInt32 → m Unit
  | f :: fields, v :: values, base => do
    writeSlot heap f.ty.allocValue f.ty v (base + f.offset)
    writeFieldsAt fields values base
  | _, _, _ => pure ()

end

/-- Writes a value in place at an address. -/
def writeValue (t : Ty) (v : Value) (address : UInt32) : m Unit :=
  writeSlot heap (t.allocValue heap) t v address

/-- Writes a row of values to fields that stand relative to an address. -/
def writeRecord (fields : List Field) (values : List Value) (base : UInt32) : m Unit :=
  if fields.length = values.length then writeFieldsAt heap fields values base
  else heap.fail (.fieldValues fields.length values.length)

/-- Fills in the origin in the record of a jig. -/
def writeOrigin (address : UInt32) (origin : Pointer) : m Unit := do
  heap.writeWord address (← heap.writeBuffer origin.toBytes)

/-- The word that stands for a value in a call. All but 64-bit numbers fit into the low half. -/
def lower (t : Ty) (v : Value) : m UInt64 := do
  heap.lift ((t.check v).mapError .value)
  match v with
  | .bool b => pure (if b then 1 else 0)
  | .u8 n => pure n.toUInt64
  | .u16 n => pure n.toUInt64
  | .u32 n => pure n.toUInt64
  | .u64 n => pure n
  | .i8 n => pure n.toInt32.toUInt32.toUInt64
  | .i16 n => pure n.toInt32.toUInt32.toUInt64
  | .i32 n => pure n.toUInt32.toUInt64
  | .i64 n => pure n.toUInt64
  | v => do return (← t.allocValue heap v).toUInt64

end Writing

end JigLedger.Ty
