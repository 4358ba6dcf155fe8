import JigLedger.Value.Layout

/-!
# Guarded reading

Reading once more, in the small steps that a machine takes. Each byte is fetched by itself, and each
sum and each product of 32-bit words is computed by itself: items stand at `data + i * stride`,
fields at `base + offset`. A sum or a product that does not fit into 32 bits and a byte that is not
in the memory stop everything, and then there is no result at all.
-/

namespace JigLedger

/-- Work that may fail with an error, and that may stop without a result. -/
abbrev Guarded (α : Type) := ExceptT MemoryError Option α

namespace Guarded

/-- Stops without a result. -/
def stop {α : Type} : Guarded α := ExceptT.mk none

/-- Goes on with the result of a check. -/
def check {α : Type} (x : Except MemoryError α) : Guarded α := ExceptT.mk (some x)

/-- The sum of two words. -/
def sum (a b : UInt32) : Guarded UInt32 :=
  if a.toNat + b.toNat < UInt32.size then pure (a + b) else stop

/-- The product of two words. -/
def product (a b : UInt32) : Guarded UInt32 :=
  if a.toNat * b.toNat < UInt32.size then pure (a * b) else stop

/-! ### Layouts -/

/-- The least multiple of the alignment that is not below the offset. -/
def alignUp (offset align : UInt32) : Guarded UInt32 :=
  if align ≤ 1 then pure offset
  else do product (← sum (offset / align) (if offset % align = 0 then 0 else 1)) align

/-- Fields placed in order from `offset` on, as `Layout.placeFrom` places them. -/
def placeFrom (offset widest : UInt32) :
    List (String × Ty) → Guarded (List Field × UInt32 × UInt32)
  | [] => pure ([], offset, widest)
  | (name, ty) :: rest => do
    let start ← alignUp offset ty.align
    let next ← sum start ty.size
    let (placed, finish, widest) ← placeFrom next (max widest ty.align) rest
    return (⟨name, ty, start⟩ :: placed, finish, widest)

/-- Fields placed in order from `start` on, and the size of the whole. -/
def place (start : UInt32) (fields : List (String × Ty)) : Guarded (List Field × UInt32) := do
  let (placed, finish, widest) ← placeFrom start 1 fields
  return (placed, ← alignUp finish widest)

/-! ### Memory -/

variable (mem : LinearMemory)

/-- The byte at an address inside the memory. -/
def byteAt (address : Nat) : Guarded UInt8 :=
  if address < mem.size then pure (mem.byte address) else stop

/-- The bytes from an address on, up to the end of the range. -/
def read (address length : UInt32) : Guarded Bytes := do
  check (mem.checkRange address length.toNat)
  let finish ← sum address length
  (List.range' address.toNat (finish.toNat - address.toNat)).mapM (byteAt mem)

/-- The word at an address. -/
def readWord (address : UInt32) : Guarded UInt32 := do
  return UInt32.ofNat (ofLittleEndian (← read mem address 4))

/-- The contents of the buffer at an address. -/
def readBuffer (address : UInt32) : Guarded Bytes := do
  let length ← readWord mem address
  if address.toNat + 4 < UInt32.size then
    let data ← sum address 4
    check (mem.checkRange data length.toNat)
    read mem data length
  else check (.error (.bufferOverflow address.toNat))

/-! ### Values -/

/-- The scalar at an address. -/
def readScalar (t : Ty) (address : UInt32) : Guarded Value := do
  let bs ← read mem address t.size
  match t.scalarOf? bs with
  | some v => return v
  | none => check (.error (.notScalar t))

/-- Reads a value in place, given how to read what a pointer of its type leads to. -/
def readSlot (pointee : UInt32 → Guarded Value) (t : Ty) (address : UInt32) : Guarded Value := do
  if t.isScalar then readScalar mem t address
  else pointee (← readWord mem address)

/-- The items at `data + i * stride`, for all `i` below the count. -/
def readEach {α : Type} (item : UInt32 → Guarded α) (data stride count : UInt32) :
    Guarded (List α) :=
  (List.range count.toNat).mapM fun i => do
    item (← sum data (← product (UInt32.ofNat i) stride))

/-- The origin in the record of a jig. -/
def readOrigin (address : UInt32) : Guarded Pointer := do
  let buffer ← readWord mem address
  if buffer = 0 then check (.error (.noOrigin address.toNat))
  else check ((Pointer.ofBytes (← readBuffer mem buffer)).mapError .identifier)

/-- The address of the field with an index, relative to an address. -/
def fieldAt (fields : List Field) (idx : Nat) (base : UInt32) : Guarded UInt32 :=
  match fields[idx]? with
  | some f => sum base f.offset
  | none => stop

mutual

/-- The value that a pointer of a type leads to. -/
def readPointee : Ty → UInt32 → Guarded Value
  | .nullable t, p =>
    if p = 0 then pure .null
    else if t.isScalar then readScalar mem t p
    else readPointee t p
  | .string, p =>
    if p = 0 then check (.error (.nullPointer .string))
    else do
      match Utf8.decode (← readBuffer mem p) with
      | .ok s => return .string s
      | .error fault => check (.error (.notUtf8 fault))
  | .bytes, p =>
    if p = 0 then check (.error (.nullPointer .bytes))
    else do return .bytes (← readBuffer mem p)
  | .array t, p =>
    if p = 0 then check (.error (.nullPointer (.array t)))
    else do
      let length ← readWord mem p
      let data ← readWord mem (← sum p 4)
      check (mem.checkRange data (length.toNat * t.size.toNat))
      return .array (← readEach (readSlot mem (readPointee t) t) data t.size length)
  | .map k v, p =>
    if p = 0 then check (.error (.nullPointer (.map k v)))
    else do
      let length ← readWord mem p
      let data ← readWord mem (← sum p 4)
      let (fields, stride) ← place 0 [("key", k), ("value", v)]
      check (mem.checkRange data (length.toNat * stride.toNat))
      let entry (base : UInt32) : Guarded (Value × Value) := do
        let key ← readSlot mem (readPointee k) k (← fieldAt fields 0 base)
        let value ← readSlot mem (readPointee v) v (← fieldAt fields 1 base)
        return (key, value)
      return .map (← readEach entry data stride length)
  | .object name fields size, p =>
    if p = 0 then check (.error (.nullPointer (.object name fields size)))
    else do return .object (← readFieldsAt fields p)
  | .jig demand, p =>
    if p = 0 then check (.error (.nullPointer (.jig demand)))
    else do return .jig (← readOrigin mem p)
  | t, p => check (.error (if p = 0 then .nullPointer t else .notPointer t))

/-- The values of fields that stand relative to an address. -/
def readFieldsAt : List Field → UInt32 → Guarded (List Value)
  | [], _ => pure []
  | f :: fields, base => do
    let v ← readSlot mem (readPointee f.ty) f.ty (← sum base f.offset)
    let values ← readFieldsAt fields base
    return v :: values

end

/-- The value in place at an address. -/
def readValue (t : Ty) (address : UInt32) : Guarded Value :=
  readSlot mem (readPointee mem t) t address

/-- The number of bytes that fields take from offset 0 on. -/
def extent (fields : List Field) : Guarded UInt32 :=
  fields.foldlM (fun n f => do return max n (← sum f.offset f.ty.size)) 0

/-- The arguments in a blob, which have to be so many bytes. -/
def readArgs (needed : Guarded UInt32) (params : List Field) (blob : UInt32) :
    Guarded (List Value) := do
  if params.isEmpty then return []
  else if blob = 0 then check (.error .missingBlob)
  else
    let length ← readWord mem blob
    let needed ← needed
    if length < needed then check (.error (.shortBlob length.toNat needed.toNat))
    else readFieldsAt mem params (← sum blob 4)

/-- The value that a word of 64 bits stands for. -/
def lift (t : Ty) (word : UInt64) : Guarded Value :=
  match t with
  | .bool | .u8 | .u16 | .u32 | .u64 | .i8 | .i16 | .i32 | .i64 => check (t.lift mem word)
  | t => readPointee mem t word.toUInt32

end Guarded

end JigLedger
