import JigLedger.Text.Utf8
import JigLedger.Wire.Fault

/-!
# Binary codecs

The binary format of records, transactions and states. Numbers have fixed width, least significant
byte first; lengths and tags are ULEB128 numerals of minimal size; the entries of a map stand in
increasing order of their encoded keys. A `Codec` pairs a writer with a reader, and larger codecs
are built from smaller ones, so that every value has one encoding and every encoding one value.
-/

namespace JigLedger.Wire

/-- Takes a value off the front of a byte string. -/
abbrev Reader (α : Type) := StateT Bytes (Except Fault) α

/-- The encoding of a value, if it has one. -/
abbrev Writer (α : Type) := α → Except Fault Bytes

/-- A writer and the reader of what it writes. -/
structure Codec (α : Type) where
  write : Writer α
  read : Reader α

/-! ### Reading pieces -/

/-- Stops reading. -/
def fail {α : Type} (fault : Fault) : Reader α := fun _ => .error fault

/-- The next byte. -/
def readByte : Reader UInt8
  | [] => .error .endOfInput
  | b :: rest => .ok (b, rest)

/-- The next `n` bytes. -/
def readBytes (n : Nat) : Reader Bytes := fun input =>
  if n ≤ input.length then .ok (input.take n, input.drop n) else .error .endOfInput

/-- The digits of a numeral in base 128, least significant first; a set top bit says that more
follow. `first` says that no digit has been read yet, and at most `room` digits are read. -/
def readDigits : (room : Nat) → (first : Bool) → Reader Nat
  | 0, _ => fail .tooWide
  | room + 1, first => do
    let b ← readByte
    if b < 0x80 then
      if !first && b == 0 then fail .notMinimal else return b.toNat
    else
      let high ← readDigits room false
      return b.toNat - 128 + 128 * high

/-- A numeral below `2³²`. -/
def readNumeral : Reader Nat := do
  let n ← readDigits 5 true
  if n < UInt32.size then return n else fail .tooWide

/-- The length of a sequence. -/
def readLength : Reader Nat := do
  let n ← readNumeral
  if n ≤ maxLength then return n else fail (.tooLong n)

/-- `count` values, one after the other. -/
def readMany {α : Type} (item : Reader α) : (count : Nat) → Reader (List α)
  | 0 => return []
  | n + 1 => do
    let a ← item
    let rest ← readMany item n
    return a :: rest

/-- A value and the bytes it was read from. -/
def readSpan {α : Type} (item : Reader α) : Reader (α × Bytes) := fun input => do
  let (a, rest) ← item input
  return ((a, input.take (input.length - rest.length)), rest)

/-- `count` entries whose encoded keys increase from `previous` on. -/
def readEntries {κ ν : Type} (key : Reader κ) (value : Reader ν) :
    (count : Nat) → (previous : Option Bytes) → Reader (List (κ × ν))
  | 0, _ => return []
  | n + 1, previous => do
    let (k, span) ← readSpan key
    if previous.any fun p => compare p span != .lt then fail .keyOrder
    else
      let v ← value
      let rest ← readEntries key value n (some span)
      return (k, v) :: rest

/-! ### Writing pieces -/

/-- The digits of a number in base 128, at most `room` of them. -/
def numeralDigits : (room : Nat) → Nat → Bytes
  | 0, _ => []
  | room + 1, n =>
    if n < 128 then [UInt8.ofNat n]
    else UInt8.ofNat (128 + n % 128) :: numeralDigits room (n / 128)

/-- The numeral of a number below `2³²`. -/
def numeral (n : Nat) : Bytes := numeralDigits 5 n

/-- The length of a sequence. -/
def writeLength (n : Nat) : Except Fault Bytes :=
  if n ≤ maxLength then .ok (numeral n) else .error (.tooLong n)

/-- The encodings of several values, one after the other. -/
def writeMany {α : Type} (item : Writer α) : Writer (List α)
  | [] => .ok []
  | a :: rest => do return (← item a) ++ (← writeMany item rest)

/-- Encoded entries in increasing order of their keys. -/
def sortEntries (entries : List (Bytes × Bytes)) : List (Bytes × Bytes) :=
  entries.mergeSort fun a b => (compare a.1 b.1).isLE

/-- Sorted entries without those whose key is that of the entry before them. -/
def dropRepeats : (previous : Option Bytes) → List (Bytes × Bytes) → List (Bytes × Bytes)
  | _, [] => []
  | previous, e :: rest =>
    if previous = some e.1 then dropRepeats previous rest
    else e :: dropRepeats (some e.1) rest

/-- A map with the given encoded entries; of entries with the same key the first one counts. -/
def writeEntries (entries : List (Bytes × Bytes)) : Except Fault Bytes := do
  let kept := dropRepeats none (sortEntries entries)
  let length ← writeLength kept.length
  return length ++ kept.flatMap fun e => e.1 ++ e.2

/-! ### Codecs -/

namespace Codec

/-- Numbers of `width` bytes, in the form of a fixed-width type. -/
def word (α : Type) (width : Nat) (toNat : α → Nat) (ofNat : Nat → α) : Codec α where
  write a := .ok (littleEndian width (toNat a))
  read := do return ofNat (ofLittleEndian (← readBytes width))

/-- Words of one byte. -/
def u8 : Codec UInt8 := word UInt8 1 (·.toNat) UInt8.ofNat

/-- Words of two bytes. -/
def u16 : Codec UInt16 := word UInt16 2 (·.toNat) UInt16.ofNat

/-- Words of four bytes. -/
def u32 : Codec UInt32 := word UInt32 4 (·.toNat) UInt32.ofNat

/-- Words of eight bytes. -/
def u64 : Codec UInt64 := word UInt64 8 (·.toNat) UInt64.ofNat

/-- Signed numbers of one byte. -/
def i8 : Codec Int8 := word Int8 1 (·.toUInt8.toNat) fun n => (UInt8.ofNat n).toInt8

/-- Signed numbers of two bytes. -/
def i16 : Codec Int16 := word Int16 2 (·.toUInt16.toNat) fun n => (UInt16.ofNat n).toInt16

/-- Signed numbers of four bytes. -/
def i32 : Codec Int32 := word Int32 4 (·.toUInt32.toNat) fun n => (UInt32.ofNat n).toInt32

/-- Signed numbers of eight bytes. -/
def i64 : Codec Int64 := word Int64 8 (·.toUInt64.toNat) fun n => (UInt64.ofNat n).toInt64

/-- Truth values: one byte, 0 or 1. -/
def bool : Codec Bool where
  write b := .ok [if b then 1 else 0]
  read := do
    let b ← readByte
    if b == 0 then return false else if b == 1 then return true else fail .notBool

/-- Byte strings with their length. -/
def bytes : Codec Bytes where
  write bs := do return (← writeLength bs.length) ++ bs
  read := do readBytes (← readLength)

/-- Texts, as their UTF-8 bytes with their length. -/
def text : Codec String where
  write s := bytes.write (utf8 s)
  read := do
    let bs ← bytes.read
    match Utf8.decode? bs with
    | some s => return s
    | none => fail .notUtf8

/-- Exactly `n` bytes, without a length. -/
def block (n : Nat) : Codec (Block n) where
  write b := .ok b.bytes
  read := do
    let bs ← readBytes n
    match Block.ofBytes? n bs with
    | some b => return b
    | none => fail .endOfInput

/-- A pair of values. -/
def pair {α β : Type} (first : Codec α) (second : Codec β) : Codec (α × β) where
  write p := do return (← first.write p.1) ++ (← second.write p.2)
  read := do return (← first.read, ← second.read)

/-- Values of another type with the same encodings. -/
def iso {α β : Type} (c : Codec α) (there : α → β) (back : β → α) : Codec β where
  write b := c.write (back b)
  read := do return there (← c.read)

/-- A sequence with its length. -/
def list {α : Type} (item : Codec α) : Codec (List α) where
  write as := do return (← writeLength as.length) ++ (← writeMany item.write as)
  read := do readMany item.read (← readLength)

/-- A map, as the list of its entries. Reading gives them in increasing order of their encoded
keys. -/
def map {κ ν : Type} (key : Codec κ) (value : Codec ν) : Codec (List (κ × ν)) where
  write entries := do
    let encoded ← entries.mapM fun e => do return (← key.write e.1, ← value.write e.2)
    writeEntries encoded
  read := do readEntries key.read value.read (← readLength) none

/-- Reads a whole byte string. -/
def decode {α : Type} (c : Codec α) (input : Bytes) : Except Fault α :=
  match c.read input with
  | .ok (a, []) => .ok a
  | .ok (_, _ :: _) => .error .remainingInput
  | .error fault => .error fault

end Codec

end JigLedger.Wire
