import JigLedger.Text.Utf8
import JigLedger.Wasm.Code
import JigLedger.Wasm.Mnemonic

/-!
# The binary format of modules

A module is a header and sections in a fixed order; the sections of custom content are skipped.
Numbers are written seven bits at a time, least significant first.
-/

namespace JigLedger.Wasm.Binary

/-- A reader takes what it reads from the front of the bytes. -/
abbrev Reader := StateT Bytes (Except ModuleFault)

/-- Gives up. -/
def fail {α : Type} (reason : String) : Reader α := throw (.malformed reason)

/-- One byte. -/
def byte : Reader UInt8 := do
  match ← get with
  | [] => fail "unexpected end"
  | b :: rest =>
    set rest
    return b

/-- `count` bytes. -/
def take (count : Nat) : Reader Bytes := do
  let bs ← get
  if count ≤ bs.length then
    set (bs.drop count)
    return bs.take count
  else fail "unexpected end"

/-- Continues the reading of an unsigned number below `2 ^ bits`. -/
def unsignedFrom (shift bits : Nat) : (room : Nat) → Reader Nat
  | 0 => fail "integer representation too long"
  | room + 1 => do
    let b ← byte
    let low := b.toNat % 128
    if shift + 7 > bits ∧ low ≥ 1 <<< (bits - shift) then fail "integer too large"
    else if b < 128 then return low <<< shift
    else return low <<< shift + (← unsignedFrom (shift + 7) bits room)

/-- An unsigned number below `2 ^ 32`. -/
def u32 : Reader Nat := unsignedFrom 0 32 5

/-- Continues the reading of a signed number of so many bits; the result is the number modulo
`2 ^ bits`. -/
def signedFrom (shift bits : Nat) : (room : Nat) → Reader Nat
  | 0 => fail "integer representation too long"
  | room + 1 => do
    let b ← byte
    let low := b.toNat % 128
    let used := bits - shift
    let negative := 64 ≤ low
    if b < 128 then
      let top := low >>> (used - 1)
      if used < 7 ∧ top ≠ 0 ∧ top ≠ 1 <<< (8 - used) - 1 then
        fail "integer too large"
      else
        let fill := if negative then 1 <<< bits - 1 <<< (shift + 7) else 0
        return (low <<< shift + fill) % (1 <<< bits)
    else return low <<< shift + (← signedFrom (shift + 7) bits room)

/-- A signed number of 32 bits, as its bits. -/
def s32 : Reader Nat := do return (← signedFrom 0 32 5) % UInt32.size

/-- A signed number of 64 bits, as its bits. -/
def s64 : Reader Nat := do return (← signedFrom 0 64 10) % UInt64.size

/-- So many items. -/
def times {α : Type} (item : Reader α) : (count : Nat) → Reader (List α)
  | 0 => return []
  | n + 1 => do
    let a ← item
    let rest ← times item n
    return a :: rest

/-- A count and so many items. Every item takes at least one byte. -/
def vec {α : Type} (item : Reader α) : Reader (List α) := do
  let count ← u32
  if count ≤ (← get).length then times item count else fail "unexpected end"

/-- A name. -/
def name : Reader String := do
  let bs ← take (← u32)
  match Utf8.decode? bs with
  | some s => return s
  | none => fail "malformed utf-8 encoding"

/-- The type with a code. -/
def numType? : UInt8 → Option NumType
  | 0x7F => some .i32
  | 0x7E => some .i64
  | 0x7D => some .f32
  | 0x7C => some .f64
  | _ => none

/-- The type of a number. -/
def numType : Reader NumType := do
  match numType? (← byte) with
  | some t => return t
  | none => fail "unknown value type"

/-- The type of a function. -/
def funcType : Reader FuncType := do
  if (← byte) ≠ 0x60 then fail "unknown type"
  else
    let params ← vec numType
    let results ← vec numType
    return ⟨params, results⟩

/-- The type with an index. -/
def typeAt (types : List FuncType) (idx : Nat) : Reader FuncType :=
  match types[idx]? with
  | some t => return t
  | none => throw (.invalid s!"unknown type {idx}")

/-- The limits of a memory. -/
def limits : Reader Limits := do
  match ← byte with
  | 0 => return ⟨← u32, none⟩
  | 1 =>
    let least ← u32
    return ⟨least, some (← u32)⟩
  | _ => fail "unknown limits"

/-- The type of a global. -/
def globalType : Reader GlobalType := do
  let t ← numType
  match ← byte with
  | 0 => return ⟨t, false⟩
  | 1 => return ⟨t, true⟩
  | _ => fail "malformed mutability"

/-- The type of a block: none, one result, or the index of a type. -/
def blockType (types : List FuncType) : Reader FuncType := do
  match ← get with
  | [] => fail "unexpected end"
  | b :: rest =>
    if b = 0x40 then
      set rest
      return ⟨[], []⟩
    else
      match numType? b with
      | some t =>
        set rest
        return ⟨[], [t]⟩
      | none => typeAt types (← s32)

/-- The constant part of an access to memory. The alignment must not exceed the width. -/
def access (a : Access) : Reader Access := do
  let align ← u32
  let offset ← u32
  if align < 32 ∧ 1 <<< align ≤ a.width then return { a with offset := offset }
  else throw (.invalid "alignment must not be larger than natural")

/-- One item of a body. -/
def item (types : List FuncType) : Reader Code.Item := do
  let opcode ← byte
  match opcode with
  | 0x02 => return .block (← blockType types)
  | 0x03 => return .loop (← blockType types)
  | 0x04 => return .cond (← blockType types)
  | 0x05 => return .otherwise
  | 0x0B => return .finish
  | 0x0C => return .plain (.br (← u32))
  | 0x0D => return .plain (.brIf (← u32))
  | 0x0E =>
    let depths ← vec u32
    return .plain (.brTable depths (← u32))
  | 0x10 => return .plain (.call (← u32))
  | 0x20 => return .plain (.localGet (← u32))
  | 0x21 => return .plain (.localSet (← u32))
  | 0x22 => return .plain (.localTee (← u32))
  | 0x23 => return .plain (.globalGet (← u32))
  | 0x24 => return .plain (.globalSet (← u32))
  | 0x3F =>
    if (← byte) = 0 then return .plain .memorySize else fail "zero byte expected"
  | 0x40 =>
    if (← byte) = 0 then return .plain .memoryGrow else fail "zero byte expected"
  | 0x41 => return .plain (.const (.ofBits .i32 (← s32)))
  | 0x42 => return .plain (.const (.ofBits .i64 (← s64)))
  | 0x43 => return .plain (.const (.ofBits .f32 (ofLittleEndian (← take 4))))
  | 0x44 => return .plain (.const (.ofBits .f64 (ofLittleEndian (← take 8))))
  | _ =>
    match Mnemonic.ofOpcode? Mnemonic.plain opcode.toNat with
    | some i => return .plain i
    | none =>
      match Mnemonic.ofOpcode? Mnemonic.loads opcode.toNat with
      | some a => return .plain (.load (← access a))
      | none =>
        match Mnemonic.ofOpcode? Mnemonic.stores opcode.toNat with
        | some a => return .plain (.store (← access a))
        | none => fail "illegal opcode"

/-- Items up to the end of the outermost block; `depth` blocks are open. -/
def itemsFrom (types : List FuncType) (depth : Nat) : (room : Nat) → Reader (List Code.Item)
  | 0 => fail "unexpected end"
  | room + 1 => do
    let i ← item types
    match i, depth with
    | .finish, 0 => return [i]
    | .finish, depth + 1 => return i :: (← itemsFrom types depth room)
    | .block _, _ | .loop _, _ | .cond _, _ =>
      return i :: (← itemsFrom types (depth + 1) room)
    | _, _ => return i :: (← itemsFrom types depth room)

/-- The instructions up to an end. -/
def expression (types : List FuncType) : Reader (List Instr) := do
  let items ← itemsFrom types 0 ((← get).length + 1)
  match Code.nest items with
  | .ok body => return body
  | .error fault => throw fault

/-- Reads all of some bytes. -/
def whole {α : Type} (reader : Reader α) (bs : Bytes) : Reader α :=
  match reader bs with
  | .ok (a, []) => return a
  | .ok (_, _ :: _) => fail "size mismatch"
  | .error fault => throw fault

/-- Reads from so many bytes as a number says. -/
def sized {α : Type} (reader : Reader α) : Reader α := do
  whole reader (← take (← u32))

/-- An import. -/
def importEntry (types : List FuncType) : Reader Import := do
  let module ← name
  let field ← name
  match ← byte with
  | 0 => return ⟨module, field, .func (← typeAt types (← u32))⟩
  | 2 => return ⟨module, field, .memory (← limits)⟩
  | 3 => return ⟨module, field, .global (← globalType)⟩
  | _ => fail "unknown import kind"

/-- An export. -/
def exportEntry : Reader Export := do
  let name ← name
  match ← byte with
  | 0 => return ⟨name, .func (← u32)⟩
  | 2 => return ⟨name, .memory (← u32)⟩
  | 3 => return ⟨name, .global (← u32)⟩
  | _ => fail "unknown export kind"

/-- A global. -/
def globalEntry (types : List FuncType) : Reader Global := do
  let type ← globalType
  return ⟨type, ← expression types⟩

/-- Runs of locals of one type. -/
def localTypes : Reader (List NumType) := do
  let runs ← vec do
    let count ← u32
    return (count, ← numType)
  if runs.foldl (fun total run => total + run.1) 0 ≤ 50000 then
    return runs.flatMap fun (count, t) => List.replicate count t
  else fail "too many locals"

/-- The locals and the instructions of a function. -/
def body (types : List FuncType) : Reader (List NumType × List Instr) :=
  sized do
    let locals ← localTypes
    return (locals, ← expression types)

/-- A segment of bytes. -/
def segment (types : List FuncType) : Reader Segment := do
  match ← u32 with
  | 0 =>
    let address ← expression types
    return ⟨some address, ← take (← u32)⟩
  | 1 => return ⟨none, ← take (← u32)⟩
  | 2 =>
    if (← u32) ≠ 0 then throw (.invalid "unknown memory")
    else
      let address ← expression types
      return ⟨some address, ← take (← u32)⟩
  | _ => fail "unknown segment"

/-- What the sections read so far hold. -/
structure Contents where
  types : List FuncType
  declared : List FuncType
  bodies : List (List NumType × List Instr)
  segmentCount : Option Nat
  module : Module

/-- The place of a section in the order of sections; the count of segments stands before the
bodies. -/
def sectionRank (id : Nat) : Nat :=
  if id = 12 then 19 else 2 * id

/-- The contents with one more section. -/
def readSection (c : Contents) (id : Nat) : Reader Contents := do
  match id with
  | 1 => return { c with types := ← vec funcType }
  | 2 => return { c with module := { c.module with imports := ← vec (importEntry c.types) } }
  | 3 => return { c with declared := ← vec do typeAt c.types (← u32) }
  | 5 => return { c with module := { c.module with memories := ← vec limits } }
  | 6 => return { c with module := { c.module with globals := ← vec (globalEntry c.types) } }
  | 7 => return { c with module := { c.module with exports := ← vec exportEntry } }
  | 8 => return { c with module := { c.module with start := some (← u32) } }
  | 10 => return { c with bodies := ← vec (body c.types) }
  | 11 => return { c with module := { c.module with segments := ← vec (segment c.types) } }
  | 12 => return { c with segmentCount := some (← u32) }
  | 4 | 9 =>
    if (← u32) = 0 then return c else fail "tables are not supported"
  | _ => fail "malformed section id"

/-- Sections whose rank is above that of the last one. -/
def sections (c : Contents) (rank : Nat) : (room : Nat) → Reader Contents
  | 0 => return c
  | room + 1 => do
    if (← get).isEmpty then return c
    else
      let id := (← byte).toNat
      if id = 0 then
        let _ ← sized do
          let _ ← name
          set ([] : Bytes)
        sections c rank room
      else if sectionRank id ≤ rank then fail "unexpected section"
      else
        let c ← sized (readSection c id)
        sections c (sectionRank id) room

/-- The bytes at the start of every module in binary form. -/
def magic : Bytes := [0x00, 0x61, 0x73, 0x6D]

/-- The version of the format. -/
def version : Bytes := [0x01, 0x00, 0x00, 0x00]

/-- A whole module. -/
def module : Reader Module := do
  if (← take 4) ≠ magic then fail "magic header not detected"
  else if (← take 4) ≠ version then fail "unknown binary version"
  else
    let c ← sections ⟨[], [], [], none, .empty⟩ 0 ((← get).length)
    if c.declared.length ≠ c.bodies.length then
      fail "function and code section have inconsistent lengths"
    else if c.segmentCount.any (· ≠ c.module.segments.length) then
      fail "data count and data section have inconsistent lengths"
    else
      let funcs := (c.declared.zip c.bodies).map fun (type, locals, body) =>
        (⟨type, locals, body⟩ : Func)
      return { c.module with funcs := funcs }

/-- The module in binary form. -/
def decode (bs : Bytes) : Except ModuleFault Module :=
  (module.run bs).map (·.1)

end JigLedger.Wasm.Binary
