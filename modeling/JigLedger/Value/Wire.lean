import JigLedger.Lock.Record
import JigLedger.Value.Basic

/-!
# The binary form of values

Values are written and read as their type directs: nullable values with a tag, maps in increasing
order of their encoded keys, objects as their fields one after the other, jigs as the 36 bytes of
their origin.
-/

namespace JigLedger.Ty

open Wire

/-- The fault of a value that does not have the shape of a type. -/
def shapeFault (t : Ty) (v : Value) : Wire.Fault :=
  .shape s!"expected {t.toText}, got {v.toText}"

mutual

/-- The encoding of a value of a type. -/
def write : Ty → Value → Except Wire.Fault Bytes
  | bool, .bool b => Codec.bool.write b
  | u8, .u8 n => Codec.u8.write n
  | u16, .u16 n => Codec.u16.write n
  | u32, .u32 n => Codec.u32.write n
  | u64, .u64 n => Codec.u64.write n
  | i8, .i8 n => Codec.i8.write n
  | i16, .i16 n => Codec.i16.write n
  | i32, .i32 n => Codec.i32.write n
  | i64, .i64 n => Codec.i64.write n
  | string, .string s => Codec.text.write s
  | bytes, .bytes bs => Codec.bytes.write bs
  | array t, .array items => do
    return (← writeLength items.length) ++ (← writeMany t.write items)
  | map k v, .map entries => do
    let encoded ← entries.mapM fun e => do return (← k.write e.1, ← v.write e.2)
    writeEntries encoded
  | nullable _, .null => .ok [0]
  | nullable t, v => do return 1 :: (← t.write v)
  | object name fields size, .object values =>
    if fields.length = values.length then writeFields fields values
    else .error (shapeFault (.object name fields size) (.object values))
  | jig _, .jig origin => Codec.pointer.write origin
  | t, v => .error (shapeFault t v)

/-- The encodings of the values of fields, one after the other. -/
def writeFields : List Field → List Value → Except Wire.Fault Bytes
  | f :: fields, v :: values => do return (← f.ty.write v) ++ (← writeFields fields values)
  | _, _ => .ok []

end

mutual

/-- Reads a value of a type. -/
def read : Ty → Reader Value
  | bool => do return .bool (← Codec.bool.read)
  | u8 => do return .u8 (← Codec.u8.read)
  | u16 => do return .u16 (← Codec.u16.read)
  | u32 => do return .u32 (← Codec.u32.read)
  | u64 => do return .u64 (← Codec.u64.read)
  | i8 => do return .i8 (← Codec.i8.read)
  | i16 => do return .i16 (← Codec.i16.read)
  | i32 => do return .i32 (← Codec.i32.read)
  | i64 => do return .i64 (← Codec.i64.read)
  | string => do return .string (← Codec.text.read)
  | bytes => do return .bytes (← Codec.bytes.read)
  | array t => do return .array (← readMany t.read (← readLength))
  | map k v => do return .map (← readEntries k.read v.read (← readLength) none)
  | nullable t => do
    let tag ← readByte
    if tag == 0 then return .null
    else if tag == 1 then t.read
    else fail .notOption
  | object _ fields _ => do return .object (← readFields fields)
  | jig _ => do return .jig (← Codec.pointer.read)

/-- Reads the values of fields, one after the other. -/
def readFields : List Field → Reader (List Value)
  | [] => return []
  | f :: fields => do
    let v ← f.ty.read
    let values ← readFields fields
    return v :: values

end

/-- The encodings of a row of values, one after the other. -/
def writeRow : List Ty → List Value → Except Wire.Fault Bytes
  | t :: types, v :: values => do return (← t.write v) ++ (← writeRow types values)
  | _, _ => .ok []

/-- Reads a row of values. -/
def readRow : List Ty → Reader (List Value)
  | [] => return []
  | t :: types => do
    let v ← t.read
    let values ← readRow types
    return v :: values

end JigLedger.Ty
