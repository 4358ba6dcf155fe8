import JigLedger.Abi.Type

/-!
# Values

Values of the types of an ABI. A value means something only together with a type; whether it has
the shape of a type is checked in `Value.Check`.
-/

namespace JigLedger

/-- A value. -/
inductive Value where
  | bool (b : Bool)
  | u8 (n : UInt8)
  | u16 (n : UInt16)
  | u32 (n : UInt32)
  | u64 (n : UInt64)
  | i8 (n : Int8)
  | i16 (n : Int16)
  | i32 (n : Int32)
  | i64 (n : Int64)
  | string (s : String)
  | bytes (bs : Bytes)
  | array (items : List Value)
  | map (entries : List (Value × Value))
  /-- The absent value of a nullable type. -/
  | null
  /-- The fields in their order. -/
  | object (fields : List Value)
  /-- A jig, by its origin. -/
  | jig (origin : Pointer)
deriving Repr

namespace Value

instance : Inhabited Value := ⟨.null⟩

/-- The number of an unsigned value. -/
def asU64? : Value → Option UInt64
  | u64 n => some n
  | u32 n => some n.toUInt64
  | u16 n => some n.toUInt64
  | u8 n => some n.toUInt64
  | _ => none

/-- The text of a string value. -/
def asText? : Value → Option String
  | string s => some s
  | _ => none

/-- The origin of a jig value. -/
def asJig? : Value → Option Pointer
  | jig origin => some origin
  | _ => none

/-- The numbers of a byte string between brackets. -/
def bytesText (bs : Bytes) : String :=
  "[" ++ ", ".intercalate (bs.map fun b => toString b.toNat) ++ "]"

mutual

/-- A value as messages show it: the name of its kind and its contents. -/
def toText : Value → String
  | bool b => s!"Bool({b})"
  | u8 n => s!"U8({n.toNat})"
  | u16 n => s!"U16({n.toNat})"
  | u32 n => s!"U32({n.toNat})"
  | u64 n => s!"U64({n.toNat})"
  | i8 n => s!"I8({n.toInt})"
  | i16 n => s!"I16({n.toInt})"
  | i32 n => s!"I32({n.toInt})"
  | i64 n => s!"I64({n.toInt})"
  | string s => s!"String({Quoted.text s})"
  | bytes bs => s!"Bytes({bytesText bs})"
  | array items => "Array([" ++ ", ".intercalate (itemTexts items) ++ "])"
  | map entries => "Map([" ++ ", ".intercalate (entryTexts entries) ++ "])"
  | null => "Null"
  | object fields => "Object([" ++ ", ".intercalate (itemTexts fields) ++ "])"
  | jig p => s!"Jig(Pointer \x7b id: {bytesText p.id.bytes}, idx: {p.idx.toNat} \x7d)"

/-- The texts of several values. -/
def itemTexts : List Value → List String
  | [] => []
  | v :: rest => v.toText :: itemTexts rest

/-- The texts of the entries of a map. -/
def entryTexts : List (Value × Value) → List String
  | [] => []
  | e :: rest => s!"({e.1.toText}, {e.2.toText})" :: entryTexts rest

end

end Value

namespace Ty

mutual

/-- The value of a type that is zero, empty or null. A slot for a jig has none; the error is the
type of such a slot. -/
def zero : Ty → Except Ty Value
  | bool => .ok (.bool false)
  | u8 => .ok (.u8 0)
  | u16 => .ok (.u16 0)
  | u32 => .ok (.u32 0)
  | u64 => .ok (.u64 0)
  | i8 => .ok (.i8 0)
  | i16 => .ok (.i16 0)
  | i32 => .ok (.i32 0)
  | i64 => .ok (.i64 0)
  | string => .ok (.string "")
  | bytes => .ok (.bytes [])
  | array _ => .ok (.array [])
  | map _ _ => .ok (.map [])
  | nullable _ => .ok .null
  | object _ fields _ => do return .object (← zeroFields fields)
  | jig demand => .error (.jig demand)

/-- The zero values of fields. -/
def zeroFields : List Field → Except Ty (List Value)
  | [] => .ok []
  | f :: rest => do return (← f.ty.zero) :: (← zeroFields rest)

end

/-- The message for a type without a zero value. -/
def noZeroMessage (t : Ty) : String := s!"{t.toText} has no default value"

mutual

/-- The jigs in a value, each with what its slot demands. -/
def jigsIn : Ty → Value → List (Pointer × JigTy)
  | jig demand, .jig origin => [(origin, demand)]
  | nullable t, v => t.jigsIn v
  | array t, .array items => items.flatMap t.jigsIn
  | map k v, .map entries => entries.flatMap fun e => k.jigsIn e.1 ++ v.jigsIn e.2
  | object _ fields _, .object values => jigsInFields fields values
  | _, _ => []

/-- The jigs in the values of fields. -/
def jigsInFields : List Field → List Value → List (Pointer × JigTy)
  | f :: fields, v :: values => f.ty.jigsIn v ++ jigsInFields fields values
  | _, _ => []

end

end Ty

end JigLedger
