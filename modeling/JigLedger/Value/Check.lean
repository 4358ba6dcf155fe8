import JigLedger.Value.Wire

/-!
# Checked values and their encodings

A value has the shape of a type when every part of it does and no map has two keys with the same
encoding. Only such values are encoded. The state of a jig is the row of its field values.
-/

namespace JigLedger

/-- Why a value does not go with a type, or bytes are not the encoding of one. -/
inductive ValueError where
  | mismatch (ty : Ty) (value : Value)
  | duplicateKey (key : Value) (ty : Ty)
  | fieldCount (name : String) (expected actual : Nat)
  | encode (ty : Ty) (fault : Wire.Fault)
  | decode (ty : Ty) (fault : Wire.Fault)
  | stateCount (expected actual : Nat)
  | encodeState (fault : Wire.Fault)
  | decodeState (fault : Wire.Fault)
deriving Repr

/-- The wording of a value error. -/
def ValueError.message : ValueError → String
  | mismatch t v => s!"expected {t.toText}, got {v.toText}"
  | duplicateKey key t => s!"duplicate key {key.toText} in {t.toText}"
  | fieldCount name expected actual => s!"{name} has {expected} fields, got {actual}"
  | encode t fault => s!"encode {t.toText}: {fault.message}"
  | decode t fault => s!"decode {t.toText}: {fault.message}"
  | stateCount expected actual => s!"state has {expected} fields, got {actual} values"
  | encodeState fault => s!"encode state: {fault.message}"
  | decodeState fault => s!"decode state: {fault.message}"

namespace Ty

/-- Checks the entries of a map: each key, each value, and that no key has the encoding of one
`seen` before. -/
def checkEntries (t k : Ty) (checkKey checkValue : Value → Except ValueError Unit) :
    (seen : List Bytes) → List (Value × Value) → Except ValueError Unit
  | _, [] => .ok ()
  | seen, (key, value) :: rest => do
    checkKey key
    checkValue value
    match k.write key with
    | .error fault => .error (.encode k fault)
    | .ok encoded =>
      if encoded ∈ seen then .error (.duplicateKey key t)
      else checkEntries t k checkKey checkValue (encoded :: seen) rest

mutual

/-- Fails unless a value has the shape of a type. Which jigs the value holds is not looked at. -/
def check : Ty → Value → Except ValueError Unit
  | bool, .bool _ => .ok ()
  | u8, .u8 _ => .ok ()
  | u16, .u16 _ => .ok ()
  | u32, .u32 _ => .ok ()
  | u64, .u64 _ => .ok ()
  | i8, .i8 _ => .ok ()
  | i16, .i16 _ => .ok ()
  | i32, .i32 _ => .ok ()
  | i64, .i64 _ => .ok ()
  | string, .string _ => .ok ()
  | bytes, .bytes _ => .ok ()
  | jig _, .jig _ => .ok ()
  | nullable _, .null => .ok ()
  | nullable t, v => t.check v
  | array t, .array items => items.forM t.check
  | map k v, .map entries => checkEntries (.map k v) k k.check v.check [] entries
  | object name fields _, .object values =>
    if fields.length = values.length then checkFields fields values
    else .error (.fieldCount name fields.length values.length)
  | t, v => .error (.mismatch t v)

/-- Checks the values of fields. -/
def checkFields : List Field → List Value → Except ValueError Unit
  | f :: fields, v :: values => do
    f.ty.check v
    checkFields fields values
  | _, _ => .ok ()

end

/-- The encoding of a value that has the shape of a type. -/
def encode (t : Ty) (v : Value) : Except ValueError Bytes := do
  t.check v
  (t.write v).mapError (.encode t)

/-- The value of a type that the whole byte string encodes. -/
def decode (t : Ty) (bs : Bytes) : Except ValueError Value :=
  match t.read bs with
  | .ok (v, []) => .ok v
  | .ok (_, _ :: _) => .error (.decode t .remainingInput)
  | .error fault => .error (.decode t fault)

/-- Checks a row of values. -/
def checkRow : List Ty → List Value → Except ValueError Unit
  | t :: types, v :: values => do
    t.check v
    checkRow types values
  | _, _ => .ok ()

/-- The encoding of the state of a jig whose fields have the given types. -/
def encodeState (types : List Ty) (values : List Value) : Except ValueError Bytes := do
  if types.length ≠ values.length then .error (.stateCount types.length values.length)
  else
    checkRow types values
    (writeRow types values).mapError .encodeState

/-- The state of a jig whose fields have the given types. -/
def decodeState (types : List Ty) (bs : Bytes) : Except ValueError (List Value) :=
  match readRow types bs with
  | .ok (values, []) => .ok values
  | .ok (_, _ :: _) => .error (.decodeState .remainingInput)
  | .error fault => .error (.decodeState fault)

end Ty

end JigLedger
