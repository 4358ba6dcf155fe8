import JigLedger.Text.Utf8

/-!
# Base64 text

The standard alphabet with padding. Reading is strict: padding has to complete the last group of
four and the unused bits of the last symbol have to be zero.
-/

namespace JigLedger.Base64

/-- The symbol of a value below 64. -/
def symbol (n : Nat) : Char :=
  if n < 26 then Char.ofNat (65 + n)
  else if n < 52 then Char.ofNat (71 + n)
  else if n < 62 then Char.ofNat (n - 4)
  else if n = 62 then '+'
  else '/'

/-- The value of a symbol, given as an ASCII code. -/
def symbolValue? (b : UInt8) : Option Nat :=
  if 65 ≤ b ∧ b ≤ 90 then some (b.toNat - 65)
  else if 97 ≤ b ∧ b ≤ 122 then some (b.toNat - 71)
  else if 48 ≤ b ∧ b ≤ 57 then some (b.toNat + 4)
  else if b = 43 then some 62
  else if b = 47 then some 63
  else none

/-- The symbols of a byte string: four for each three bytes, padded at the end. -/
def symbols : Bytes → List Char
  | [] => []
  | [a] =>
    let n := a.toNat
    [symbol (n / 4), symbol (n % 4 * 16), '=', '=']
  | [a, b] =>
    let n := 256 * a.toNat + b.toNat
    [symbol (n / 1024), symbol (n / 16 % 64), symbol (n % 16 * 4), '=']
  | a :: b :: c :: rest =>
    let n := 65536 * a.toNat + 256 * b.toNat + c.toNat
    symbol (n / 262144) :: symbol (n / 4096 % 64) :: symbol (n / 64 % 64) :: symbol (n % 64) ::
      symbols rest

/-- The base64 text of a byte string. -/
def encode (bs : Bytes) : String := String.ofList (symbols bs)

/-- Why a text is not base64. -/
inductive Fault where
  /-- A symbol outside the alphabet, or padding out of place. -/
  | badSymbol (byte : UInt8) (offset : Nat)
  /-- The last group has only one symbol. -/
  | badLength (length : Nat)
  /-- The last symbol has bits beyond the last byte. -/
  | badLastSymbol (byte : UInt8) (offset : Nat)
  /-- The last group is not filled up. -/
  | badPadding
deriving DecidableEq, Repr

/-- The wording of a fault. -/
def Fault.message : Fault → String
  | badSymbol b offset => s!"Invalid symbol {b.toNat}, offset {offset}."
  | badLength n => s!"Invalid input length: {n}"
  | badLastSymbol b offset => s!"Invalid last symbol {b.toNat}, offset {offset}."
  | badPadding => "Invalid padding"

/-- The code of the padding character. -/
def padding : UInt8 := 61

/-- The value of the symbol at `offset`. -/
def valueAt (offset : Nat) (b : UInt8) : Except Fault Nat :=
  match symbolValue? b with
  | some v => .ok v
  | none => .error (.badSymbol b offset)

/-- The symbols of the last group, from its place `k` on: their values and the number of padding
characters after them. `first` is the place of the first padding character, `pads` their number. -/
def lastGroup (start : Nat) : (k first pads : Nat) → Bytes → Except Fault (List Nat × Nat)
  | _, _, pads, [] => .ok ([], pads)
  | k, first, pads, b :: rest =>
    if b = padding then
      if k < 2 then .error (.badSymbol b (start + k))
      else lastGroup start (k + 1) (if pads = 0 then k else first) (pads + 1) rest
    else if pads > 0 then .error (.badSymbol padding (start + first))
    else do
      let v ← valueAt (start + k) b
      let (vs, pads) ← lastGroup start (k + 1) first pads rest
      return (v :: vs, pads)

/-- The bytes of the last group, which begins at `start` and has at most four characters. -/
def decodeLast (start : Nat) (text : Bytes) : Except Fault Bytes := do
  let (values, pads) ← lastGroup start 0 0 0 text
  if values.length < 2 then .error (.badLength (start + values.length))
  else if (values.length + pads) % 4 ≠ 0 then .error .badPadding
  else
    let bits := values.foldl (fun n v => 64 * n + v) 0
    let excess := 1 <<< (6 * values.length % 8)
    if bits % excess ≠ 0 then
      let k := values.length - 1
      .error (.badLastSymbol (text.getD k 0) (start + k))
    else .ok (bigEndian (6 * values.length / 8) (bits / excess))

/-- The bytes of a text that begins at `start`: full groups up to the last one, then that one. -/
def decodeFrom (start : Nat) : Bytes → Except Fault Bytes
  | a :: b :: c :: d :: e :: rest => do
    let w ← valueAt start a
    let x ← valueAt (start + 1) b
    let y ← valueAt (start + 2) c
    let z ← valueAt (start + 3) d
    let bytes ← decodeFrom (start + 4) (e :: rest)
    return bigEndian 3 (262144 * w + 4096 * x + 64 * y + z) ++ bytes
  | text => decodeLast start text

/-- A single character left over after the full groups, which is neither padding nor a symbol, is
reported before anything else: such a text most often ends in a line break. -/
def strayEnd? (text : Bytes) : Option Fault :=
  if text.length % 4 = 1 then
    match text.getLast? with
    | some b =>
      if b ≠ padding ∧ symbolValue? b = none then some (.badSymbol b (text.length - 1)) else none
    | none => none
  else none

/-- The bytes that a base64 text shows. -/
def decode (text : Bytes) : Except Fault Bytes :=
  match strayEnd? text with
  | some fault => .error fault
  | none => if text.isEmpty then .ok [] else decodeFrom 0 text

end JigLedger.Base64
