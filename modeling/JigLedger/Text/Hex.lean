import JigLedger.Text.Utf8
import JigLedger.Text.Blank

/-!
# Hexadecimal text

Two digits a byte, written in lower case and read in either case. `Hex.strip` takes off the
surrounding blanks and one leading `0x` that people write around a hexadecimal number.
-/

namespace JigLedger.Hex

/-- The digit of a value below sixteen. -/
def digit (n : Nat) : Char :=
  if n < 10 then Char.ofNat (48 + n) else Char.ofNat (87 + n)

/-- The value of a digit, in either case, given as an ASCII code. -/
def digitValue? (b : UInt8) : Option Nat :=
  if 48 ≤ b ∧ b ≤ 57 then some (b.toNat - 48)
  else if 97 ≤ b ∧ b ≤ 102 then some (b.toNat - 87)
  else if 65 ≤ b ∧ b ≤ 70 then some (b.toNat - 55)
  else none

/-- The digits of a byte string. -/
def digits (bs : Bytes) : List Char :=
  bs.flatMap fun b => [digit (b.toNat / 16), digit (b.toNat % 16)]

/-- Lower-case text, two digits a byte. -/
def encode (bs : Bytes) : String := String.ofList (digits bs)

/-- Why a text is not hexadecimal. -/
inductive Fault where
  /-- The number of digits is odd. -/
  | oddLength
  /-- The byte at `position` of the text is no digit. -/
  | notDigit (byte : UInt8) (position : Nat)
deriving DecidableEq, Repr

/-- The bytes whose digits are given, reading from `position` on. -/
def decodeFrom (position : Nat) : Bytes → Except Fault Bytes
  | [] => .ok []
  | [_] => .error .oddLength
  | a :: b :: rest => do
    let some hi := digitValue? a | .error (.notDigit a position)
    let some lo := digitValue? b | .error (.notDigit b (position + 1))
    let bytes ← decodeFrom (position + 2) rest
    return UInt8.ofNat (16 * hi + lo) :: bytes

/-- The bytes whose digits a text shows. An odd number of digits is reported before any byte that
is no digit; positions count UTF-8 bytes. -/
def decode (text : Bytes) : Except Fault Bytes :=
  if text.length % 2 = 1 then .error .oddLength else decodeFrom 0 text

/-- A text without surrounding blanks and without one leading `0x` or `0X`. -/
def strip (s : String) : String :=
  match Blank.trim s.toList with
  | '0' :: 'x' :: rest => String.ofList rest
  | '0' :: 'X' :: rest => String.ofList rest
  | cs => String.ofList cs

end JigLedger.Hex
