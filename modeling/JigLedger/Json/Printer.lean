import JigLedger.Json.Basic
import JigLedger.Text.Hex

/-!
# Writing JSON

The compact form: no blanks, members in their order, and only quotes, backslashes and control
characters escaped.
-/

namespace JigLedger.Json

/-- A character inside a string. -/
def escape (c : Char) : List Char :=
  if c = '"' then ['\\', '"']
  else if c = '\\' then ['\\', '\\']
  else if c = '\x08' then ['\\', 'b']
  else if c = '\t' then ['\\', 't']
  else if c = '\n' then ['\\', 'n']
  else if c = '\x0c' then ['\\', 'f']
  else if c = '\r' then ['\\', 'r']
  else if c.toNat < 32 then
    ['\\', 'u', '0', '0', Hex.digit (c.toNat / 16), Hex.digit (c.toNat % 16)]
  else [c]

/-- A text between quotes. -/
def quoted (s : String) : List Char := '"' :: s.toList.flatMap escape ++ ['"']

/-- The digits of a number, filled up with zeros to the given width. -/
def paddedDigits (width n : Nat) : List Char :=
  let digits := Nat.toDigits 10 n
  List.replicate (width - digits.length) '0' ++ digits

/-- A number as it is written. -/
def Number.chars (n : Number) : List Char :=
  (if n.negative then ['-'] else []) ++ Nat.toDigits 10 n.whole ++
    (match n.fraction with
      | none => []
      | some (places, tail) => '.' :: paddedDigits places tail) ++
    (match n.exponent with
      | none => []
      | some e => 'e' :: (if e < 0 then ['-'] else []) ++ Nat.toDigits 10 e.natAbs)

mutual

/-- The characters of a value. -/
def chars : Json → List Char
  | .null => ['n', 'u', 'l', 'l']
  | .bool true => ['t', 'r', 'u', 'e']
  | .bool false => ['f', 'a', 'l', 's', 'e']
  | .number n => n.chars
  | .string s => quoted (s.getD "")
  | .array items => '[' :: itemChars items ++ [']']
  | .object members => '\x7b' :: memberChars members ++ ['\x7d']

/-- The characters of the items of an array. -/
def itemChars : List Json → List Char
  | [] => []
  | [j] => chars j
  | j :: rest => chars j ++ ',' :: itemChars rest

/-- The characters of the members of an object. -/
def memberChars : List (Option String × Json) → List Char
  | [] => []
  | [(name, j)] => quoted (name.getD "") ++ ':' :: chars j
  | (name, j) :: rest => quoted (name.getD "") ++ ':' :: chars j ++ ',' :: memberChars rest

end

/-- The text of a value. -/
def render (j : Json) : String := String.ofList j.chars

end JigLedger.Json
