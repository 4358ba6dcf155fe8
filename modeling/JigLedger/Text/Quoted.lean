import JigLedger.Text.Hex
import JigLedger.Text.Printable

/-!
# Quoted text

Texts and characters between quotes, as messages show them: the usual escapes, and a code point in
hexadecimal for every other character that does not print as itself.
-/

namespace JigLedger.Quoted

/-- The hexadecimal digits of a number, without leading zeros. -/
def hexDigits (n : Nat) : List Char :=
  if n < 16 then [Hex.digit n] else hexDigits (n / 16) ++ [Hex.digit (n % 16)]

/-- A character inside quotes; `quote` is the quote that has to be escaped. -/
def escape (quote c : Char) : List Char :=
  if c = '\x00' then ['\\', '0']
  else if c = '\t' then ['\\', 't']
  else if c = '\n' then ['\\', 'n']
  else if c = '\r' then ['\\', 'r']
  else if c = '\\' then ['\\', '\\']
  else if c = quote then ['\\', quote]
  else if Printable.isPrintable c then [c]
  else ['\\', 'u', '\x7b'] ++ hexDigits c.toNat ++ ['\x7d']

/-- A text between double quotes. -/
def text (s : String) : String :=
  String.ofList (['"'] ++ s.toList.flatMap (escape '"') ++ ['"'])

/-- A character between single quotes. -/
def char (c : Char) : String :=
  String.ofList (['\''] ++ escape '\'' c ++ ['\''])

end JigLedger.Quoted
