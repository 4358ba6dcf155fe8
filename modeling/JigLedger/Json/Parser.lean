import JigLedger.Json.Basic
import JigLedger.Text.Hex

/-!
# Reading JSON

The text is cut into tokens, and the tokens are read by recursive descent. A text is one value
with blanks around it and between tokens; nothing else is accepted, and nothing is said about why.
-/

namespace JigLedger.Json

/-- The pieces of a JSON text. -/
inductive Token where
  | openBrace
  | closeBrace
  | openBracket
  | closeBracket
  | colon
  | comma
  | null
  | bool (b : Bool)
  | number (n : Number)
  | string (s : Option String)
deriving DecidableEq, Repr

/-- A piece of a string: a character, or a code unit given by its number. -/
inductive Piece where
  | char (c : Char)
  | unit (n : Nat)
deriving DecidableEq, Repr

/-- The value of a hexadecimal digit. -/
def hexValue? (c : Char) : Option Nat :=
  if c.toNat < 128 then Hex.digitValue? (UInt8.ofNat c.toNat) else none

/-- The code unit that four hexadecimal digits show. -/
def unit? (a b c d : Char) : Option Nat := do
  return 4096 * (← hexValue? a) + 256 * (← hexValue? b) + 16 * (← hexValue? c) + (← hexValue? d)

/-- The character of a simple escape. -/
def simpleEscape? (c : Char) : Option Char :=
  if c = '"' || c = '\\' || c = '/' then some c
  else if c = 'b' then some '\x08'
  else if c = 'f' then some '\x0c'
  else if c = 'n' then some '\n'
  else if c = 'r' then some '\r'
  else if c = 't' then some '\t'
  else none

/-- The pieces of a string up to its closing quote, and what follows the quote. -/
def lexString : List Char → Option (List Piece × List Char)
  | [] => none
  | '"' :: rest => some ([], rest)
  | '\\' :: 'u' :: a :: b :: c :: d :: rest => do
    let n ← unit? a b c d
    let (pieces, rest) ← lexString rest
    return (.unit n :: pieces, rest)
  | '\\' :: c :: rest => do
    let e ← simpleEscape? c
    let (pieces, rest) ← lexString rest
    return (.char e :: pieces, rest)
  | c :: rest =>
    if c.toNat < 32 then none
    else do
      let (pieces, rest) ← lexString rest
      return (.char c :: pieces, rest)

/-- The characters of the pieces of a string; two code units may together make one character. -/
def joinPieces : List Piece → Option (List Char)
  | [] => some []
  | .char c :: rest => do return c :: (← joinPieces rest)
  | .unit n :: rest =>
    if 0xD800 ≤ n ∧ n ≤ 0xDBFF then
      match rest with
      | .unit m :: rest =>
        if 0xDC00 ≤ m ∧ m ≤ 0xDFFF then do
          return Char.ofNat (0x10000 + 1024 * (n - 0xD800) + (m - 0xDC00)) :: (← joinPieces rest)
        else none
      | _ => none
    else if 0xDC00 ≤ n ∧ n ≤ 0xDFFF then none
    else do return Char.ofNat n :: (← joinPieces rest)

/-- The number that decimal digits show. -/
def digitsValue (cs : List Char) : Nat := cs.foldl (fun n c => 10 * n + (c.toNat - 48)) 0

/-- The digits at the front and what follows them. -/
def spanDigits (cs : List Char) : List Char × List Char := cs.span Char.isDigit

/-- The digits after a point, when there is a point. -/
def lexFraction : List Char → Option (Option (Nat × Nat) × List Char)
  | '.' :: cs =>
    match spanDigits cs with
    | ([], _) => none
    | (digits, rest) => some (some (digits.length, digitsValue digits), rest)
  | cs => some (none, cs)

/-- The sign of an exponent. -/
def lexSign : List Char → Bool × List Char
  | '-' :: cs => (true, cs)
  | '+' :: cs => (false, cs)
  | cs => (false, cs)

/-- The exponent, when there is one. -/
def lexExponent : List Char → Option (Option Int × List Char)
  | c :: cs =>
    if c = 'e' || c = 'E' then
      let (negative, cs) := lexSign cs
      match spanDigits cs with
      | ([], _) => none
      | (digits, rest) =>
        let n : Int := digitsValue digits
        some (some (if negative then -n else n), rest)
    else some (none, c :: cs)
  | [] => some (none, [])

/-- The digits before the point: a zero alone, or digits that begin with another one. -/
def lexWhole : List Char → Option (Nat × List Char)
  | '0' :: cs => some (0, cs)
  | cs =>
    match spanDigits cs with
    | ([], _) => none
    | (digits, rest) => some (digitsValue digits, rest)

/-- A number, after its sign. -/
def lexNumber (negative : Bool) (cs : List Char) : Option (Number × List Char) := do
  let (whole, cs) ← lexWhole cs
  let (fraction, cs) ← lexFraction cs
  let (exponent, cs) ← lexExponent cs
  return (⟨negative, whole, fraction, exponent⟩, cs)

/-- The token at the front of a text that does not begin with a blank. -/
def lexToken : List Char → Option (Token × List Char)
  | [] => none
  | '\x7b' :: cs => some (.openBrace, cs)
  | '\x7d' :: cs => some (.closeBrace, cs)
  | '[' :: cs => some (.openBracket, cs)
  | ']' :: cs => some (.closeBracket, cs)
  | ':' :: cs => some (.colon, cs)
  | ',' :: cs => some (.comma, cs)
  | 'n' :: 'u' :: 'l' :: 'l' :: cs => some (.null, cs)
  | 't' :: 'r' :: 'u' :: 'e' :: cs => some (.bool true, cs)
  | 'f' :: 'a' :: 'l' :: 's' :: 'e' :: cs => some (.bool false, cs)
  | '"' :: cs => do
    let (pieces, rest) ← lexString cs
    return (.string ((joinPieces pieces).map String.ofList), rest)
  | '-' :: cs => do
    let (n, rest) ← lexNumber true cs
    return (.number n, rest)
  | cs => do
    let (n, rest) ← lexNumber false cs
    return (.number n, rest)

/-- The blanks of JSON. -/
def isBlank (c : Char) : Bool := c = ' ' || c = '\t' || c = '\n' || c = '\r'

/-- The tokens of a text; `fuel` bounds the number of its characters. -/
def lex : (fuel : Nat) → List Char → Option (List Token)
  | _, [] => some []
  | 0, _ :: _ => none
  | fuel + 1, c :: cs =>
    if isBlank c then lex fuel cs
    else do
      let (t, rest) ← lexToken (c :: cs)
      return t :: (← lex fuel rest)

mutual

/-- The value at the front of the tokens; `fuel` bounds twice the number of tokens. -/
def parseValue : (fuel : Nat) → List Token → Option (Json × List Token)
  | 0, _ => none
  | fuel + 1, ts =>
    match ts with
    | .null :: rest => some (.null, rest)
    | .bool b :: rest => some (.bool b, rest)
    | .number n :: rest => some (.number n, rest)
    | .string s :: rest => some (.string s, rest)
    | .openBracket :: .closeBracket :: rest => some (.array [], rest)
    | .openBracket :: rest => do
      let (items, rest) ← parseItems fuel rest
      return (.array items, rest)
    | .openBrace :: .closeBrace :: rest => some (.object [], rest)
    | .openBrace :: rest => do
      let (members, rest) ← parseMembers fuel rest
      return (.object members, rest)
    | _ => none

/-- The items of an array, up to its closing bracket. -/
def parseItems : (fuel : Nat) → List Token → Option (List Json × List Token)
  | 0, _ => none
  | fuel + 1, ts => do
    let (j, rest) ← parseValue fuel ts
    match rest with
    | .comma :: rest => do
      let (items, rest) ← parseItems fuel rest
      return (j :: items, rest)
    | .closeBracket :: rest => return ([j], rest)
    | _ => none

/-- The members of an object, up to its closing brace. -/
def parseMembers : (fuel : Nat) → List Token → Option (List (Option String × Json) × List Token)
  | 0, _ => none
  | fuel + 1, ts =>
    match ts with
    | .string name :: .colon :: ts => do
      let (j, rest) ← parseValue fuel ts
      match rest with
      | .comma :: rest => do
        let (members, rest) ← parseMembers fuel rest
        return ((name, j) :: members, rest)
      | .closeBrace :: rest => return ([(name, j)], rest)
      | _ => none
    | _ => none

end

/-- The value that a text shows. -/
def parse (s : String) : Option Json := do
  let tokens ← lex s.toList.length s.toList
  match ← parseValue (2 * tokens.length) tokens with
  | (j, []) => some j
  | (_, _ :: _) => none

end JigLedger.Json
