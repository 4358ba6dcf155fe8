import JigLedger.Wasm.Text.Numeral

/-!
# Floating point constants in the text format

A constant is a decimal or hexadecimal fraction with an exponent, or `inf`, or `nan` with or without
a payload. A fraction is rounded to the nearest number of its format; of two that are equally near
the even one is taken. A fraction that is too large for the format is no constant.
-/

namespace JigLedger.Wasm.Text

/-- A binary floating point format. -/
structure Format where
  /-- The number of binary digits of a number. -/
  precision : Nat
  /-- The number of bits that hold the exponent. -/
  exponentBits : Nat
deriving DecidableEq, Repr

namespace Format

/-- Numbers of 32 bits. -/
def single : Format := ⟨24, 8⟩

/-- Numbers of 64 bits. -/
def double : Format := ⟨53, 11⟩

/-- The number of binary places of the least positive number. -/
def places (f : Format) : Nat := 1 <<< (f.exponentBits - 1) + f.precision - 3

/-- The bits of infinity. -/
def infinity (f : Format) : Nat := (1 <<< f.exponentBits - 1) <<< (f.precision - 1)

/-- The bit of the sign. -/
def signBit (f : Format) : Nat := 1 <<< (f.exponentBits + f.precision - 1)

/-- The whole number nearest to `n / d`; of two that are equally near the even one. -/
def roundDiv (n d : Nat) : Nat :=
  if 2 * (n % d) < d ∨ (2 * (n % d) = d ∧ n / d % 2 = 0) then n / d else n / d + 1

/-- The bits of the number nearest to `n / d`, at least those of infinity if there is none. The
fraction is taken as a multiple of the least positive number, and the binary digits beyond the
precision are rounded away. -/
def nearest (f : Format) (n d : Nat) : Nat :=
  let units := n <<< f.places
  let excess := (units / d).log2 + 1 - f.precision
  excess <<< (f.precision - 1) + roundDiv units (d <<< excess)

/-- The bits of the number nearest to `digits * base ^ scale`. Where the number of digits decides
that it is zero or infinity, the power is not computed. -/
def scaled (f : Format) (base digits : Nat) (scale : Int) : Nat :=
  let reach := scale + (Nat.toDigits base digits).length
  if digits = 0 ∨ reach < -2000 then 0
  else if reach > 2000 then f.infinity
  else if scale ≥ 0 then f.nearest (digits * Nat.pow base scale.toNat) 1
  else f.nearest digits (Nat.pow base (-scale).toNat)

/-- Takes digits with single underscores between them off the front: the number that they continue,
how many there are, and what follows. A digit has to come next if there is a `gap`. -/
def takeDigits (base : Nat) : (value count : Nat) → (gap : Bool) → List Char →
    Option (Nat × Nat × List Char)
  | value, count, gap, [] => if gap then none else some (value, count, [])
  | value, count, gap, c :: rest =>
    if c = '_' then if gap then none else takeDigits base value count true rest
    else
      match (hexValue? c).filter (· < base) with
      | some d => takeDigits base (base * value + d) (count + 1) false rest
      | none => if gap then none else some (value, count, c :: rest)

/-- Takes a point and the digits after it off the front, if there is a point; there may be no
digits. -/
def takePlaces (base value : Nat) : List Char → Option (Nat × Nat × List Char)
  | ['.'] => some (value, 0, [])
  | '.' :: c :: rest =>
    if (hexValue? c).any (· < base) then takeDigits base value 0 true (c :: rest)
    else some (value, 0, c :: rest)
  | cs => some (value, 0, cs)

/-- The exponent that a text consists of, after its mark; nothing stands for zero. -/
def exponent? (mark : Char) : List Char → Option Int
  | [] => some 0
  | c :: rest =>
    if c.toLower ≠ mark then none
    else
      match rest with
      | '-' :: cs => (Numeral.digits? 10 0 true cs).map fun n => -(n : Int)
      | '+' :: cs => (Numeral.digits? 10 0 true cs).map Int.ofNat
      | cs => (Numeral.digits? 10 0 true cs).map Int.ofNat

/-- The bits of a fraction in a base, whose exponent counts powers of `power`; a digit is worth
`worth` of those. -/
def fraction? (f : Format) (base power worth : Nat) (mark : Char) (cs : List Char) :
    Option Nat := do
  let (whole, _, cs) ← takeDigits base 0 0 true cs
  let (digits, count, cs) ← takePlaces base whole cs
  let exponent ← exponent? mark cs
  let bits := f.scaled power digits (exponent - (worth * count : Nat))
  if bits < f.infinity then some bits else none

/-- The bits of a constant without a sign. -/
def magnitude? (f : Format) : List Char → Option Nat
  | ['i', 'n', 'f'] => some f.infinity
  | ['n', 'a', 'n'] => some (f.infinity + 1 <<< (f.precision - 2))
  | 'n' :: 'a' :: 'n' :: ':' :: '0' :: 'x' :: payload => do
    let n ← Numeral.digits? 16 0 true payload
    if 0 < n ∧ n < 1 <<< (f.precision - 1) then some (f.infinity + n) else none
  | '0' :: 'x' :: cs => f.fraction? 16 2 4 'p' cs
  | cs => f.fraction? 10 10 1 'e' cs

/-- The bits of a constant. -/
def bits? (f : Format) : List Char → Option Nat
  | '-' :: cs => (f.magnitude? cs).map (f.signBit + ·)
  | '+' :: cs => f.magnitude? cs
  | cs => f.magnitude? cs

end Format

end JigLedger.Wasm.Text
