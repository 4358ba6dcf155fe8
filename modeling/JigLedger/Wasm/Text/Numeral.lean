import JigLedger.Wasm.Text.Tree

/-!
# Numbers in the text format

Whole numbers are decimal, or hexadecimal after `0x`; single underscores may stand between digits.
-/

namespace JigLedger.Wasm.Text.Numeral

/-- Continues a number whose value so far is given; `gap` when a digit has to follow. -/
def digits? (base : Nat) : (value : Nat) → (gap : Bool) → List Char → Option Nat
  | value, gap, [] => if gap then none else some value
  | value, gap, '_' :: rest => if gap then none else digits? base value true rest
  | value, _, c :: rest => do
    let d ← hexValue? c
    if d < base then digits? base (base * value + d) false rest else none

/-- A number without a sign. -/
def natural? : List Char → Option Nat
  | '0' :: 'x' :: rest => digits? 16 0 true rest
  | cs => digits? 10 0 true cs

/-- A number of so many bits, with or without a sign, as its bits. -/
def integer? (bits : Nat) : List Char → Option Nat
  | '-' :: rest => do
    let n ← natural? rest
    if n ≤ 1 <<< (bits - 1) then some ((1 <<< bits - n) % (1 <<< bits)) else none
  | '+' :: rest => do
    let n ← natural? rest
    if n < 1 <<< bits then some n else none
  | cs => do
    let n ← natural? cs
    if n < 1 <<< bits then some n else none

/-- A number below `2 ^ 32`. -/
def u32? (w : String) : Option Nat := do
  let n ← natural? w.toList
  if n < UInt32.size then some n else none

end JigLedger.Wasm.Text.Numeral
