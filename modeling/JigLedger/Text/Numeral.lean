/-!
# Decimal numerals

Reading an unsigned decimal numeral of bounded value. A leading `+` is allowed, a sign alone is
no numeral, and of two faults the one further to the left is reported.
-/

namespace JigLedger.Numeral

/-- Why a text is no numeral below the bound. -/
inductive Fault where
  | empty
  | notDigit
  | tooLarge
deriving DecidableEq, Repr

/-- The wording of a fault. -/
def Fault.message : Fault → String
  | empty => "cannot parse integer from empty string"
  | notDigit => "invalid digit found in string"
  | tooLarge => "number too large to fit in target type"

/-- The value of a decimal digit. -/
def digitValue? (c : Char) : Option Nat :=
  if '0' ≤ c ∧ c ≤ '9' then some (c.toNat - 48) else none

/-- Continues the number `n` with further digits, as long as it stays below `bound`. -/
def parseFrom (bound n : Nat) : List Char → Except Fault Nat
  | [] => .ok n
  | c :: cs =>
    match digitValue? c with
    | none => .error .notDigit
    | some d =>
      if 10 * n + d < bound then parseFrom bound (10 * n + d) cs else .error .tooLarge

/-- The number below `bound` that a text of decimal digits shows. -/
def parse (bound : Nat) : List Char → Except Fault Nat
  | [] => .error .empty
  | ['+'] => .error .notDigit
  | '+' :: cs => parseFrom bound 0 cs
  | cs => parseFrom bound 0 cs

end JigLedger.Numeral
