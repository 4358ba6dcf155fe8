/-!
# JSON values

A JSON value as its text gives it: the members of an object keep their order and may repeat, a
number keeps its parts, and a string may name characters that do not exist.
-/

namespace JigLedger

/-- A number as it is written. -/
structure Json.Number where
  negative : Bool
  /-- The digits before the point. -/
  whole : Nat
  /-- The digits after the point, when there is one: how many, and the number they show. -/
  fraction : Option (Nat × Nat)
  /-- The exponent, when there is one. -/
  exponent : Option Int
deriving DecidableEq, Repr

/-- A JSON value. -/
inductive Json where
  | null
  | bool (b : Bool)
  | number (n : Json.Number)
  /-- A string; `none` if it holds half of a surrogate pair. -/
  | string (s : Option String)
  | array (items : List Json)
  /-- An object; the name of a member is a string like any other. -/
  | object (members : List (Option String × Json))
deriving Repr

namespace Json

/-- A natural number. -/
def nat (n : Nat) : Json := .number ⟨false, n, none, none⟩

/-- A text. -/
def text (s : String) : Json := .string (some s)

/-- An object whose members have the given names. -/
def ofMembers (members : List (String × Json)) : Json :=
  .object (members.map fun m => (some m.1, m.2))

/-- The natural number that a number without sign, point and exponent shows. -/
def Number.toNat? (n : Number) : Option Nat :=
  if n.negative || n.fraction.isSome || n.exponent.isSome then none else some n.whole

/-- The number of decimal digits. -/
def digitCount (n : Nat) : Nat := (Nat.toDigits 10 n).length

/-- The least number that rounds to no finite binary64 number. -/
def beyondDouble : Nat := 1 <<< 1024 - 1 <<< 970

/-- A number whose size is within that of the finite binary64 numbers. -/
def Number.isFinite (n : Number) : Bool :=
  let (places, tail) := n.fraction.getD (0, 0)
  let digits := n.whole * Nat.pow 10 places + tail
  let scale := n.exponent.getD 0 - places
  if digits = 0 then true
  else if scale ≥ 0 then
    -- more than 310 digits are beyond the range whatever they are
    scale + digitCount digits ≤ 310 && digits * Nat.pow 10 scale.toNat < beyondDouble
  else if digitCount digits + scale < 300 then true
  else digits < beyondDouble * Nat.pow 10 (-scale).toNat

mutual

/-- A value that can be kept: every string is a text, every number is finite, and no more than
`depth` arrays and objects stand inside each other. -/
def isSound (depth : Nat) : Json → Bool
  | .null => true
  | .bool _ => true
  | .number n => n.isFinite
  | .string s => s.isSome
  | .array items => match depth with
    | 0 => false
    | d + 1 => areSound d items
  | .object members => match depth with
    | 0 => false
    | d + 1 => membersSound d members

/-- All values of a list can be kept. -/
def areSound (depth : Nat) : List Json → Bool
  | [] => true
  | j :: rest => j.isSound depth && areSound depth rest

/-- All values of an object's members can be kept. -/
def membersSound (depth : Nat) : List (Option String × Json) → Bool
  | [] => true
  | (name, j) :: rest => name.isSome && j.isSound depth && membersSound depth rest

end

/-- The value of the only member with the given name, `none` if there is none. A name that occurs
twice is an error. -/
def member? (members : List (Option String × Json)) (name : String) : Option (Option Json) :=
  match members.filter (·.1 = some name) with
  | [] => some none
  | [m] => some (some m.2)
  | _ => none

end Json

end JigLedger
