import JigLedger.Json.Basic

/-!
# Records in JSON

A record is written as an object whose member names are its field names, or as the array of its
fields in order. Members of other names are ignored, a field that occurs twice is an error, and so
is an array that is too long. Each reader gives `none` for a value it does not accept.
-/

namespace JigLedger.Json

/-- The values of the named fields, in the order of the names; `none` stands for a missing one. -/
def fields? (names : List String) : Json → Option (List (Option Json))
  | .object members =>
    if members.all (·.1.isSome) then names.mapM (member? members) else none
  | .array items =>
    if items.length ≤ names.length then
      some (items.map some ++ List.replicate (names.length - items.length) none)
    else none
  | _ => none

/-- A natural number below `bound`. -/
def natBelow? (bound : Nat) : Json → Option Nat
  | .number n => n.toNat?.filter (· < bound)
  | _ => none

/-- A text. -/
def text? : Json → Option String
  | .string s => s
  | _ => none

/-- A truth value. -/
def bool? : Json → Option Bool
  | .bool b => some b
  | _ => none

/-- A value or `null`. -/
def nullable? {α : Type} (read : Json → Option α) : Json → Option (Option α)
  | .null => some none
  | j => (read j).map some

/-- An array. -/
def items? {α : Type} (read : Json → Option α) : Json → Option (List α)
  | .array items => items.mapM read
  | _ => none

/-- The value of a field, or a default if the field is missing. -/
def orDefault {α : Type} (default : α) (read : Json → Option α) : Option Json → Option α
  | none => some default
  | some j => read j

end JigLedger.Json
