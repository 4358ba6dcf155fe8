/-!
# Faults of the binary format

Why bytes are not the encoding of a value, and why a value has no encoding.
-/

namespace JigLedger.Wire

/-- The longest sequence the format admits. -/
def maxLength : Nat := 1 <<< 31 - 1

/-- Why reading or writing failed. -/
inductive Fault where
  /-- The bytes end inside a value. -/
  | endOfInput
  /-- Bytes are left over after the value. -/
  | remainingInput
  /-- A truth value is neither 0 nor 1. -/
  | notBool
  /-- The tag of an optional value is neither 0 nor 1. -/
  | notOption
  /-- A text is not UTF-8. -/
  | notUtf8
  /-- The keys of a map do not increase. -/
  | keyOrder
  /-- A length or tag has superfluous digits. -/
  | notMinimal
  /-- A length or tag does not fit into 32 bits. -/
  | tooWide
  /-- A sequence is longer than the format admits. -/
  | tooLong (length : Nat)
  /-- A tag names none of the `count` alternatives. -/
  | unknownVariant (tag count : Nat)
  /-- The value does not have the shape of its type. -/
  | shape (message : String)
deriving DecidableEq, Repr

/-- The wording of a fault. -/
def Fault.message : Fault → String
  | endOfInput => "unexpected end of input"
  | remainingInput => "remaining input"
  | notBool => "expected boolean"
  | notOption => "expected option type"
  | notUtf8 => "malformed utf8"
  | keyOrder => "keys of serialized maps must be unique and in increasing order"
  | notMinimal => "ULEB128 encoding was not minimal in size"
  | tooWide => "ULEB128-encoded integer did not fit in the target size"
  | tooLong n => s!"exceeded max sequence length: {n}"
  | unknownVariant tag count =>
    s!"invalid value: integer `{tag}`, expected variant index 0 <= i < {count}"
  | shape message => message

end JigLedger.Wire
