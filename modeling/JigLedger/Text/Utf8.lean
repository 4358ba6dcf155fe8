import JigLedger.Bytes

/-!
# UTF-8

`utf8` gives the bytes of a text and `Utf8.decode` reads them back; on bytes that are no UTF-8
it says where the first fault stands and how many bytes it spans.
-/

namespace JigLedger

/-- The UTF-8 bytes of a text. -/
def utf8 (s : String) : Bytes := s.toByteArray.data.toList

namespace Utf8

/-- Why bytes are no UTF-8. -/
inductive Fault where
  /-- The `size` bytes from `start` on begin no character. -/
  | malformed (size start : Nat)
  /-- The bytes end inside the character that begins at `start`. -/
  | incomplete (start : Nat)
deriving DecidableEq, Repr

/-- The wording of a fault. -/
def Fault.message : Fault → String
  | malformed size start => s!"invalid utf-8 sequence of {size} bytes from index {start}"
  | incomplete start => s!"incomplete utf-8 byte sequence from index {start}"

/-- How many bytes follow a leading byte above the ASCII range, and the least and greatest value
of the first of them. -/
def following (b : UInt8) : Option (Nat × UInt8 × UInt8) :=
  if 0xC2 ≤ b ∧ b ≤ 0xDF then some (1, 0x80, 0xBF)
  else if b = 0xE0 then some (2, 0xA0, 0xBF)
  else if b = 0xED then some (2, 0x80, 0x9F)
  else if 0xE1 ≤ b ∧ b ≤ 0xEF then some (2, 0x80, 0xBF)
  else if b = 0xF0 then some (3, 0x90, 0xBF)
  else if 0xF1 ≤ b ∧ b ≤ 0xF3 then some (3, 0x80, 0xBF)
  else if b = 0xF4 then some (3, 0x80, 0x8F)
  else none

/-- The first fault of the bytes that follow, when `seen` bytes of the character at `start` have
been read and `owed` are still due, the next of them between `lo` and `hi`. -/
def faultFrom (start seen owed : Nat) (lo hi : UInt8) : Bytes → Option Fault
  | [] => if owed = 0 then none else some (.incomplete start)
  | b :: rest =>
    if owed = 0 then
      if b < 0x80 then faultFrom (start + 1) 0 0 0x80 0xBF rest
      else match following b with
        | none => some (.malformed 1 start)
        | some (n, lo, hi) => faultFrom start 1 n lo hi rest
    else if lo ≤ b ∧ b ≤ hi then
      if owed = 1 then faultFrom (start + seen + 1) 0 0 0x80 0xBF rest
      else faultFrom start (seen + 1) (owed - 1) 0x80 0xBF rest
    else some (.malformed seen start)

/-- The first place where bytes stop being UTF-8. -/
def firstFault (bs : Bytes) : Option Fault := faultFrom 0 0 0 0x80 0xBF bs

/-- The text with the given UTF-8 bytes. -/
def decode? (bs : Bytes) : Option String := String.fromUTF8? ⟨bs.toArray⟩

/-- The text with the given UTF-8 bytes, or the first fault of bytes that have none. -/
def decode (bs : Bytes) : Except Fault String :=
  match decode? bs with
  | some s => .ok s
  | none => .error ((firstFault bs).getD (.incomplete bs.length))

@[simp] theorem decode?_utf8 (s : String) : decode? (utf8 s) = some s := by
  simp [decode?, utf8, String.fromUTF8?, String.fromUTF8, s.isValidUTF8]

theorem utf8_of_decode? {bs : Bytes} {s : String} (h : decode? bs = some s) : utf8 s = bs := by
  unfold decode? String.fromUTF8? at h
  split at h
  · cases h; simp [utf8, String.fromUTF8]
  · cases h

/-- Reading accepts exactly the bytes of a text. -/
theorem decode?_eq_some_iff {bs : Bytes} {s : String} : decode? bs = some s ↔ bs = utf8 s :=
  ⟨fun h => (utf8_of_decode? h).symm, fun h => h ▸ decode?_utf8 s⟩

@[simp] theorem decode_utf8 (s : String) : decode (utf8 s) = .ok s := by
  simp [decode]

theorem decode_eq_ok_iff {bs : Bytes} {s : String} : decode bs = .ok s ↔ bs = utf8 s := by
  rw [← decode?_eq_some_iff]
  unfold decode
  split <;> simp_all

theorem utf8_injective {s t : String} (h : utf8 s = utf8 t) : s = t := by
  have := decode?_utf8 s
  rw [h, decode?_utf8] at this
  exact (Option.some.inj this).symm

end Utf8

end JigLedger
