import JigLedger.Identifier
import JigLedger.Wire.Codec

/-!
# Stored locks

The form in which the lock of a jig is stored: the origin of the jig, a code for the kind of lock
and the data that the kind needs. An unknown code is kept as it is; it is refused when the lock is
rebuilt.
-/

namespace JigLedger

namespace Wire.Codec

/-- The encoding of a pointer is its 36 bytes. -/
def pointer : Codec Pointer :=
  ((block 32).pair u32).iso (fun p => ⟨p.1, p.2⟩) fun p => (p.id, p.idx)

end Wire.Codec

/-- The kinds of stored locks. -/
inductive LockKind where
  | unowned
  | address
  | jig
  | everyone
  | frozen
deriving DecidableEq, Repr

namespace LockKind

/-- The code of a kind. -/
def code : LockKind → UInt32
  | unowned => 0
  | address => 1
  | jig => 2
  | everyone => 3
  | frozen => 4

/-- The kind with a given code. -/
def ofCode? (code : UInt32) : Option LockKind :=
  if code = 0 then some unowned
  else if code = 1 then some address
  else if code = 2 then some jig
  else if code = 3 then some everyone
  else if code = 4 then some frozen
  else none

/-- The message for a code without a kind. -/
def unknownMessage (code : UInt32) : String := s!"unknown lock type {code.toNat}"

/-- The name of a kind. -/
def name : LockKind → String
  | unowned => "none"
  | address => "address"
  | jig => "jig"
  | everyone => "public"
  | frozen => "frozen"

@[simp] theorem ofCode?_code (k : LockKind) : ofCode? k.code = some k := by
  cases k <;> rfl

theorem ofCode?_eq_some_iff {c : UInt32} {k : LockKind} : ofCode? c = some k ↔ c = k.code := by
  constructor
  · intro h
    unfold ofCode? at h
    split at h
    · cases h; simpa [code]
    split at h
    · cases h; simpa [code]
    split at h
    · cases h; simpa [code]
    split at h
    · cases h; simpa [code]
    split at h
    · cases h; simpa [code]
    · cases h
  · rintro rfl; simp

end LockKind

/-- A stored lock. It repeats the origin of its jig, so that it can be checked on its own. -/
structure LockRecord where
  origin : Pointer
  kind : UInt32
  data : Bytes
deriving DecidableEq, Repr

namespace Wire.Codec

/-- Origin, code, data. -/
def lockRecord : Codec LockRecord :=
  (pointer.pair (u32.pair bytes)).iso (fun r => ⟨r.1, r.2.1, r.2.2⟩)
    fun r => (r.origin, r.kind, r.data)

end Wire.Codec

end JigLedger
