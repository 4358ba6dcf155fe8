import JigLedger.Lock.Basic
import JigLedger.Proofs.Except

/-!
# Stored locks are exact

A lock that has been rebuilt from a record is stored in the same record again.
-/

namespace JigLedger

/-- Bytes that are read as a pointer are those of the pointer. -/
theorem Pointer.toBytes_of_ofBytes {bs : Bytes} {p : Pointer} (h : ofBytes bs = .ok p) :
    p.toBytes = bs := by
  unfold ofBytes at h
  split at h
  case h_1 id idx first second =>
    cases h
    have exact := littleEndian_ofLittleEndian idx.bytes
    rw [idx.length_eq] at exact
    have below : ofLittleEndian idx.bytes < UInt32.size := by
      have below := ofLittleEndian_lt idx.bytes
      rwa [idx.length_eq] at below
    rw [toBytes, UInt32.toNat_ofNat_of_lt' below, exact,
      ← Block.ofBytes?_eq_some_iff.1 first, ← Block.ofBytes?_eq_some_iff.1 second]
    exact List.take_append_drop 32 bs
  case h_2 => cases h

/-- Bytes that are read as an address are those of the address. -/
theorem Address.bytes_of_ofBytes {bs : Bytes} {a : Address} (h : ofBytes bs = .ok a) :
    a.bytes = bs := by
  unfold ofBytes at h
  split at h
  case h_1 block read =>
    cases h
    exact (Block.ofBytes?_eq_some_iff.1 read).symm
  case h_2 => cases h

namespace Lock

/-- Data that fit a kind of lock are those that the lock is stored with. -/
theorem stored?_of_ofKind? {kind : LockKind} {data : Bytes} {lock : Lock}
    (h : ofKind? kind data = some lock) : lock.stored? = some (kind, data) := by
  cases kind <;> simp only [ofKind?, Option.map_eq_some_iff] at h
  case address =>
    obtain ⟨a, read, rfl⟩ := h
    rw [stored?, Address.bytes_of_ofBytes (toOption_eq_some.1 read)]
  case jig =>
    obtain ⟨p, read, rfl⟩ := h
    rw [stored?, Pointer.toBytes_of_ofBytes (toOption_eq_some.1 read)]
  all_goals
    split at h
    case isTrue none =>
      cases h
      rw [List.isEmpty_iff.1 none]
      rfl
    case isFalse => cases h

/-- The lock of a record has this record as its stored form. -/
theorem toRecord_of_ofRecord {record : LockRecord} {lock : Lock} (h : ofRecord record = .ok lock) :
    lock.toRecord record.origin = .ok record := by
  unfold ofRecord at h
  split at h
  case h_1 => cases h
  case h_2 kind known =>
    split at h
    case h_2 => cases h
    case h_1 found =>
      cases h
      have code := LockKind.ofCode?_eq_some_iff.1 known
      simp only [toRecord, stored?_of_ofKind? found, ← code]

/-- A stored lock names the jig that it was stored for. -/
theorem origin_of_toRecord {lock : Lock} {origin : Pointer} {record : LockRecord}
    (h : lock.toRecord origin = .ok record) : record.origin = origin := by
  unfold toRecord at h
  split at h
  · cases h
    rfl
  · cases h

end Lock

end JigLedger
