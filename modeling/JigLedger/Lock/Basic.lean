import JigLedger.Failure
import JigLedger.Lock.Record

/-!
# Locks

The lock of a jig decides, for the code that is running, whether it may act as the owner, whether
it may call methods of the jig, and whether it may replace the lock:

| lock       | act as owner | call         | replace the lock  |
|------------|--------------|--------------|-------------------|
| unowned    | no           | no           | no                |
| unlocked   | yes          | yes          | yes               |
| address a  | signed by a  | signed by a  | signed by a       |
| jig o      | caller is o  | caller is o  | caller is o       |
| everyone   | no           | yes          | caller is the jig |
| frozen     | no           | no           | no                |

A jig is unlocked only between its construction and the end of the transaction, by which it has
to be locked; an unlocked jig has no stored form.
-/

namespace JigLedger

/-- What a lock needs to know about the code that is running. -/
structure Authority where
  caller : Caller
  /-- Holders of this address have signed the instruction that is running. -/
  isSignedBy : Address → Bool

/-- The lock of a jig. -/
inductive Lock where
  | unowned
  | unlocked
  | address (a : Address)
  | jig (parent : Pointer)
  | everyone
  | frozen
deriving DecidableEq, Repr

namespace Lock

/-- The name of the kind of a lock. -/
def kindName : Lock → String
  | unowned => "none"
  | unlocked => "open"
  | address _ => "address"
  | jig _ => "jig"
  | everyone => "public"
  | frozen => "frozen"

/-- The text of a lock. -/
def toText : Lock → String
  | address a => s!"address({a.toText})"
  | jig parent => s!"jig({parent.toText})"
  | lock => lock.kindName

/-- The jig is destroyed. -/
def isFrozen : Lock → Bool
  | frozen => true
  | _ => false

/-- The jig is new and waits for its lock. -/
def isUnlocked : Lock → Bool
  | unlocked => true
  | _ => false

/-- The caller may act as the owner. -/
def isOpenTo (auth : Authority) : Lock → Bool
  | unlocked => true
  | address a => auth.isSignedBy a
  | jig parent => auth.caller = .jig parent
  | unowned | everyone | frozen => false

/-- Fails unless the caller may act as the owner. -/
def assertOpen (lock : Lock) (auth : Authority) : Except ExecError Unit :=
  if lock.isOpenTo auth then .ok ()
  else .error ((ExecError.refused s!"{lock.kindName} lock is not open").withCaller auth.caller)

/-- The caller may call methods. -/
def canReceiveCalls (auth : Authority) : Lock → Bool
  | unlocked | everyone => true
  | address a => auth.isSignedBy a
  | jig parent => auth.caller = .jig parent
  | unowned | frozen => false

/-- The caller may replace the lock of the jig with origin `owner`. -/
def canBeChanged (auth : Authority) (owner : Pointer) : Lock → Bool
  | unlocked => true
  | address a => auth.isSignedBy a
  | jig parent => auth.caller = .jig parent
  | everyone => auth.caller = .jig owner
  | unowned | frozen => false

/-- The kind and the data of the stored form. -/
def stored? : Lock → Option (LockKind × Bytes)
  | unowned => some (.unowned, [])
  | unlocked => none
  | address a => some (.address, a.bytes)
  | jig parent => some (.jig, parent.toBytes)
  | everyone => some (.everyone, [])
  | frozen => some (.frozen, [])

/-- The stored form of the lock of the jig with the given origin. -/
def toRecord (lock : Lock) (origin : Pointer) : Except ExecError LockRecord :=
  match lock.stored? with
  | some (kind, data) => .ok ⟨origin, kind.code, data⟩
  | none => .error ((ExecError.refused "jig left without a lock").withOrigin origin)

/-- The lock of a kind with the given data, if the data fit the kind. -/
def ofKind? (kind : LockKind) (data : Bytes) : Option Lock :=
  match kind with
  | .address => (Address.ofBytes data).toOption.map address
  | .jig => (Pointer.ofBytes data).toOption.map jig
  | .unowned => if data.isEmpty then some unowned else none
  | .everyone => if data.isEmpty then some everyone else none
  | .frozen => if data.isEmpty then some frozen else none

/-- The lock with a given stored form. -/
def ofRecord (record : LockRecord) : Except ExecError Lock :=
  match LockKind.ofCode? record.kind with
  | none =>
    .error (.broken
      s!"{LockKind.unknownMessage record.kind} for jig {record.origin.toText}")
  | some kind =>
    match ofKind? kind record.data with
    | some lock => .ok lock
    | none =>
      .error (.broken (s!"{kind.name} lock of jig {record.origin.toText} has " ++
        s!"{record.data.length} data bytes"))

theorem assertOpen_eq_ok_iff {lock : Lock} {auth : Authority} :
    lock.assertOpen auth = .ok () ↔ lock.isOpenTo auth = true := by
  unfold assertOpen; split <;> simp_all

/-- What may be acted upon as the owner may be called. -/
theorem canReceiveCalls_of_isOpenTo {lock : Lock} {auth : Authority}
    (h : lock.isOpenTo auth = true) : lock.canReceiveCalls auth = true := by
  cases lock <;> simp_all [isOpenTo, canReceiveCalls]

/-- The stored form leads back to the lock. -/
theorem ofRecord_of_toRecord {lock : Lock} {origin : Pointer} {record : LockRecord}
    (h : lock.toRecord origin = .ok record) : ofRecord record = .ok lock := by
  cases lock <;> simp only [toRecord, stored?] at h <;> cases h <;>
    simp [ofRecord, ofKind?, Address.ofBytes, Address.bytes, Except.toOption]

end Lock

end JigLedger
