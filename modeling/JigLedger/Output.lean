import JigLedger.Json.Printer
import JigLedger.Lock.Record
import JigLedger.Text.Base64

/-!
# Outputs

An output is the stored state of one jig at one place. Its encoding is
`origin | location | class | lock origin | lock kind | lock data | state`; the three leading
pointers and the lock's origin take 36 bytes each, the kind takes four, and the data and the state
come with their lengths.
-/

namespace JigLedger

/-- The stored state of a jig. -/
structure Output where
  /-- The permanent identity of the jig. -/
  origin : Pointer
  /-- Where the jig is now; every transaction that touches it moves it. -/
  location : Pointer
  /-- The package and export of the jig's class. -/
  classPtr : Pointer
  lock : LockRecord
  /-- The encoded fields. -/
  state : Bytes
deriving DecidableEq, Repr

namespace Wire.Codec

/-- The encoding of outputs. -/
def output : Codec Output :=
  (pointer.pair (pointer.pair (pointer.pair (lockRecord.pair bytes)))).iso
    (fun o => ⟨o.1, o.2.1, o.2.2.1, o.2.2.2.1, o.2.2.2.2⟩)
    fun o => (o.origin, o.location, o.classPtr, o.lock, o.state)

end Wire.Codec

namespace Output

/-- The message of a fault in writing an output. -/
def encodeMessage (fault : Wire.Fault) : String := s!"encode output: {fault.message}"

/-- The message of a fault in reading an output. -/
def decodeMessage (fault : Wire.Fault) : String := s!"decode output: {fault.message}"

/-- The bytes of an output. -/
def toBytes (o : Output) : Except Wire.Fault Bytes := Wire.Codec.output.write o

/-- The output with the given bytes. -/
def ofBytes (bs : Bytes) : Except Wire.Fault Output := Wire.Codec.output.decode bs

/-- The digest of an output. -/
def hash (o : Output) : Except Wire.Fault (Block 32) := do
  return Sha256.digest (← o.toBytes)

/-- A view of an output for people. -/
def toJson (o : Output) : Json :=
  .ofMembers [
    ("origin", .text o.origin.toText),
    ("location", .text o.location.toText),
    ("classPtr", .text o.classPtr.toText),
    ("lock", .ofMembers [
      ("kind", .nat o.lock.kind.toNat),
      ("data", .text (Hex.encode o.lock.data))]),
    ("state", .text (Base64.encode o.state))]

end Output

end JigLedger
