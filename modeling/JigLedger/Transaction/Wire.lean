import JigLedger.Digest.Sha256
import JigLedger.Lock.Record
import JigLedger.Transaction.Basic

/-!
# The wire form of transactions

An alternative is written as its tag and its fields. The digest of a transaction is taken over its
encoding, and the message to sign over the encoding of the instructions that a signature covers.
-/

namespace JigLedger

namespace Wire.Codec

/-- The encoding of addresses. -/
def address : Codec Address := (block 20).iso Address.mk (·.block)

/-- The encoding of package ids. -/
def packageId : Codec PackageId := (block 32).iso PackageId.mk (·.block)

/-- The encoding of an alternative: its tag, then its fields. -/
def writeTagged {α : Type} (tag : Nat) (fields : Codec α) (a : α) : Except Fault Bytes := do
  return numeral tag ++ (← fields.write a)

/-- The encoding of arguments. -/
def arg : Codec Arg where
  write
    | .value bs => writeTagged 0 bytes bs
    | .ref n => writeTagged 1 u16 n
  read := do
    match ← readNumeral with
    | 0 => return .value (← bytes.read)
    | 1 => return .ref (← u16.read)
    | tag => fail (.unknownVariant tag 2)

/-- The encoding of lock specifications. -/
def lockSpec : Codec LockSpec where
  write
    | .address a => writeTagged 0 address a
    | .everyone => .ok (numeral 1)
    | .frozen => .ok (numeral 2)
    | .jig p => writeTagged 3 pointer p
  read := do
    match ← readNumeral with
    | 0 => return .address (← address.read)
    | 1 => return .everyone
    | 2 => return .frozen
    | 3 => return .jig (← pointer.read)
    | tag => fail (.unknownVariant tag 4)

/-- Two indices and the arguments of a call. -/
def call : Codec (UInt16 × UInt16 × List Arg) := u16.pair (u16.pair (list arg))

/-- Entries and sources of a package. -/
def contents : Codec (List String × Sources) := (list text).pair sources

/-- A signature and a public key. -/
def signature : Codec (Bytes × Bytes) := bytes.pair bytes

/-- The encoding of instructions. -/
def instruction : Codec Instruction where
  write
    | .importPackage id => writeTagged 0 packageId id
    | .load location => writeTagged 1 pointer location
    | .loadByOrigin origin => writeTagged 2 pointer origin
    | .new package classIdx args => writeTagged 3 call (package, classIdx, args)
    | .exec jig method args => writeTagged 4 call (jig, method, args)
    | .execFunction package function args => writeTagged 5 call (package, function, args)
    | .fund coin => writeTagged 6 u16 coin
    | .lock jig lock => writeTagged 7 (u16.pair lockSpec) (jig, lock)
    | .deploy entries files => writeTagged 8 contents (entries, files)
    | .sign sig key => writeTagged 9 signature (sig, key)
    | .signTo sig key => writeTagged 10 signature (sig, key)
  read := do
    match ← readNumeral with
    | 0 => return .importPackage (← packageId.read)
    | 1 => return .load (← pointer.read)
    | 2 => return .loadByOrigin (← pointer.read)
    | 3 => return (← call.read) |> fun c => .new c.1 c.2.1 c.2.2
    | 4 => return (← call.read) |> fun c => .exec c.1 c.2.1 c.2.2
    | 5 => return (← call.read) |> fun c => .execFunction c.1 c.2.1 c.2.2
    | 6 => return .fund (← u16.read)
    | 7 => return (← (u16.pair lockSpec).read) |> fun c => .lock c.1 c.2
    | 8 => return (← contents.read) |> fun c => .deploy c.1 c.2
    | 9 => return (← signature.read) |> fun c => .sign c.1 c.2
    | 10 => return (← signature.read) |> fun c => .signTo c.1 c.2
    | tag => fail (.unknownVariant tag 11)

/-- The encoding of transactions. -/
def transaction : Codec Transaction := (list instruction).iso Transaction.mk (·.instructions)

end Wire.Codec

namespace Transaction

/-- The message of a fault in writing a transaction. -/
def encodeMessage (fault : Wire.Fault) : String := s!"encode transaction: {fault.message}"

/-- The message of a fault in reading a transaction. -/
def decodeMessage (fault : Wire.Fault) : String := s!"decode transaction: {fault.message}"

/-- The message of a fault in writing what is to be signed. -/
def payloadMessage (fault : Wire.Fault) : String := s!"encode signing payload: {fault.message}"

/-- The bytes of a transaction. -/
def toBytes (tx : Transaction) : Except Wire.Fault Bytes := Wire.Codec.transaction.write tx

/-- The transaction with the given bytes. -/
def ofBytes (bs : Bytes) : Except Wire.Fault Transaction := Wire.Codec.transaction.decode bs

/-- The digest of a transaction. -/
def hash (tx : Transaction) : Except Wire.Fault (Block 32) := do
  return Sha256.digest (← tx.toBytes)

/-- The bytes whose digest a signature at position `n` signs. -/
def signingPayload (tx : Transaction) (n : Nat) : Except Wire.Fault Bytes :=
  (Wire.Codec.list Wire.Codec.instruction).write (tx.covered n)

/-- The message that a signature at position `n` signs. -/
def signingHash (tx : Transaction) (n : Nat) : Except Wire.Fault (Block 32) := do
  return Sha256.digest (← tx.signingPayload n)

end Transaction

end JigLedger
