import JigLedger.Digest.Sha512
import JigLedger.Identifier
import JigLedger.Signature.Edwards

/-!
# Ed25519 signatures

Verification with the rules of ZIP 215: the scalar of the signature has to be reduced, points may
be encoded without reduction and may have small order, and the equation is multiplied by the
cofactor. So the verdict does not depend on how a verifier batches its work.
-/

namespace JigLedger.Ed25519

open Edwards

/-- Bytes that encode a public key. -/
def key? (bytes : Bytes) : Option (Block 32 × Point) := do
  let block ← Block.ofBytes? 32 bytes
  let point ← Point.decode? block
  return (block, point)

/-- The number that binds the message to the commitment and the key. -/
def challenge (commitment key : Block 32) (message : Bytes) : Nat :=
  ofLittleEndian (Sha512.digest (commitment.bytes ++ key.bytes ++ message)).bytes % groupOrder

/-- A signature is a commitment and a scalar; it is valid when eight times
`s B - R - k A` is the neutral element. -/
def verify (signature message key : Bytes) : Bool :=
  (do
    let R ← Block.ofBytes? 32 (signature.take 32)
    let S ← Block.ofBytes? 32 (signature.drop 32)
    let (A, keyPoint) ← key? key
    let s := ofLittleEndian S.bytes
    guard (s < groupOrder)
    let commitment ← Point.decode? R
    let k := challenge R A message
    let difference :=
      (Point.scale s Point.base).add
        ((Point.scale k keyPoint).add commitment).neg
    return (Point.scale 8 difference).isIdentity).getD false

/-- The address of the holder of a key. Bytes that are no key have no address. -/
def addressOf (key : Bytes) : Except String Address :=
  if (key? key).isSome then .ok (.ofPublicKey key)
  else .error "invalid ed25519 public key: Invalid value was given to the function"

end JigLedger.Ed25519
