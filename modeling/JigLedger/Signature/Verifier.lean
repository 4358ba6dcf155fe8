import JigLedger.Signature.Ed25519

/-!
# Signature verifiers

Whoever runs transactions chooses how their signatures are checked.
-/

namespace JigLedger

/-- A way to check signatures. -/
structure Verifier where
  /-- A signature of a message by the holder of a key is valid. -/
  verify : (signature message key : Bytes) → Bool
  /-- The address of the holder of a key. -/
  addressOf : (key : Bytes) → Except String Address

namespace Verifier

/-- Ed25519 signatures. -/
def ed25519 : Verifier := ⟨Ed25519.verify, Ed25519.addressOf⟩

/-- Signatures that anybody can make, for rehearsals: the first four bytes of the message. -/
def rehearsal : Verifier where
  verify signature message _ := signature = message.take 4
  addressOf key := if key.isEmpty then .error "empty key" else .ok (.ofPublicKey key)

end Verifier

end JigLedger
