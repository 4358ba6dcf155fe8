import JigLedger.Bytes

/-!
# Padding and blocks

Both digests read a message in blocks of fixed size: the message, one set bit, zeros, and the
message's length in bits at the very end of the last block.
-/

namespace JigLedger.Digest

/-- The message followed by its padding to whole blocks of `block` bytes, of which the last
`field` bytes hold the length in bits. -/
def pad (block field : Nat) (message : Bytes) : Bytes :=
  let used := (message.length + 1 + field) % block
  let zeros := if used = 0 then 0 else block - used
  message ++ 0x80 :: List.replicate zeros 0 ++ bigEndian field (8 * message.length)

/-- The first `count` blocks of `size` bytes. -/
def blocks (size : Nat) : (count : Nat) → Bytes → List Bytes
  | 0, _ => []
  | n + 1, bs => bs.take size :: blocks size n (bs.drop size)

theorem length_pad {block : Nat} (h : 0 < block) (field : Nat) (message : Bytes) :
    (pad block field message).length % block = 0 := by
  have hf : (bigEndian field (8 * message.length)).length = field := by simp [bigEndian]
  simp only [pad, List.length_append, List.length_cons, List.length_replicate, hf]
  have hlt := Nat.mod_lt (message.length + 1 + field) h
  have hd := Nat.div_add_mod (message.length + 1 + field) block
  split
  · rename_i h0
    have e : message.length + (0 + 1) + field = message.length + 1 + field := by omega
    rw [e, h0]
  · have e : message.length + (block - (message.length + 1 + field) % block + 1) + field
        = block * ((message.length + 1 + field) / block + 1) := by
      rw [Nat.mul_add]; omega
    rw [e, Nat.mul_mod_right]

end JigLedger.Digest
