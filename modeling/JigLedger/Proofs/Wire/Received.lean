import JigLedger.Proofs.Wire.Canonical
import JigLedger.Proofs.Wire.Transaction

/-!
# Transactions as they are received

The codec of transactions is canonical. A transaction has an encoding if all its lengths are ones
the format admits; then its encoding is decoded to it, and no other byte string is: a malformed
numeral, a text that is not UTF-8 or files out of order are not accepted. So the digest of a
transaction that has been received is the digest of the very bytes that came in.
-/

namespace JigLedger

open Wire

/-! ### Lengths -/

/-- The lengths in an argument are ones the format admits. -/
def Arg.Fits : Arg → Prop
  | .value bytes => bytes.length ≤ maxLength
  | .ref _ => True

/-- The lengths in sources are ones the format admits. -/
def Sources.Fits (s : Sources) : Prop :=
  s.files.length ≤ maxLength ∧
    ∀ f ∈ s.files, (utf8 f.1).length ≤ maxLength ∧ (utf8 f.2).length ≤ maxLength

/-- The lengths in an instruction are ones the format admits. -/
def Instruction.Fits : Instruction → Prop
  | .new _ _ args | .exec _ _ args | .execFunction _ _ args =>
    args.length ≤ maxLength ∧ ∀ a ∈ args, a.Fits
  | .deploy entries sources =>
    (entries.length ≤ maxLength ∧ ∀ e ∈ entries, (utf8 e).length ≤ maxLength) ∧ sources.Fits
  | .sign signature key | .signTo signature key =>
    signature.length ≤ maxLength ∧ key.length ≤ maxLength
  | _ => True

/-- The lengths in a transaction are ones the format admits. -/
def Transaction.Fits (tx : Transaction) : Prop :=
  tx.size ≤ maxLength ∧ ∀ i ∈ tx.instructions, i.Fits

namespace Wire.Codec

variable {α β : Type} {c : Codec α} {d : Codec β}

/-! ### What can be written -/

theorem exists_bytes_write {bs : Bytes} :
    (∃ written, bytes.write bs = .ok written) ↔ bs.length ≤ maxLength := by
  simp only [bytes, bind_eq_ok, writeLength_eq_ok]
  constructor
  · rintro ⟨_, _, ⟨short, -⟩, -⟩
    exact short
  · intro short
    exact ⟨_, _, ⟨short, rfl⟩, rfl⟩

theorem exists_text_write {s : String} :
    (∃ bs, text.write s = .ok bs) ↔ (utf8 s).length ≤ maxLength :=
  exists_bytes_write

theorem exists_pair_write {p : α × β} :
    (∃ bs, (c.pair d).write p = .ok bs) ↔
      (∃ bs, c.write p.1 = .ok bs) ∧ ∃ bs, d.write p.2 = .ok bs := by
  simp only [Codec.pair, bind_eq_ok]
  constructor
  · rintro ⟨_, _, first, _, second, -⟩
    exact ⟨⟨_, first⟩, _, second⟩
  · rintro ⟨⟨_, first⟩, _, second⟩
    exact ⟨_, _, first, _, second, rfl⟩

theorem exists_tagged_write {tag : Nat} {a : α} :
    (∃ bs, writeTagged tag c a = .ok bs) ↔ ∃ bs, c.write a = .ok bs := by
  simp only [writeTagged_eq_ok]
  constructor
  · rintro ⟨_, body, written, -⟩
    exact ⟨body, written⟩
  · rintro ⟨body, written⟩
    exact ⟨_, body, written, rfl⟩

theorem exists_sources_write {s : Sources} : (∃ bs, sources.write s = .ok bs) ↔ s.Fits := by
  refine (exists_map_write faithful_text s.nodup_names).trans ?_
  simp only [exists_text_write]
  rfl

theorem exists_arg_write {a : Arg} : (∃ bs, arg.write a = .ok bs) ↔ a.Fits := by
  cases a
  case value => exact exists_tagged_write.trans exists_bytes_write
  case ref => exact ⟨fun _ => trivial, fun _ => exists_tagged_write.2 ⟨_, rfl⟩⟩

theorem exists_lockSpec_write (spec : LockSpec) : ∃ bs, lockSpec.write spec = .ok bs := by
  cases spec <;> exact ⟨_, rfl⟩

theorem exists_call_write {tag : Nat} {i j : UInt16} {args : List Arg} :
    (∃ bs, writeTagged tag call (i, j, args) = .ok bs) ↔
      args.length ≤ maxLength ∧ ∀ a ∈ args, a.Fits := by
  simp only [exists_tagged_write, call, exists_pair_write, exists_list_write, exists_arg_write]
  exact ⟨fun h => h.2.2, fun h => ⟨⟨_, rfl⟩, ⟨_, rfl⟩, h⟩⟩

theorem exists_signature_write {tag : Nat} {sig key : Bytes} :
    (∃ bs, writeTagged tag signature (sig, key) = .ok bs) ↔
      sig.length ≤ maxLength ∧ key.length ≤ maxLength := by
  simp only [exists_tagged_write, signature, exists_pair_write, exists_bytes_write]

/-- An instruction can be written if its lengths fit. -/
theorem exists_instruction_write {i : Instruction} :
    (∃ bs, instruction.write i = .ok bs) ↔ i.Fits := by
  cases i
  case new => exact exists_call_write
  case exec => exact exists_call_write
  case execFunction => exact exists_call_write
  case lock =>
    refine ⟨fun _ => trivial, fun _ => exists_tagged_write.2 (exists_pair_write.2 ?_)⟩
    exact ⟨⟨_, rfl⟩, exists_lockSpec_write _⟩
  case deploy entries files =>
    refine exists_tagged_write.trans ?_
    simp only [contents, exists_pair_write, exists_list_write, exists_text_write,
      exists_sources_write, Instruction.Fits]
  case sign => exact exists_signature_write
  case signTo => exact exists_signature_write
  all_goals exact ⟨fun _ => trivial, fun _ => ⟨_, rfl⟩⟩

/-! ### Whatever is read is what would be written -/

theorem canonical_address : address.Canonical :=
  (canonical_block 20).iso (fun _ => rfl) fun _ => rfl

theorem canonical_packageId : packageId.Canonical :=
  (canonical_block 32).iso (fun _ => rfl) fun _ => rfl

theorem canonical_sources : sources.Canonical where
  faithful := faithful_sources
  exact := by
    intro input s rest read
    obtain ⟨files, next, here, last⟩ := read_bind_eq_ok.1 read
    obtain ⟨rfl, rfl⟩ := read_pure_eq_ok.1 last
    obtain ⟨bs, ⟨distinct, written⟩, rfl⟩ := canonical_text.map canonical_text _ _ _ here
    exact ⟨bs, written _ (Sources.perm_ofList distinct), rfl⟩

/-- What the reader of an alternative accepts behind its tag is what would be written with it. -/
theorem Canonical.tagged {fields : Codec α} (h : fields.Canonical) {build : α → β}
    {input rest : Bytes} {b : β}
    (read : (fields.read >>= fun a => pure (build a) : Reader β) input = .ok (b, rest))
    {write : Writer β} {tag : Nat} (writes : ∀ a, write (build a) = writeTagged tag fields a) :
    ∃ bs, write b = .ok bs ∧ numeral tag ++ input = bs ++ rest := by
  obtain ⟨a, next, here, last⟩ := read_bind_eq_ok.1 read
  obtain ⟨rfl, rfl⟩ := read_pure_eq_ok.1 last
  obtain ⟨body, written, rfl⟩ := h.exact _ _ _ here
  refine ⟨numeral tag ++ body, ?_, (List.append_assoc ..).symm⟩
  rw [writes]
  exact writeTagged_eq_ok.2 ⟨body, written, rfl⟩

theorem canonical_arg : arg.Canonical where
  faithful := faithful_arg
  exact := by
    intro input a rest read
    obtain ⟨tag, next, tagged, more⟩ := read_bind_eq_ok.1 read
    obtain ⟨_, rfl, rfl⟩ := exact_readNumeral _ _ _ tagged
    split at more
    · exact canonical_bytes.tagged more fun _ => rfl
    · exact canonical_u16.tagged more fun _ => rfl
    · cases more

theorem canonical_lockSpec : lockSpec.Canonical where
  faithful := faithful_lockSpec
  exact := by
    intro input spec rest read
    obtain ⟨tag, next, tagged, more⟩ := read_bind_eq_ok.1 read
    obtain ⟨_, rfl, rfl⟩ := exact_readNumeral _ _ _ tagged
    split at more
    · exact canonical_address.tagged more fun _ => rfl
    · obtain ⟨rfl, rfl⟩ := read_pure_eq_ok.1 more
      exact ⟨_, rfl, rfl⟩
    · obtain ⟨rfl, rfl⟩ := read_pure_eq_ok.1 more
      exact ⟨_, rfl, rfl⟩
    · exact canonical_pointer.tagged more fun _ => rfl
    · cases more

theorem canonical_call : call.Canonical :=
  canonical_u16.pair (canonical_u16.pair canonical_arg.list)

theorem canonical_contents : contents.Canonical := canonical_text.list.pair canonical_sources

theorem canonical_signature : signature.Canonical := canonical_bytes.pair canonical_bytes

theorem canonical_instruction : instruction.Canonical where
  faithful := faithful_instruction
  exact := by
    intro input i rest read
    obtain ⟨tag, next, tagged, more⟩ := read_bind_eq_ok.1 read
    obtain ⟨_, rfl, rfl⟩ := exact_readNumeral _ _ _ tagged
    split at more
    · exact canonical_packageId.tagged more fun _ => rfl
    · exact canonical_pointer.tagged more fun _ => rfl
    · exact canonical_pointer.tagged more fun _ => rfl
    · exact canonical_call.tagged more fun _ => rfl
    · exact canonical_call.tagged more fun _ => rfl
    · exact canonical_call.tagged more fun _ => rfl
    · exact canonical_u16.tagged more fun _ => rfl
    · exact (canonical_u16.pair canonical_lockSpec).tagged more fun _ => rfl
    · exact canonical_contents.tagged more fun _ => rfl
    · exact canonical_signature.tagged more fun _ => rfl
    · exact canonical_signature.tagged more fun _ => rfl
    · cases more

theorem canonical_transaction : transaction.Canonical :=
  canonical_instruction.list.iso (fun _ => rfl) fun _ => rfl

/-- A byte string is decoded to a value if and only if it is the encoding of this value. -/
theorem Canonical.decode_eq_ok (h : c.Canonical) {bs : Bytes} {a : α} :
    c.decode bs = .ok a ↔ c.write a = .ok bs := by
  constructor
  · intro decoded
    rw [decode] at decoded
    split at decoded
    case h_1 a' read =>
      cases decoded
      obtain ⟨bs, written, rfl⟩ := h.exact _ _ _ read
      rwa [List.append_nil]
    all_goals cases decoded
  · exact h.faithful.decode

end Wire.Codec

namespace Transaction

/-- A transaction has an encoding if its lengths fit. -/
theorem exists_toBytes {tx : Transaction} : (∃ bs, tx.toBytes = .ok bs) ↔ tx.Fits := by
  refine Codec.exists_list_write.trans ?_
  simp only [Codec.exists_instruction_write]
  rfl

/-- Every transaction whose lengths fit has an encoding, and no other one has. A byte string is
decoded to a transaction if and only if it is its encoding. So what is received has the digest of
the bytes that came in, and no other byte string is decoded to it. -/
theorem wire_canonical :
    (∀ tx : Transaction, (∃ bs, tx.toBytes = .ok bs) ↔ tx.Fits) ∧
      (∀ (tx : Transaction) (bs : Bytes), tx.toBytes = .ok bs ↔ ofBytes bs = .ok tx) ∧
      (∀ (tx : Transaction) (bs : Bytes), ofBytes bs = .ok tx → tx.hash = .ok (Sha256.digest bs)) ∧
      ∀ (tx : Transaction) (bs bs' : Bytes), ofBytes bs = .ok tx → ofBytes bs' = .ok tx →
        bs = bs' := by
  have encoded (tx : Transaction) (bs : Bytes) : tx.toBytes = .ok bs ↔ ofBytes bs = .ok tx :=
    Codec.canonical_transaction.decode_eq_ok.symm
  refine ⟨fun tx => exists_toBytes, encoded, ?_, ?_⟩
  · intro tx bs received
    exact bind_eq_ok.2 ⟨bs, (encoded tx bs).2 received, rfl⟩
  · intro tx bs bs' received received'
    have same := ((encoded tx bs).2 received).symm.trans ((encoded tx bs').2 received')
    exact Except.ok.inj same

/-- A package of two files and a signature. The names of the files stand in another order than
their encodings. -/
def twoFiles : Transaction :=
  ⟨[.deploy ["aa"] (Sources.ofList [("aa", "x"), ("b", "y")]), .sign [7] [8, 9]]⟩

/-- The encoding of the package of two files. -/
def twoFilesBytes : Bytes :=
  [2, 8, 1, 2, 0x61, 0x61, 2, 1, 0x62, 1, 0x79, 2, 0x61, 0x61, 1, 0x78, 9, 1, 7, 2, 8, 9]

theorem wire_canonical_twoFiles :
    ofBytes twoFilesBytes = .ok twoFiles ∧ twoFiles.toBytes = .ok twoFilesBytes ∧ twoFiles.Fits ∧
      twoFiles.hash = .ok (Sha256.digest twoFilesBytes) ∧
      ∀ bs, ofBytes bs = .ok twoFiles → bs = twoFilesBytes := by
  obtain ⟨fits, encoded, digested, unique⟩ := wire_canonical
  have received : ofBytes twoFilesBytes = .ok twoFiles := by decide +kernel
  have written := (encoded _ _).2 received
  exact ⟨received, written, (fits _).1 ⟨_, written⟩, digested _ _ received,
    fun bs received' => unique _ _ _ received' received⟩

end Transaction

end JigLedger
