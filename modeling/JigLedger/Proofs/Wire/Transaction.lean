import JigLedger.Ledger
import JigLedger.Proofs.Wire.Codec

/-!
# Transactions are told apart by their bytes

The codecs of transactions are faithful, so two transactions with the same bytes are equal. The
bytes that the origin of a minted coin is made of are never those of a transaction: they begin with
ten, the length of the words in front, and then the first of ten instructions would have to have the
first letter of these words as its tag.
-/

namespace JigLedger

/-! ### Sources -/

namespace Sources

/-- A file with a new name is one more file. -/
theorem perm_insertFile {name body : String} {files : List (String × String)}
    (fresh : name ∉ files.map (·.1)) :
    (insertFile name body files).Perm ((name, body) :: files) := by
  induction files with
  | nil => exact .refl _
  | cons f files ih =>
    simp only [List.map_cons, List.mem_cons, not_or] at fresh
    rw [insertFile]
    split
    · exact .refl _
    · rw [if_neg fresh.1]
      exact ((ih fresh.2).cons f).trans (.swap ..)

/-- Files with different names are all kept. -/
theorem perm_foldl_insert {files : List (String × String)} {s : Sources}
    (distinct : (files.map (·.1)).Nodup) (fresh : ∀ f ∈ files, f.1 ∉ s.files.map (·.1)) :
    (files.foldl (fun s f => s.insert f.1 f.2) s).files.Perm (files ++ s.files) := by
  induction files generalizing s with
  | nil => exact .refl _
  | cons f files ih =>
    simp only [List.map_cons, List.nodup_cons] at distinct
    have here : (s.insert f.1 f.2).files.Perm (f :: s.files) := perm_insertFile (fresh f (.head _))
    refine (ih distinct.2 fun g hg => ?_).trans ?_
    · rw [(here.map _).mem_iff, List.map_cons, List.mem_cons, not_or]
      refine ⟨fun same => distinct.1 ?_, fresh g (.tail _ hg)⟩
      rw [← same]
      exact List.mem_map_of_mem hg
    · exact (here.append_left files).trans List.perm_middle

/-- The names of files are different. -/
theorem nodup_names (s : Sources) : (s.files.map (·.1)).Nodup :=
  List.pairwise_map.2 (s.increasing.imp fun {a b} h same => by
    rw [same] at h
    exact String.lt_irrefl _ h)

/-- Files with different names are the files of their sources. -/
theorem perm_ofList {files : List (String × String)} (distinct : (files.map (·.1)).Nodup) :
    (ofList files).files.Perm files := by
  have all := perm_foldl_insert (s := empty) distinct fun _ _ => List.not_mem_nil
  rwa [show empty.files = [] from rfl, List.append_nil] at all

/-- The files in any order give the same sources. -/
theorem ofList_of_perm {files : List (String × String)} {s : Sources}
    (perm : List.Perm s.files files) : ofList files = s := by
  have all := perm_ofList ((perm.map _).nodup_iff.1 s.nodup_names)
  have same : (ofList files).files = s.files :=
    List.Perm.eq_of_pairwise (fun a b _ _ hab hba => absurd (String.lt_trans hab hba)
      (String.lt_irrefl _)) (ofList files).increasing s.increasing (all.trans perm.symm)
  rcases hf : ofList files with ⟨_, _⟩
  rw [hf] at same
  cases s
  cases same
  rfl

end Sources

/-! ### Transactions -/

namespace Wire.Codec

theorem faithful_sources : sources.Faithful := by
  intro s bs rest written
  obtain ⟨files, perm, read⟩ := Faithful.map faithful_text faithful_text s.nodup_names written rest
  refine (read_bind_of_ok read).trans ?_
  rw [Sources.ofList_of_perm perm]
  rfl

theorem faithful_pointer : pointer.Faithful :=
  ((faithful_block 32).pair faithful_u32).iso fun _ => rfl

theorem faithful_address : address.Faithful := (faithful_block 20).iso fun _ => rfl

theorem faithful_packageId : packageId.Faithful := (faithful_block 32).iso fun _ => rfl

/-- An alternative is written as its tag and its fields. -/
theorem writeTagged_eq_ok {α : Type} {tag : Nat} {fields : Codec α} {a : α} {bs : Bytes} :
    writeTagged tag fields a = .ok bs ↔ ∃ body, fields.write a = .ok body ∧
      bs = numeral tag ++ body := by
  simp only [writeTagged, bind_eq_ok, pure, Except.pure, Except.ok.injEq, @eq_comm _ _ bs]

/-- An alternative is read back by the reader that its tag leads to. -/
theorem Faithful.tagged {α β : Type} {fields : Codec α} (h : fields.Faithful) {tag : Nat} {a : α}
    {bs : Bytes} (written : writeTagged tag fields a = .ok bs) (rest : Bytes)
    (fits : tag < UInt32.size) {reader : Nat → Reader β} (build : α → β)
    (leads : reader tag = do return build (← fields.read)) :
    (readNumeral >>= reader) (bs ++ rest) = .ok (build a, rest) := by
  obtain ⟨body, hb, rfl⟩ := writeTagged_eq_ok.1 written
  rw [List.append_assoc, read_bind_of_ok (readNumeral_append fits _), leads]
  exact read_bind_of_ok (h a body rest hb)

theorem faithful_arg : arg.Faithful := by
  intro a bs rest written
  cases a
  case value => exact faithful_bytes.tagged written rest (by decide) Arg.value rfl
  case ref => exact faithful_u16.tagged written rest (by decide) Arg.ref rfl

theorem faithful_lockSpec : lockSpec.Faithful := by
  intro spec bs rest written
  cases spec
  case address => exact faithful_address.tagged written rest (by decide) LockSpec.address rfl
  case jig => exact faithful_pointer.tagged written rest (by decide) LockSpec.jig rfl
  all_goals
    cases written
    exact read_bind_of_ok (readNumeral_append (by decide) rest)

theorem faithful_call : call.Faithful :=
  faithful_u16.pair (faithful_u16.pair faithful_arg.list)

theorem faithful_contents : contents.Faithful := faithful_text.list.pair faithful_sources

theorem faithful_signature : signature.Faithful := faithful_bytes.pair faithful_bytes

theorem faithful_instruction : instruction.Faithful := by
  intro i bs rest written
  cases i
  case importPackage =>
    exact faithful_packageId.tagged written rest (by decide) Instruction.importPackage rfl
  case load => exact faithful_pointer.tagged written rest (by decide) Instruction.load rfl
  case loadByOrigin =>
    exact faithful_pointer.tagged written rest (by decide) Instruction.loadByOrigin rfl
  case new =>
    exact faithful_call.tagged written rest (by decide)
      (fun c => Instruction.new c.1 c.2.1 c.2.2) rfl
  case exec =>
    exact faithful_call.tagged written rest (by decide)
      (fun c => Instruction.exec c.1 c.2.1 c.2.2) rfl
  case execFunction =>
    exact faithful_call.tagged written rest (by decide)
      (fun c => Instruction.execFunction c.1 c.2.1 c.2.2) rfl
  case fund => exact faithful_u16.tagged written rest (by decide) Instruction.fund rfl
  case lock =>
    exact (faithful_u16.pair faithful_lockSpec).tagged written rest (by decide)
      (fun c => Instruction.lock c.1 c.2) rfl
  case deploy =>
    exact faithful_contents.tagged written rest (by decide)
      (fun c => Instruction.deploy c.1 c.2) rfl
  case sign =>
    exact faithful_signature.tagged written rest (by decide)
      (fun c => Instruction.sign c.1 c.2) rfl
  case signTo =>
    exact faithful_signature.tagged written rest (by decide)
      (fun c => Instruction.signTo c.1 c.2) rfl

theorem faithful_transaction : transaction.Faithful :=
  faithful_instruction.list.iso fun _ => rfl

/-- An instruction that can be written can be written without the bytes of its signature. -/
theorem exists_write_blanked {i : Instruction} {bs : Bytes} (h : instruction.write i = .ok bs) :
    ∃ bs', instruction.write i.blanked = .ok bs' := by
  have blank {tag : Nat} {sig key bs : Bytes} (h : writeTagged tag signature (sig, key) = .ok bs) :
      ∃ bs', writeTagged tag signature ([], key) = .ok bs' := by
    obtain ⟨_, written, -⟩ := writeTagged_eq_ok.1 h
    obtain ⟨_, -, rest⟩ := bind_eq_ok.1 written
    obtain ⟨_, hk, -⟩ := bind_eq_ok.1 rest
    have both : signature.write ([], key) = .ok _ :=
      bind_eq_ok.2 ⟨_, rfl, bind_eq_ok.2 ⟨_, hk, rfl⟩⟩
    exact ⟨_, writeTagged_eq_ok.2 ⟨_, both, rfl⟩⟩
  cases i
  case sign => exact blank h
  case signTo => exact blank h
  all_goals exact ⟨bs, h⟩

end Wire.Codec

namespace Transaction

open Wire

/-- Transactions with the same bytes are equal. -/
theorem eq_of_toBytes {tx tx' : Transaction} {bs : Bytes} (h : tx.toBytes = .ok bs)
    (h' : tx'.toBytes = .ok bs) : tx = tx' :=
  Codec.faithful_transaction.injective h h'

/-- A transaction that has bytes does not have too many instructions. -/
theorem size_le_of_toBytes {tx : Transaction} {bs : Bytes} (h : tx.toBytes = .ok bs) :
    tx.size ≤ maxLength :=
  Codec.length_le_of_list h

/-- Whatever a signature of a transaction signs can be written, if the transaction can. -/
theorem exists_signingHash {tx : Transaction} {bs : Bytes} (h : tx.toBytes = .ok bs) (n : Nat) :
    ∃ message, tx.signingHash n = .ok message := by
  obtain ⟨short, each⟩ := Codec.exists_list_write.1 ⟨bs, h⟩
  have payload : ∃ bs, tx.signingPayload n = .ok bs := by
    refine Codec.exists_list_write.2 ⟨?_, fun a ha => ?_⟩
    · rw [covered, List.length_map]
      exact Nat.le_trans (List.length_take_le' _ _) short
    · obtain ⟨i, hi, rfl⟩ := List.mem_map.1 ha
      obtain ⟨_, written⟩ := each i (List.mem_of_mem_take hi)
      exact Codec.exists_write_blanked written
  obtain ⟨payload, written⟩ := payload
  exact ⟨_, bind_eq_ok.2 ⟨payload, written, rfl⟩⟩

/-- No transaction has ten instructions the first of which has the letter `j` as its tag. -/
theorem toBytes_ne (tx : Transaction) (tail : Bytes) : tx.toBytes ≠ .ok (10 :: 0x6A :: tail) := by
  intro written
  have read := Codec.faithful_transaction.decode written
  have fails : Codec.transaction.decode (10 :: 0x6A :: tail) =
      .error (.unknownVariant 0x6A 11) := rfl
  rw [fails] at read
  cases read

end Transaction

namespace Ledger

/-- The words in front begin with their length and a letter. -/
theorem mintPayload_eq_ok {owner : Address} {amount seed : UInt64} {bs : Bytes}
    (h : mintPayload owner amount seed = .ok bs) : ∃ tail, bs = 10 :: 0x6A :: tail := by
  have words : Wire.Codec.text.write mintDomain =
      .ok [10, 0x6A, 0x69, 0x67, 0x76, 0x6D, 0x2D, 0x6D, 0x69, 0x6E, 0x74] := by decide
  simp only [mintPayload, Wire.Codec.pair, bind_eq_ok, words, pure, Except.pure,
    Except.ok.injEq] at h
  obtain ⟨_, rfl, rest, -, rfl⟩ := h
  exact ⟨_, rfl⟩

/-- What the origin of a minted coin is made of is not the encoding of a transaction. -/
theorem mintPayload_ne_toBytes {owner : Address} {amount seed : UInt64} {bs : Bytes}
    (h : mintPayload owner amount seed = .ok bs) (tx : Transaction) : tx.toBytes ≠ .ok bs := by
  obtain ⟨tail, rfl⟩ := mintPayload_eq_ok h
  exact tx.toBytes_ne tail

end Ledger

end JigLedger
