import JigLedger.Output
import JigLedger.Proofs.Wire.Received

/-!
# The records of outputs

The record of an output is the row of its fields: each pointer as its 36 bytes, the kind of its lock
as four bytes, and the data of its lock and its state behind their lengths. A number can be spelled
in base 128 in many ways, but a length is spelled in the shortest one. Nothing else is accepted as a
record: neither a part of one, nor one with something behind it, nor one with a longer spelling.
-/

namespace JigLedger

namespace Wire

/-! ### Spellings of numbers -/

/-- The bytes are the digits of a number in base 128, the least significant one first. All but the
last one have their top bit set. -/
inductive Spells : Bytes → Nat → Prop
  | last {b : UInt8} (low : b.toNat < 128) : Spells [b] b.toNat
  | more {b : UInt8} {bs : Bytes} {n : Nat} (high : 128 ≤ b.toNat) (h : Spells bs n) :
      Spells (b :: bs) (b.toNat - 128 + 128 * n)

variable {a b x y : Bytes} {m n room : Nat}

theorem Spells.length_pos (h : Spells a n) : 0 < a.length := by
  cases h <;> exact Nat.succ_pos _

/-- A spelling ends with itself: it cannot be mistaken for the beginning of another one. -/
theorem Spells.append_inj (h : Spells a m) (h' : Spells b n) (same : a ++ x = b ++ y) :
    a = b ∧ m = n ∧ x = y := by
  induction h generalizing b n with
  | last low =>
    cases h' with
    | last =>
      obtain ⟨rfl, rest⟩ := List.cons.inj same
      exact ⟨rfl, rfl, rest⟩
    | more high =>
      obtain ⟨rfl, -⟩ := List.cons.inj same
      exact absurd low (Nat.not_lt.2 high)
  | more high _ ih =>
    cases h' with
    | last low =>
      obtain ⟨rfl, -⟩ := List.cons.inj same
      exact absurd low (Nat.not_lt.2 high)
    | more _ h' =>
      obtain ⟨rfl, rest⟩ := List.cons.inj same
      obtain ⟨rfl, rfl, rest⟩ := ih h' rest
      exact ⟨rfl, rfl, rest⟩

theorem spells_ofNat (small : n < 128) : Spells [UInt8.ofNat n] n := by
  have value : (UInt8.ofNat n).toNat = n := toNat_ofNat_of_lt (by omega)
  have digit : Spells [UInt8.ofNat n] (UInt8.ofNat n).toNat := .last (by omega)
  rwa [value] at digit

/-- The digits that are written spell the number. -/
theorem spells_numeralDigits (fits : n < 128 ^ (room + 1)) :
    Spells (numeralDigits (room + 1) n) n := by
  induction room generalizing n with
  | zero =>
    have small : n < 128 := fits
    rw [numeralDigits, if_pos small]
    exact spells_ofNat small
  | succ room ih =>
    rw [numeralDigits]
    split
    case isTrue small => exact spells_ofNat small
    case isFalse large =>
      have value : (UInt8.ofNat (128 + n % 128)).toNat = 128 + n % 128 :=
        toNat_ofNat_of_lt (by omega)
      have digits := Spells.more (b := UInt8.ofNat (128 + n % 128)) (by omega)
        (ih (n := n / 128) (Nat.div_lt_of_lt_mul (by rwa [Nat.mul_comm, ← Nat.pow_succ])))
      rwa [value, show 128 + n % 128 - 128 + 128 * (n / 128) = n by omega] at digits

/-- Any other spelling is longer than the one that is written. -/
theorem Spells.eq_or_lt (h : Spells a n) (fits : n < 128 ^ (room + 1)) :
    a = numeralDigits (room + 1) n ∨ (numeralDigits (room + 1) n).length < a.length := by
  induction h generalizing room with
  | last low =>
    rw [numeralDigits, if_pos low, UInt8.ofNat_toNat]
    exact .inl rfl
  | @more b bs n high h ih =>
    have bound := b.toNat_lt
    have some := h.length_pos
    rw [numeralDigits]
    split
    case isTrue small =>
      right
      rw [List.length_singleton, List.length_cons]
      omega
    case isFalse large =>
      have digit : 128 + (b.toNat - 128 + 128 * n) % 128 = b.toNat := by omega
      have others : (b.toNat - 128 + 128 * n) / 128 = n := by omega
      rw [digit, others, UInt8.ofNat_toNat]
      obtain _ | room := room
      · omega
      have within : n < 128 ^ (room + 1) := by
        rw [Nat.pow_succ] at fits
        omega
      obtain rfl | longer := ih within
      · exact .inl rfl
      · exact .inr (Nat.succ_lt_succ longer)

/-- A length has many spellings, and the numeral is the shortest of them. -/
theorem spells_numeral (fits : n < UInt32.size) :
    Spells (numeral n) n ∧ ∀ a, Spells a n → a ≠ numeral n → (numeral n).length < a.length := by
  have room : n < 128 ^ (4 + 1) := Nat.lt_trans fits (by decide)
  exact ⟨spells_numeralDigits room, fun a h other => (h.eq_or_lt room).resolve_left other⟩

/-! ### Parts of encodings, and more than encodings -/

namespace Codec

variable {α : Type} {c : Codec α} {v : α} {bs : Bytes}

/-- What stands behind an encoding is not ignored. -/
theorem Faithful.decode_append (h : c.Faithful) (written : c.write v = .ok bs) {more : Bytes}
    (some : more ≠ []) : c.decode (bs ++ more) = .error .remainingInput := by
  cases more with
  | nil => exact absurd rfl some
  | cons b rest =>
    have read := h v bs (b :: rest) written
    simp only [Codec.decode, read]

/-- A part of an encoding is not accepted: what it would be read as could not be written as both. -/
theorem Canonical.decode_take (h : c.Canonical) (written : c.write v = .ok bs) {n : Nat}
    (short : n < bs.length) : ∃ fault, c.decode (bs.take n) = .error fault := by
  cases decoded : c.decode (bs.take n) with
  | error fault => exact ⟨fault, rfl⟩
  | ok w =>
    have part := h.faithful w (bs.take n) (bs.drop n) (h.decode_eq_ok.1 decoded)
    have whole := h.faithful v bs [] written
    rw [List.append_nil] at whole
    rw [List.take_append_drop, whole] at part
    have behind : [] = bs.drop n := congrArg Prod.snd (Except.ok.inj part)
    have nothing := congrArg List.length behind
    rw [List.length_nil, List.length_drop] at nothing
    omega

/-- A pair is written as its first value and then its second one. -/
theorem pair_write_eq_ok {β : Type} {d : Codec β} {p : α × β} : (c.pair d).write p = .ok bs ↔
    ∃ first second, c.write p.1 = .ok first ∧ d.write p.2 = .ok second ∧ bs = first ++ second := by
  simp only [Codec.pair, bind_eq_ok, pure, Except.pure, Except.ok.injEq]
  exact ⟨fun ⟨first, h₁, second, h₂, same⟩ => ⟨first, second, h₁, h₂, same.symm⟩,
    fun ⟨first, second, h₁, h₂, same⟩ => ⟨first, h₁, second, h₂, same.symm⟩⟩

/-- A pointer is written as its 36 bytes. -/
theorem pointer_write_eq_ok {p : Pointer} : pointer.write p = .ok bs ↔ bs = p.toBytes :=
  ⟨fun same => (Except.ok.inj same).symm, fun same => congrArg Except.ok same.symm⟩

/-- A byte string is written behind its length. -/
theorem bytes_write_eq_ok {content : Bytes} : bytes.write content = .ok bs ↔
    content.length ≤ maxLength ∧ bs = numeral content.length ++ content := by
  simp only [bytes, bind_eq_ok, writeLength_eq_ok, pure, Except.pure, Except.ok.injEq]
  exact ⟨fun ⟨_, ⟨short, rfl⟩, same⟩ => ⟨short, same.symm⟩,
    fun ⟨short, same⟩ => ⟨_, ⟨short, rfl⟩, same.symm⟩⟩

theorem canonical_lockRecord : lockRecord.Canonical :=
  (canonical_pointer.pair (canonical_u32.pair canonical_bytes)).iso (fun _ => rfl) fun _ => rfl

theorem canonical_output : output.Canonical :=
  (canonical_pointer.pair (canonical_pointer.pair (canonical_pointer.pair
    (canonical_lockRecord.pair canonical_bytes)))).iso (fun _ => rfl) fun _ => rfl

end Codec

end Wire

/-! ### Records -/

namespace Output

open Wire

/-- The lengths in an output are ones the format admits. -/
def Fits (o : Output) : Prop := o.lock.data.length ≤ maxLength ∧ o.state.length ≤ maxLength

/-- The fields of an output one after the other, for given spellings of the lengths of the data of
its lock and of its state. -/
def layout (o : Output) (dataLength stateLength : Bytes) : Bytes :=
  o.origin.toBytes ++ o.location.toBytes ++ o.classPtr.toBytes ++ o.lock.origin.toBytes ++
    littleEndian 4 o.lock.kind.toNat ++ dataLength ++ o.lock.data ++ stateLength ++ o.state

/-- The fields of fixed width. -/
def head (o : Output) : Bytes :=
  o.origin.toBytes ++ o.location.toBytes ++ o.classPtr.toBytes ++ o.lock.origin.toBytes ++
    littleEndian 4 o.lock.kind.toNat

theorem length_head (o : Output) : o.head.length = 148 := by simp [head]

theorem layout_eq (o : Output) (a b : Bytes) :
    o.layout a b = o.head ++ (a ++ (o.lock.data ++ (b ++ o.state))) := by
  simp only [layout, head, List.append_assoc]

/-- The record of an output. -/
def record (o : Output) : Bytes :=
  o.layout (numeral o.lock.data.length) (numeral o.state.length)

variable {o : Output} {bs : Bytes}

/-- A lock is written as the origin of its jig, its kind, and its data behind their length. -/
theorem lockRecord_write_eq_ok {lock : LockRecord} : Codec.lockRecord.write lock = .ok bs ↔
    lock.data.length ≤ maxLength ∧ bs = lock.origin.toBytes ++
      (littleEndian 4 lock.kind.toNat ++ (numeral lock.data.length ++ lock.data)) := by
  refine Codec.pair_write_eq_ok.trans ?_
  simp only [Codec.pair_write_eq_ok, Codec.pointer_write_eq_ok, Codec.bytes_write_eq_ok]
  constructor
  · rintro ⟨_, _, rfl, ⟨_, _, ⟨⟩, ⟨short, rfl⟩, rfl⟩, rfl⟩
    exact ⟨short, rfl⟩
  · rintro ⟨short, rfl⟩
    exact ⟨_, _, rfl, ⟨_, _, rfl, ⟨short, rfl⟩, rfl⟩, rfl⟩

/-- An output whose lengths fit is written as its record, and no other one is written. -/
theorem toBytes_eq_ok : o.toBytes = .ok bs ↔ o.Fits ∧ bs = o.record := by
  refine Codec.pair_write_eq_ok.trans ?_
  simp only [Codec.pair_write_eq_ok, Codec.pointer_write_eq_ok, Codec.bytes_write_eq_ok,
    lockRecord_write_eq_ok, record, layout, List.append_assoc]
  constructor
  · rintro ⟨_, _, rfl, ⟨_, _, rfl, ⟨_, _, rfl, lock, rfl⟩, rfl⟩, rfl⟩
    obtain ⟨_, _, ⟨data, rfl⟩, ⟨state, rfl⟩, rfl⟩ := lock
    exact ⟨⟨data, state⟩, by simp only [List.append_assoc]⟩
  · rintro ⟨⟨data, state⟩, rfl⟩
    refine ⟨_, _, rfl, ⟨_, _, rfl, ⟨_, _, rfl,
      ⟨_, _, ⟨data, rfl⟩, ⟨state, rfl⟩, rfl⟩, rfl⟩, rfl⟩, ?_⟩
    simp only [List.append_assoc]

/-- A byte string is accepted as an output if and only if it is the record of this output. -/
theorem ofBytes_eq_ok : ofBytes bs = .ok o ↔ o.Fits ∧ bs = o.record :=
  Codec.canonical_output.decode_eq_ok.trans toBytes_eq_ok

/-- Where something is accepted that has the layout of a record, its lengths are spelled by their
numerals. -/
theorem eq_numeral_of_ofBytes {o' : Output} {a b : Bytes} (ha : Spells a o.lock.data.length)
    (hb : Spells b o.state.length) (accepted : ofBytes (o.layout a b) = .ok o') :
    a = numeral o.lock.data.length ∧ b = numeral o.state.length := by
  obtain ⟨⟨data, state⟩, same⟩ := ofBytes_eq_ok.1 accepted
  have small : maxLength < UInt32.size := by decide
  have ha' := (spells_numeral (Nat.lt_of_le_of_lt data small)).1
  have hb' := (spells_numeral (Nat.lt_of_le_of_lt state small)).1
  rw [record, layout_eq, layout_eq] at same
  obtain ⟨-, same⟩ := List.append_inj same ((length_head o).trans (length_head o').symm)
  obtain ⟨rfl, dataLength, same⟩ := ha.append_inj ha' same
  obtain ⟨-, same⟩ := List.append_inj same dataLength
  obtain ⟨rfl, stateLength, -⟩ := hb.append_inj hb' same
  exact ⟨by rw [dataLength], by rw [stateLength]⟩

/-- The record of an output is the row of its fields, in which each pointer takes the 36 bytes that
it has everywhere, and the two lengths are spelled as short as possible. Every output whose lengths
the format admits is written as its record and read back from it. Nothing else is accepted: whatever
is read as an output is its record, so a record is not accepted if something is missing at its end
or stands behind it, or if a length is spelled in another way. -/
theorem record_canonical :
    (∀ o : Output, o.Fits → o.toBytes = .ok o.record ∧ ofBytes o.record = .ok o) ∧
      (∀ n ≤ maxLength, Spells (numeral n) n ∧
        ∀ a, Spells a n → a ≠ numeral n → (numeral n).length < a.length) ∧
      (∀ p : Pointer, p.toBytes.length = 36 ∧ Pointer.ofBytes p.toBytes = .ok p) ∧
      (∀ (bs : Bytes) (o : Output), ofBytes bs = .ok o → o.toBytes = .ok bs) ∧
      (∀ (o : Output) (n : Nat), o.Fits → n < o.record.length →
        ∃ fault, ofBytes (o.record.take n) = .error fault) ∧
      (∀ (o : Output) (more : Bytes), o.Fits → more ≠ [] →
        ofBytes (o.record ++ more) = .error .remainingInput) ∧
      ∀ (o : Output) (a b : Bytes), Spells a o.lock.data.length → Spells b o.state.length →
        a ≠ numeral o.lock.data.length ∨ b ≠ numeral o.state.length →
          ∃ fault, ofBytes (o.layout a b) = .error fault := by
  have written (o : Output) (fits : o.Fits) : o.toBytes = .ok o.record :=
    toBytes_eq_ok.2 ⟨fits, rfl⟩
  refine ⟨fun o fits => ⟨written o fits, ofBytes_eq_ok.2 ⟨fits, rfl⟩⟩, fun n short => ?_,
    fun p => ⟨p.length_toBytes, p.ofBytes_toBytes⟩, fun bs o accepted => ?_,
    fun o n fits short => ?_, fun o more fits some => ?_, fun o a b ha hb other => ?_⟩
  · exact spells_numeral (Nat.lt_of_le_of_lt short (by decide))
  · exact Codec.canonical_output.decode_eq_ok.1 accepted
  · exact Codec.canonical_output.decode_take (written o fits) short
  · exact Codec.canonical_output.faithful.decode_append (written o fits) some
  · cases accepted : ofBytes (o.layout a b) with
    | error fault => exact ⟨fault, rfl⟩
    | ok o' =>
      obtain ⟨first, second⟩ := eq_numeral_of_ofBytes ha hb accepted
      exact absurd second (other.resolve_left (not_not_intro first))

/-! ### An output with a long state -/

/-- A jig with a lock of an unknown kind, whose state is so long that its length takes two
digits. -/
def sealed : Output where
  origin := ⟨.zero 32, 2⟩
  location := ⟨.zero 32, 4⟩
  classPtr := ⟨.zero 32, 0⟩
  lock := ⟨⟨.zero 32, 2⟩, 99, [0xaa]⟩
  state := List.replicate 200 7

/-- Its state has the length 200, which is `[0xc8, 0x01]`. The length of the data of its lock may
not be spelled as `[0x81, 0x00]`. -/
theorem record_canonical_sealed :
    sealed.Fits ∧ sealed.toBytes = .ok sealed.record ∧ ofBytes sealed.record = .ok sealed ∧
      numeral sealed.state.length = [0xc8, 0x01] ∧
      (∃ fault, ofBytes (sealed.record.take 148) = .error fault) ∧
      ofBytes (sealed.record ++ [0]) = .error .remainingInput ∧
      ∃ fault, ofBytes (sealed.layout [0x81, 0x00] [0xc8, 0x01]) = .error fault := by
  obtain ⟨encoded, shortest, -, -, parts, longer, spelled⟩ := record_canonical
  have length : sealed.state.length = 200 := List.length_replicate
  have fits : sealed.Fits := ⟨by decide, by rw [length]; decide⟩
  have digits : numeral sealed.state.length = [0xc8, 0x01] := by rw [length]; decide
  have size : 148 < sealed.record.length := by
    rw [record, layout_eq, List.length_append, length_head, digits, List.length_append]
    exact Nat.lt_add_of_pos_right (Nat.add_pos_left (by decide) _)
  have one : Spells [0x81, 0x00] sealed.lock.data.length := .more (by decide) (.last (by decide))
  have state : Spells [0xc8, 0x01] sealed.state.length :=
    digits ▸ (shortest sealed.state.length (by rw [length]; decide)).1
  exact ⟨fits, (encoded _ fits).1, (encoded _ fits).2, digits, parts _ _ fits size,
    longer _ _ fits (List.cons_ne_nil _ _), spelled _ _ _ one state (.inl (by decide))⟩

end Output

end JigLedger
