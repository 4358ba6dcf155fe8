import JigLedger.Proofs.Except
import JigLedger.Wire.Codec
import Mathlib.Algebra.Group.Nat.Defs
import Mathlib.Data.List.Nodup
import Mathlib.Data.List.Perm.Basic

/-!
# What is written is read back

A codec is faithful if reading what it writes gives the value back and leaves alone whatever
follows. The basic codecs are faithful, and the ways to build larger codecs keep this. So two
values with the same encoding are equal. A map is read back in the order of its encoded keys.
-/

namespace JigLedger.Wire

variable {α β κ ν : Type} {input rest : Bytes}

/-! ### Pieces -/

/-- Reading goes on behind the first value. -/
theorem read_bind_of_ok {m : Reader α} {f : α → Reader β} {a : α}
    (h : m input = .ok (a, rest)) : (m >>= f) input = f a rest := by
  change (m input >>= fun p => f p.1 p.2) = _
  rw [h]
  rfl

/-- The bytes are read as a value, whatever follows them. -/
def Reads (m : Reader α) (bs : Bytes) (a : α) : Prop := ∀ rest, m (bs ++ rest) = .ok (a, rest)

theorem Reads.done (a : α) : Reads (pure a) [] a := fun _ => rfl

/-- Two values are read one after the other. -/
theorem Reads.bind {m : Reader α} {f : α → Reader β} {bs cs : Bytes} {a : α} {b : β}
    (first : Reads m bs a) (second : Reads (f a) cs b) : Reads (m >>= f) (bs ++ cs) b := by
  intro rest
  rw [List.append_assoc, read_bind_of_ok (first _)]
  exact second rest

theorem readByte_cons (b : UInt8) (rest : Bytes) : readByte (b :: rest) = .ok (b, rest) := rfl

theorem readBytes_append (bs rest : Bytes) : readBytes bs.length (bs ++ rest) = .ok (bs, rest) := by
  simp [readBytes]

theorem toNat_ofNat_of_lt {n : Nat} (h : n < 256) : (UInt8.ofNat n).toNat = n := by
  rw [UInt8.toNat_ofNat', Nat.mod_eq_of_lt h]

/-- A byte below 128 is the last digit. It is zero only if it is the first one as well. -/
theorem readDigits_last {room n : Nat} {first : Bool} (rest : Bytes) (small : n < 128)
    (minimal : first = true ∨ n ≠ 0) :
    readDigits (room + 1) first (UInt8.ofNat n :: rest) = .ok (n, rest) := by
  have value : (UInt8.ofNat n).toNat = n := toNat_ofNat_of_lt (by omega)
  have low : UInt8.ofNat n < 0x80 := by
    rw [UInt8.lt_iff_toNat_lt, value]
    exact small
  have last : (!first && UInt8.ofNat n == 0) = false := by
    rcases minimal with rfl | nonzero
    · rfl
    · have : UInt8.ofNat n ≠ 0 := fun h => nonzero (by rw [← value, h]; rfl)
      simp [this]
  rw [readDigits, read_bind_of_ok (readByte_cons _ _), if_pos low, if_neg (by simp [last]), value]
  rfl

/-- The digits of a number that fits are read back. -/
theorem readDigits_append {room n : Nat} {first : Bool} (rest : Bytes)
    (fits : n < 128 ^ (room + 1)) (minimal : first = true ∨ n ≠ 0) :
    readDigits (room + 1) first (numeralDigits (room + 1) n ++ rest) = .ok (n, rest) := by
  induction room generalizing first n with
  | zero =>
    have small : n < 128 := by simpa using fits
    rw [numeralDigits, if_pos small]
    exact readDigits_last rest small minimal
  | succ room ih =>
    rw [numeralDigits]
    split
    case isTrue small => exact readDigits_last rest small minimal
    case isFalse large =>
      have value : (UInt8.ofNat (128 + n % 128)).toNat = 128 + n % 128 :=
        toNat_ofNat_of_lt (by omega)
      have more : ¬ UInt8.ofNat (128 + n % 128) < 0x80 := by
        rw [UInt8.lt_iff_toNat_lt, value]
        exact Nat.not_lt.2 (Nat.le_add_right _ _)
      have high : n / 128 < 128 ^ (room + 1) := by
        rw [Nat.div_lt_iff_lt_mul (by decide), ← Nat.pow_succ]
        exact fits
      have tail := @ih (n / 128) false high (.inr (by omega))
      rw [List.cons_append, readDigits, read_bind_of_ok (readByte_cons _ _), if_neg more,
        read_bind_of_ok tail, value]
      have sum : 128 + n % 128 - 128 + 128 * (n / 128) = n := by omega
      rw [sum]
      rfl

/-- A numeral is read back. -/
theorem readNumeral_append {n : Nat} (fits : n < UInt32.size) (rest : Bytes) :
    readNumeral (numeral n ++ rest) = .ok (n, rest) := by
  have room : n < 128 ^ 5 := Nat.lt_trans fits (by decide)
  rw [readNumeral, numeral, read_bind_of_ok (readDigits_append rest room (.inl rfl)), if_pos fits]
  rfl

theorem writeLength_eq_ok {n : Nat} {bs : Bytes} :
    writeLength n = .ok bs ↔ n ≤ maxLength ∧ bs = numeral n := by
  rw [writeLength]
  split
  case isTrue short => simp [short, eq_comm]
  case isFalse long => simp [long]

/-- A length is read back. -/
theorem readLength_append {n : Nat} {bs : Bytes} (h : writeLength n = .ok bs) (rest : Bytes) :
    readLength (bs ++ rest) = .ok (n, rest) := by
  obtain ⟨short, rfl⟩ := writeLength_eq_ok.1 h
  have fits : n < UInt32.size := Nat.lt_of_le_of_lt short (by decide)
  rw [readLength, read_bind_of_ok (readNumeral_append fits rest), if_pos short]
  rfl

/-! ### Several values -/

/-- Several values are read one after the other. -/
theorem Reads.many {item : Reader α} {chunks : List Bytes} {items : List α}
    (h : List.Forall₂ (Reads item) chunks items) :
    Reads (readMany item items.length) chunks.flatten items := by
  induction h with
  | nil => exact .done []
  | @cons bs a chunks items here _ ih =>
    have tail : Reads (readMany item items.length >>= fun rest => pure (a :: rest))
        (chunks.flatten ++ []) (a :: items) := ih.bind (.done _)
    rw [List.append_nil] at tail
    exact here.bind tail

/-- The bytes of several values are the bytes of each, one after the other. -/
theorem writeMany_eq_ok {write : Writer α} {items : List α} {bs : Bytes} :
    writeMany write items = .ok bs ↔
      ∃ chunks, List.Forall₂ (fun a chunk => write a = .ok chunk) items chunks ∧
        bs = chunks.flatten := by
  induction items generalizing bs with
  | nil => simp [writeMany, eq_comm]
  | cons a items ih =>
    simp only [writeMany, bind_eq_ok, pure, Except.pure, Except.ok.injEq, ih]
    constructor
    · rintro ⟨first, here, _, ⟨chunks, others, rfl⟩, rfl⟩
      exact ⟨first :: chunks, .cons here others, rfl⟩
    · rintro ⟨_, _ | ⟨here, others⟩, rfl⟩
      exact ⟨_, here, _, ⟨_, others, rfl⟩, rfl⟩

/-- Several values can be written if each of them can. -/
theorem exists_writeMany {write : Writer α} {items : List α} :
    (∃ bs, writeMany write items = .ok bs) ↔ ∀ a ∈ items, ∃ bs, write a = .ok bs := by
  rw [← exists_forall₂]
  constructor
  · rintro ⟨bs, written⟩
    obtain ⟨chunks, each, -⟩ := writeMany_eq_ok.1 written
    exact ⟨chunks, each⟩
  · rintro ⟨chunks, each⟩
    exact ⟨_, writeMany_eq_ok.2 ⟨chunks, each, rfl⟩⟩

/-- A value is read together with the bytes it was read from. -/
theorem Reads.span {m : Reader α} {bs : Bytes} {a : α} (h : Reads m bs a) :
    Reads (readSpan m) bs (a, bs) := by
  intro rest
  simp [readSpan, h rest, Bind.bind, Except.bind, pure, Except.pure]

/-- Entries whose encoded keys increase are read. -/
theorem Reads.entries {key : Reader κ} {value : Reader ν} {encoded : List (Bytes × Bytes)}
    {entries : List (κ × ν)}
    (h : List.Forall₂ (fun e entry => Reads key e.1 entry.1 ∧ Reads value e.2 entry.2)
      encoded entries)
    {previous : Option Bytes}
    (increasing : encoded.Pairwise fun a b => compare a.1 b.1 = .lt)
    (above : ∀ p, previous = some p → ∀ e ∈ encoded, compare p e.1 = .lt) :
    Reads (readEntries key value entries.length previous)
      (encoded.flatMap fun e => e.1 ++ e.2) entries := by
  induction h generalizing previous with
  | nil => exact .done []
  | @cons e entry encoded entries here _ ih =>
    rw [List.pairwise_cons] at increasing
    have inOrder : (previous.any fun p => compare p e.1 != .lt) = false := by
      rcases previous with _ | p
      · rfl
      · simp [above p rfl e (.head _)]
    have above : ∀ p, some e.1 = some p → ∀ e' ∈ encoded, compare p e'.1 = .lt := by
      rintro p ⟨⟩ e' he
      exact increasing.1 e' he
    have tail := ih increasing.2 above
    intro rest
    rw [List.flatMap_cons, List.append_assoc, List.append_assoc, List.length_cons, readEntries,
      read_bind_of_ok (here.1.span _)]
    simp only [inOrder]
    refine (read_bind_of_ok (here.2 _)).trans ?_
    rw [read_bind_of_ok (tail _)]
    rfl

/-! ### Faithful codecs -/

namespace Codec

/-- What a codec writes is read back, whatever follows it. -/
def Faithful (c : Codec α) : Prop :=
  ∀ a bs rest, c.write a = .ok bs → c.read (bs ++ rest) = .ok (a, rest)

variable {c : Codec α} {d : Codec β}

/-- Values with the same encoding are equal. -/
theorem Faithful.injective (h : c.Faithful) {a b : α} {bs : Bytes} (ha : c.write a = .ok bs)
    (hb : c.write b = .ok bs) : a = b := by
  have same := (h a bs [] ha).symm.trans (h b bs [] hb)
  simpa using same

/-- The whole encoding of a value is decoded to this value. -/
theorem Faithful.decode (h : c.Faithful) {a : α} {bs : Bytes} (ha : c.write a = .ok bs) :
    c.decode bs = .ok a := by
  have read := h a bs [] ha
  rw [List.append_nil] at read
  rw [Codec.decode, read]

theorem faithful_word {width : Nat} {toNat : α → Nat} {ofNat : Nat → α}
    (fits : ∀ a, toNat a < stringCount width) (inverse : ∀ a, ofNat (toNat a) = a) :
    (word α width toNat ofNat).Faithful := by
  rintro a _ rest ⟨⟩
  have read := readBytes_append (littleEndian width (toNat a)) rest
  rw [length_littleEndian] at read
  refine (read_bind_of_ok read).trans ?_
  rw [ofLittleEndian_littleEndian, Nat.mod_eq_of_lt (fits a), inverse]
  rfl

theorem faithful_u16 : u16.Faithful :=
  faithful_word (fun a => a.toNat_lt) fun _ => UInt16.ofNat_toNat

theorem faithful_u32 : u32.Faithful :=
  faithful_word (fun a => a.toNat_lt) fun _ => UInt32.ofNat_toNat

theorem faithful_bytes : bytes.Faithful := by
  intro a bs rest h
  simp only [bytes, bind_eq_ok, pure, Except.pure, Except.ok.injEq] at h
  obtain ⟨length, written, rfl⟩ := h
  rw [List.append_assoc]
  exact (read_bind_of_ok (readLength_append written _)).trans (readBytes_append a rest)

theorem faithful_text : text.Faithful := by
  intro s bs rest h
  refine (read_bind_of_ok (faithful_bytes _ bs rest h)).trans ?_
  rw [Utf8.decode?_utf8]
  rfl

theorem faithful_block (n : Nat) : (block n).Faithful := by
  rintro b _ rest ⟨⟩
  have read := readBytes_append b.bytes rest
  rw [b.length_eq] at read
  refine (read_bind_of_ok read).trans ?_
  rw [Block.ofBytes?_bytes]
  rfl

theorem Faithful.pair (hc : c.Faithful) (hd : d.Faithful) : (c.pair d).Faithful := by
  intro p bs rest h
  simp only [Codec.pair, bind_eq_ok, pure, Except.pure, Except.ok.injEq] at h
  obtain ⟨first, h₁, second, h₂, rfl⟩ := h
  rw [List.append_assoc]
  exact (read_bind_of_ok (hc p.1 first _ h₁)).trans (read_bind_of_ok (hd p.2 second rest h₂))

theorem Faithful.iso (h : c.Faithful) {there : α → β} {back : β → α}
    (inverse : ∀ b, there (back b) = b) : (c.iso there back).Faithful := by
  intro b bs rest written
  refine (read_bind_of_ok (h (back b) bs rest written)).trans ?_
  rw [inverse]
  rfl

/-- Several values are read back one after the other. -/
theorem Faithful.readMany (h : c.Faithful) {items : List α} {bs : Bytes} (rest : Bytes)
    (written : writeMany c.write items = .ok bs) :
    readMany c.read items.length (bs ++ rest) = .ok (items, rest) := by
  obtain ⟨chunks, each, rfl⟩ := writeMany_eq_ok.1 written
  have read : List.Forall₂ (Reads c.read) chunks items :=
    (each.imp fun a bs ha rest => h a bs rest ha).flip
  exact Reads.many read rest

theorem Faithful.list (h : c.Faithful) : (list c).Faithful := by
  intro items bs rest written
  simp only [Codec.list, bind_eq_ok, pure, Except.pure, Except.ok.injEq] at written
  obtain ⟨length, hl, all, ha, rfl⟩ := written
  rw [List.append_assoc]
  exact (read_bind_of_ok (readLength_append hl _)).trans (h.readMany rest ha)

/-- A list can be written if it is not too long and each of its items can be written. -/
theorem exists_list_write {items : List α} :
    (∃ bs, (list c).write items = .ok bs) ↔
      items.length ≤ maxLength ∧ ∀ a ∈ items, ∃ bs, c.write a = .ok bs := by
  simp only [← exists_writeMany, Codec.list, bind_eq_ok, writeLength_eq_ok, pure, Except.pure,
    Except.ok.injEq]
  constructor
  · rintro ⟨_, _, ⟨short, -⟩, all, written, -⟩
    exact ⟨short, all, written⟩
  · rintro ⟨short, all, written⟩
    exact ⟨_, _, ⟨short, rfl⟩, all, written, rfl⟩

/-- A list that can be written is not too long. -/
theorem length_le_of_list {items : List α} {bs : Bytes} (written : (list c).write items = .ok bs) :
    items.length ≤ maxLength :=
  (exists_list_write.1 ⟨bs, written⟩).1

/-! ### Maps -/

/-- Encoded entries with different keys are all kept. -/
theorem dropRepeats_of_nodup {entries : List (Bytes × Bytes)} {previous : Option Bytes}
    (h : (entries.map (·.1)).Nodup) (fresh : ∀ e ∈ entries, previous ≠ some e.1) :
    dropRepeats previous entries = entries := by
  induction entries generalizing previous with
  | nil => rfl
  | cons e entries ih =>
    simp only [List.map_cons, List.nodup_cons, List.mem_map, not_exists, not_and] at h
    rw [dropRepeats, if_neg (fresh e (.head _)), ih h.2 fun e' he => ?_]
    simpa [eq_comm] using h.1 e' he

/-- An entry of a map and its encoding. -/
def Entry (key : Codec κ) (value : Codec ν) (e : κ × ν) (bs : Bytes × Bytes) : Prop :=
  key.write e.1 = .ok bs.1 ∧ value.write e.2 = .ok bs.2

variable {key : Codec κ} {value : Codec ν}

/-- Entries whose encoded keys increase are read back. -/
theorem readEntries_append (hk : key.Faithful) (hv : value.Faithful) {entries : List (κ × ν)}
    {encoded : List (Bytes × Bytes)} (rest : Bytes)
    (h : List.Forall₂ (Entry key value) entries encoded) {previous : Option Bytes}
    (increasing : encoded.Pairwise fun a b => compare a.1 b.1 = .lt)
    (above : ∀ p, previous = some p → ∀ e ∈ encoded, compare p e.1 = .lt) :
    readEntries key.read value.read entries.length previous
      (encoded.flatMap (fun e => e.1 ++ e.2) ++ rest) = .ok (entries, rest) := by
  have read : List.Forall₂
      (fun e entry => Reads key.read e.1 entry.1 ∧ Reads value.read e.2 entry.2) encoded entries :=
    (h.imp fun entry e each =>
      ⟨fun rest => hk _ _ rest each.1, fun rest => hv _ _ rest each.2⟩).flip
  exact Reads.entries read increasing above rest

/-- Keys are different if and only if their encodings are. -/
theorem nodup_encoded (hk : key.Faithful) {entries : List (κ × ν)} {encoded : List (Bytes × Bytes)}
    (h : List.Forall₂ (Entry key value) entries encoded) :
    (encoded.map (·.1)).Nodup ↔ (entries.map (·.1)).Nodup := by
  have keys : List.Forall₂ (fun k bs => key.write k = .ok bs) (entries.map (·.1))
      (encoded.map (·.1)) :=
    List.forall₂_map_left_iff.2 (List.forall₂_map_right_iff.2 (h.imp fun _ _ e => e.1))
  have unique : Relator.BiUnique fun k bs => key.write k = .ok bs :=
    ⟨fun _ _ _ ha hb => hk.injective ha hb, fun _ _ _ ha hb => Except.ok.inj (ha.symm.trans hb)⟩
  exact (List.rel_nodup unique keys).symm

/-- Sorted entries with different keys increase. -/
theorem increasing_sortEntries {encoded : List (Bytes × Bytes)}
    (distinct : ((sortEntries encoded).map (·.1)).Nodup) :
    (sortEntries encoded).Pairwise fun a b => compare a.1 b.1 = .lt := by
  have ordered : (sortEntries encoded).Pairwise fun a b => (compare a.1 b.1).isLE = true := by
    refine List.pairwise_mergeSort (fun a b c => Std.TransCmp.isLE_trans) (fun a b => ?_) encoded
    rw [@Std.OrientedCmp.eq_swap _ compare _ b.1 a.1, Bool.or_eq_true]
    cases compare a.1 b.1 <;> simp
  have different : (sortEntries encoded).Pairwise fun a b => a.1 ≠ b.1 :=
    List.pairwise_map.1 distinct
  refine (ordered.and different).imp ?_
  rintro a b ⟨le, ne⟩
  rcases hc : compare a.1 b.1
  · rfl
  · exact absurd (Std.LawfulEqCmp.eq_of_compare hc) ne
  · rw [hc] at le
    cases le

/-- A map is written by its encoded entries. -/
theorem map_write_eq_ok {entries : List (κ × ν)} {bs : Bytes} :
    (map key value).write entries = .ok bs ↔
      ∃ encoded, List.Forall₂ (Entry key value) entries encoded ∧
        writeEntries encoded = .ok bs := by
  simp only [map, bind_eq_ok, mapM_eq_ok, pure, Except.pure, Except.ok.injEq]
  refine exists_congr fun encoded => and_congr_left fun _ => ?_
  constructor
  · intro each
    refine each.imp ?_
    rintro e _ ⟨k, hk, v, hv, rfl⟩
    exact ⟨hk, hv⟩
  · intro each
    exact each.imp fun e bs here => ⟨bs.1, here.1, bs.2, here.2, rfl⟩

/-- Encoded entries with different keys are all written, in order. -/
theorem writeEntries_eq_ok {encoded : List (Bytes × Bytes)}
    (distinct : (encoded.map (·.1)).Nodup) {bs : Bytes} :
    writeEntries encoded = .ok bs ↔ ∃ length, writeLength encoded.length = .ok length ∧
      bs = length ++ (sortEntries encoded).flatMap fun e => e.1 ++ e.2 := by
  have perm : (sortEntries encoded).Perm encoded := List.mergeSort_perm _ _
  have kept : dropRepeats none (sortEntries encoded) = sortEntries encoded :=
    dropRepeats_of_nodup ((perm.map _).nodup_iff.2 distinct) fun _ _ =>
      (Option.some_ne_none _).symm
  simp only [writeEntries, kept, perm.length_eq, bind_eq_ok, pure, Except.pure, Except.ok.injEq,
    @eq_comm _ _ bs]

/-- A map with different keys can be written if it does not have too many entries and each of them
can be written. -/
theorem exists_map_write (hk : key.Faithful) {entries : List (κ × ν)}
    (distinct : (entries.map (·.1)).Nodup) :
    (∃ bs, (map key value).write entries = .ok bs) ↔
      entries.length ≤ maxLength ∧
        ∀ e ∈ entries, (∃ bs, key.write e.1 = .ok bs) ∧ ∃ bs, value.write e.2 = .ok bs := by
  have entry : ∀ e, ((∃ bs, key.write e.1 = .ok bs) ∧ ∃ bs, value.write e.2 = .ok bs) ↔
      ∃ bs, Entry key value e bs := fun e =>
    ⟨fun ⟨⟨k, hk⟩, v, hv⟩ => ⟨(k, v), hk, hv⟩, fun ⟨bs, hk, hv⟩ => ⟨⟨bs.1, hk⟩, bs.2, hv⟩⟩
  simp only [entry, ← exists_forall₂, map_write_eq_ok]
  constructor
  · rintro ⟨_, encoded, each, written⟩
    obtain ⟨_, counted, -⟩ := (writeEntries_eq_ok ((nodup_encoded hk each).2 distinct)).1 written
    rw [← each.length_eq] at counted
    exact ⟨(writeLength_eq_ok.1 counted).1, encoded, each⟩
  · rintro ⟨short, encoded, each⟩
    rw [each.length_eq] at short
    exact ⟨_, encoded, each, (writeEntries_eq_ok ((nodup_encoded hk each).2 distinct)).2
      ⟨_, writeLength_eq_ok.2 ⟨short, rfl⟩, rfl⟩⟩

/-- The entries of a map with different keys are read back, in some order. -/
theorem Faithful.map (hk : key.Faithful) (hv : value.Faithful) {entries : List (κ × ν)}
    (distinct : (entries.map (·.1)).Nodup) {bs : Bytes}
    (written : (Codec.map key value).write entries = .ok bs) (rest : Bytes) :
    ∃ sorted, List.Perm entries sorted ∧
      (Codec.map key value).read (bs ++ rest) = .ok (sorted, rest) := by
  obtain ⟨encoded, entry, written⟩ := map_write_eq_ok.1 written
  have keys := (nodup_encoded hk entry).2 distinct
  obtain ⟨length, hl, rfl⟩ := (writeEntries_eq_ok keys).1 written
  have perm : (sortEntries encoded).Perm encoded := List.mergeSort_perm _ _
  have increasing := increasing_sortEntries ((perm.map _).nodup_iff.2 keys)
  -- The entries in the order in which their encodings are written.
  obtain ⟨sorted, same, each⟩ : ∃ sorted, List.Perm entries sorted ∧
      List.Forall₂ (Entry key value) sorted (sortEntries encoded) := by
    have both : Relation.Comp (List.Forall₂ (Entry key value)) List.Perm entries
      (sortEntries encoded) := ⟨encoded, entry, perm.symm⟩
    rwa [List.forall₂_comp_perm_eq_perm_comp_forall₂] at both
  refine ⟨sorted, same, ?_⟩
  rw [← perm.length_eq, ← each.length_eq] at hl
  rw [List.append_assoc]
  exact (read_bind_of_ok (readLength_append hl _)).trans
    (readEntries_append hk hv rest each increasing nofun)

end Codec

end JigLedger.Wire
