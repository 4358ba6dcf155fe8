import JigLedger.Lock.Record
import JigLedger.Proofs.Wire.Codec

/-!
# What is read is what would be written

A reader is exact for a form of values if whatever it accepts is in this form: numerals have no
superfluous digits, truth values no other bytes than 0 and 1, and the keys of a map increase. A
codec that is faithful and exact is canonical: each value has one encoding, and every byte string
that is accepted is the encoding of the value that is read from it.
-/

namespace JigLedger.Wire

variable {α β κ ν : Type} {input rest : Bytes}

/-- Reading in two steps succeeds if each of them does. -/
theorem read_bind_eq_ok {m : Reader α} {f : α → Reader β} {b : β} :
    (m >>= f) input = .ok (b, rest) ↔
      ∃ a next, m input = .ok (a, next) ∧ f a next = .ok (b, rest) := by
  change (m input >>= fun p => f p.1 p.2) = _ ↔ _
  rw [bind_eq_ok]
  exact ⟨fun ⟨⟨a, next⟩, h⟩ => ⟨a, next, h⟩, fun ⟨a, next, h⟩ => ⟨(a, next), h⟩⟩

theorem read_pure_eq_ok {a b : α} :
    (pure a : Reader α) input = .ok (b, rest) ↔ a = b ∧ input = rest := by
  change Except.ok (a, input) = _ ↔ _
  simp

/-- Whatever is read has stood in the given form in front of the rest. -/
def Exact (m : Reader α) (form : α → Bytes → Prop) : Prop :=
  ∀ input a rest, m input = .ok (a, rest) → ∃ bs, form a bs ∧ input = bs ++ rest

/-! ### Pieces -/

theorem readByte_eq_ok {b : UInt8} : readByte input = .ok (b, rest) ↔ input = b :: rest := by
  cases input <;> simp [readByte]

theorem readBytes_eq_ok {n : Nat} {bs : Bytes} :
    readBytes n input = .ok (bs, rest) ↔ bs.length = n ∧ input = bs ++ rest := by
  rw [readBytes]
  split
  case isTrue enough =>
    constructor
    · rintro ⟨⟩
      exact ⟨List.length_take_of_le enough, (List.take_append_drop n input).symm⟩
    · rintro ⟨rfl, rfl⟩
      simp
  case isFalse short =>
    constructor
    · intro given
      cases given
    · rintro ⟨rfl, rfl⟩
      simp at short

/-- Digits that are read are those of the number, and only the first digit may be zero without
another one in front of it. -/
theorem readDigits_eq_ok {room n : Nat} {first : Bool}
    (h : readDigits room first input = .ok (n, rest)) :
    input = numeralDigits room n ++ rest ∧ (first = true ∨ n ≠ 0) := by
  induction room generalizing first input n with
  | zero => cases h
  | succ room ih =>
    obtain ⟨b, next, here, more⟩ := read_bind_eq_ok.1 h
    rw [readByte_eq_ok] at here
    subst here
    have bound : b.toNat < 256 := b.toNat_lt
    split at more
    case isTrue low =>
      have small : b.toNat < 128 := low
      split at more
      case isTrue => cases more
      case isFalse minimal =>
        obtain ⟨rfl, rfl⟩ := read_pure_eq_ok.1 more
        refine ⟨?_, ?_⟩
        · rw [numeralDigits, if_pos small, UInt8.ofNat_toNat]
          rfl
        · rcases first with _ | _
          · right
            intro zero
            have : b = 0 := UInt8.toNat_inj.1 zero
            simp [this] at minimal
          · exact .inl rfl
    case isFalse high =>
      have large : 128 ≤ b.toNat := Nat.le_of_not_lt high
      obtain ⟨m, next', tail, last⟩ := read_bind_eq_ok.1 more
      obtain ⟨rfl, rfl⟩ := read_pure_eq_ok.1 last
      obtain ⟨rfl, nonzero⟩ := ih tail
      have nonzero : m ≠ 0 := by simpa using nonzero
      have above : ¬ b.toNat - 128 + 128 * m < 128 := by omega
      have low : 128 + (b.toNat - 128 + 128 * m) % 128 = b.toNat := by omega
      have quotient : (b.toNat - 128 + 128 * m) / 128 = m := by omega
      refine ⟨?_, .inr (by omega)⟩
      rw [numeralDigits, if_neg above, low, quotient, UInt8.ofNat_toNat]
      rfl

theorem exact_readNumeral : Exact readNumeral fun n bs => bs = numeral n := by
  intro input n rest h
  obtain ⟨m, next, read, fits⟩ := read_bind_eq_ok.1 h
  split at fits
  case isFalse => cases fits
  case isTrue =>
    obtain ⟨rfl, rfl⟩ := read_pure_eq_ok.1 fits
    exact ⟨_, rfl, (readDigits_eq_ok read).1⟩

theorem exact_readLength : Exact readLength fun n bs => writeLength n = .ok bs := by
  intro input n rest h
  obtain ⟨m, next, numbered, checked⟩ := read_bind_eq_ok.1 h
  obtain ⟨_, rfl, rfl⟩ := exact_readNumeral _ _ _ numbered
  split at checked
  case isFalse => cases checked
  case isTrue short =>
    obtain ⟨rfl, rfl⟩ := read_pure_eq_ok.1 checked
    exact ⟨numeral m, writeLength_eq_ok.2 ⟨short, rfl⟩, rfl⟩

/-! ### Several values -/

/-- If each value has stood in its form, so have several. -/
theorem Exact.many {item : Reader α} {form : α → Bytes → Prop} (h : Exact item form) (n : Nat) :
    Exact (readMany item n) fun items bs =>
      items.length = n ∧ ∃ chunks, List.Forall₂ form items chunks ∧ bs = chunks.flatten := by
  induction n with
  | zero =>
    intro input items rest read
    obtain ⟨rfl, rfl⟩ := read_pure_eq_ok.1 read
    exact ⟨[], ⟨rfl, [], .nil, rfl⟩, rfl⟩
  | succ n ih =>
    intro input items rest read
    obtain ⟨a, next, here, more⟩ := read_bind_eq_ok.1 read
    obtain ⟨others, next', tail, last⟩ := read_bind_eq_ok.1 more
    obtain ⟨rfl, rfl⟩ := read_pure_eq_ok.1 last
    obtain ⟨bs, inForm, rfl⟩ := h _ _ _ here
    obtain ⟨_, ⟨rfl, chunks, each, rfl⟩, rfl⟩ := ih _ _ _ tail
    exact ⟨bs ++ chunks.flatten, ⟨rfl, bs :: chunks, .cons inForm each, rfl⟩,
      (List.append_assoc _ _ _).symm⟩

/-- The bytes that are read along with a value are those of its form. -/
theorem Exact.span {m : Reader α} {form : α → Bytes → Prop} (h : Exact m form) :
    Exact (readSpan m) fun r bs => r.2 = bs ∧ form r.1 bs := by
  intro input ⟨a, bs⟩ rest read
  obtain ⟨⟨a, rest⟩, here, last⟩ := bind_eq_ok.1 read
  obtain ⟨bs, inForm, rfl⟩ := h _ _ _ here
  cases last
  refine ⟨bs, ?_, rfl⟩
  have front : (bs ++ rest).take ((bs ++ rest).length - rest.length) = bs := by
    rw [List.length_append, Nat.add_sub_cancel_right, List.take_left]
  rw [front]
  exact ⟨rfl, inForm⟩

/-- If each key and each value has stood in its form, so have the entries, and their keys have
increased. -/
theorem Exact.entries {key : Reader κ} {value : Reader ν} {keyForm : κ → Bytes → Prop}
    {valueForm : ν → Bytes → Prop} (hk : Exact key keyForm) (hv : Exact value valueForm)
    (n : Nat) (previous : Option Bytes) :
    Exact (readEntries key value n previous) fun entries bs =>
      entries.length = n ∧ ∃ encoded : List (Bytes × Bytes),
        List.Forall₂ (fun entry e => keyForm entry.1 e.1 ∧ valueForm entry.2 e.2) entries encoded ∧
        (encoded.Pairwise fun a b => compare a.1 b.1 = .lt) ∧
        (∀ p, previous = some p → ∀ e ∈ encoded, compare p e.1 = .lt) ∧
        bs = encoded.flatMap fun e => e.1 ++ e.2 := by
  induction n generalizing previous with
  | zero =>
    intro input entries rest read
    obtain ⟨rfl, rfl⟩ := read_pure_eq_ok.1 read
    exact ⟨[], ⟨rfl, [], .nil, .nil, nofun, rfl⟩, rfl⟩
  | succ n ih =>
    intro input entries rest read
    obtain ⟨⟨k, span⟩, next, here, more⟩ := read_bind_eq_ok.1 read
    obtain ⟨bs, ⟨rfl, keyed⟩, rfl⟩ := hk.span _ _ _ here
    dsimp only at more
    split at more
    case isTrue => cases more
    case isFalse ordered =>
      obtain ⟨v, next', there, more⟩ := read_bind_eq_ok.1 more
      obtain ⟨others, next'', tail, last⟩ := read_bind_eq_ok.1 more
      obtain ⟨rfl, rfl⟩ := read_pure_eq_ok.1 last
      obtain ⟨vs, valued, rfl⟩ := hv _ _ _ there
      obtain ⟨_, ⟨rfl, encoded, each, increasing, above, rfl⟩, rfl⟩ := ih _ _ _ _ tail
      have larger : ∀ e ∈ encoded, compare span e.1 = .lt := above span rfl
      refine ⟨(span ++ vs) ++ encoded.flatMap fun e => e.1 ++ e.2,
        ⟨rfl, (span, vs) :: encoded, .cons ⟨keyed, valued⟩ each,
          List.pairwise_cons.2 ⟨larger, increasing⟩, ?_, rfl⟩, by simp⟩
      -- The key before these comes before the first of them, and so before all of them.
      rintro p rfl
      have first : compare p span = .lt := by simpa using ordered
      intro e he
      rcases List.mem_cons.1 he with rfl | he
      · exact first
      · exact Std.TransCmp.lt_trans first (larger e he)

/-! ### Canonical codecs -/

namespace Codec

/-- What is written is read back, and whatever is read is what would be written. -/
structure Canonical (c : Codec α) : Prop where
  faithful : c.Faithful
  exact : Exact c.read fun a bs => c.write a = .ok bs

variable {c : Codec α} {d : Codec β}

theorem canonical_word {width : Nat} {toNat : α → Nat} {ofNat : Nat → α}
    (fits : ∀ a, toNat a < stringCount width) (inverse : ∀ a, ofNat (toNat a) = a)
    (value : ∀ n, n < stringCount width → toNat (ofNat n) = n) :
    (word α width toNat ofNat).Canonical where
  faithful := faithful_word fits inverse
  exact := by
    intro input a rest read
    obtain ⟨bs, next, here, last⟩ := read_bind_eq_ok.1 read
    obtain ⟨rfl, rfl⟩ := readBytes_eq_ok.1 here
    obtain ⟨rfl, rfl⟩ := read_pure_eq_ok.1 last
    refine ⟨bs, ?_, rfl⟩
    have number := value _ (ofLittleEndian_lt bs)
    simp only [word, number, littleEndian_ofLittleEndian]

theorem canonical_u8 : u8.Canonical :=
  canonical_word (fun a => a.toNat_lt) (fun _ => UInt8.ofNat_toNat)
    fun _ h => UInt8.toNat_ofNat_of_lt h

theorem canonical_u16 : u16.Canonical :=
  canonical_word (fun a => a.toNat_lt) (fun _ => UInt16.ofNat_toNat)
    fun _ h => UInt16.toNat_ofNat_of_lt h

theorem canonical_u32 : u32.Canonical :=
  canonical_word (fun a => a.toNat_lt) (fun _ => UInt32.ofNat_toNat)
    fun _ h => UInt32.toNat_ofNat_of_lt h

theorem canonical_u64 : u64.Canonical :=
  canonical_word (fun a => a.toNat_lt) (fun _ => UInt64.ofNat_toNat)
    fun _ h => UInt64.toNat_ofNat_of_lt h

theorem canonical_i8 : i8.Canonical :=
  canonical_word (fun a => a.toUInt8.toNat_lt) (fun a => by simp) fun n h => by
    rw [UInt8.toUInt8_toInt8]
    exact UInt8.toNat_ofNat_of_lt h

theorem canonical_i16 : i16.Canonical :=
  canonical_word (fun a => a.toUInt16.toNat_lt) (fun a => by simp) fun n h => by
    rw [UInt16.toUInt16_toInt16]
    exact UInt16.toNat_ofNat_of_lt h

theorem canonical_i32 : i32.Canonical :=
  canonical_word (fun a => a.toUInt32.toNat_lt) (fun a => by simp) fun n h => by
    rw [UInt32.toUInt32_toInt32]
    exact UInt32.toNat_ofNat_of_lt h

theorem canonical_i64 : i64.Canonical :=
  canonical_word (fun a => a.toUInt64.toNat_lt) (fun a => by simp) fun n h => by
    rw [UInt64.toUInt64_toInt64]
    exact UInt64.toNat_ofNat_of_lt h

theorem canonical_bool : bool.Canonical where
  faithful := by
    rintro b _ rest ⟨⟩
    cases b <;> rfl
  exact := by
    intro input b rest read
    obtain ⟨byte, next, here, more⟩ := read_bind_eq_ok.1 read
    rw [readByte_eq_ok] at here
    subst here
    split at more
    case isTrue zero =>
      obtain ⟨rfl, rfl⟩ := read_pure_eq_ok.1 more
      exact ⟨[0], rfl, by rw [eq_of_beq zero]; rfl⟩
    case isFalse =>
      split at more
      case isTrue one =>
        obtain ⟨rfl, rfl⟩ := read_pure_eq_ok.1 more
        exact ⟨[1], rfl, by rw [eq_of_beq one]; rfl⟩
      case isFalse => cases more

theorem canonical_bytes : bytes.Canonical where
  faithful := faithful_bytes
  exact := by
    intro input bs rest read
    obtain ⟨n, next, here, more⟩ := read_bind_eq_ok.1 read
    obtain ⟨length, written, rfl⟩ := exact_readLength _ _ _ here
    obtain ⟨rfl, rfl⟩ := readBytes_eq_ok.1 more
    refine ⟨length ++ bs, ?_, by rw [List.append_assoc]⟩
    simp only [bytes, written]
    rfl

theorem canonical_text : text.Canonical where
  faithful := faithful_text
  exact := by
    intro input s rest read
    obtain ⟨bs, next, here, more⟩ := read_bind_eq_ok.1 read
    obtain ⟨encoding, written, rfl⟩ := canonical_bytes.exact _ _ _ here
    cases decoded : Utf8.decode? bs with
    | none =>
      rw [decoded] at more
      cases more
    | some s' =>
      rw [decoded] at more
      obtain ⟨rfl, rfl⟩ := read_pure_eq_ok.1 more
      refine ⟨encoding, ?_, rfl⟩
      simp only [text, Utf8.utf8_of_decode? decoded]
      exact written

theorem canonical_block (n : Nat) : (block n).Canonical where
  faithful := faithful_block n
  exact := by
    intro input b rest read
    obtain ⟨bs, next, here, more⟩ := read_bind_eq_ok.1 read
    obtain ⟨-, rfl⟩ := readBytes_eq_ok.1 here
    cases sized : Block.ofBytes? n bs with
    | none =>
      rw [sized] at more
      cases more
    | some b' =>
      rw [sized] at more
      obtain ⟨rfl, rfl⟩ := read_pure_eq_ok.1 more
      exact ⟨b'.bytes, rfl, by rw [Block.ofBytes?_eq_some_iff.1 sized]⟩

theorem Canonical.pair (hc : c.Canonical) (hd : d.Canonical) : (c.pair d).Canonical where
  faithful := hc.faithful.pair hd.faithful
  exact := by
    intro input p rest read
    obtain ⟨a, next, here, more⟩ := read_bind_eq_ok.1 read
    obtain ⟨b, next', there, last⟩ := read_bind_eq_ok.1 more
    obtain ⟨rfl, rfl⟩ := read_pure_eq_ok.1 last
    obtain ⟨first, h₁, rfl⟩ := hc.exact _ _ _ here
    obtain ⟨second, h₂, rfl⟩ := hd.exact _ _ _ there
    refine ⟨first ++ second, ?_, by rw [List.append_assoc]⟩
    simp only [Codec.pair, h₁, h₂]
    rfl

theorem Canonical.iso (h : c.Canonical) {there : α → β} {back : β → α}
    (inverse : ∀ b, there (back b) = b) (retract : ∀ a, back (there a) = a) :
    (c.iso there back).Canonical where
  faithful := h.faithful.iso inverse
  exact := by
    intro input b rest read
    obtain ⟨a, next, here, last⟩ := read_bind_eq_ok.1 read
    obtain ⟨rfl, rfl⟩ := read_pure_eq_ok.1 last
    obtain ⟨bs, written, rfl⟩ := h.exact _ _ _ here
    refine ⟨bs, ?_, rfl⟩
    simp only [Codec.iso, retract]
    exact written

theorem Canonical.list (h : c.Canonical) : (list c).Canonical where
  faithful := h.faithful.list
  exact := by
    intro input items rest read
    obtain ⟨n, next, counted, all⟩ := read_bind_eq_ok.1 read
    obtain ⟨length, hl, rfl⟩ := exact_readLength _ _ _ counted
    obtain ⟨_, ⟨rfl, chunks, each, rfl⟩, rfl⟩ := h.exact.many n _ _ _ all
    refine ⟨length ++ chunks.flatten, ?_, by rw [List.append_assoc]⟩
    simp only [Codec.list, hl, writeMany_eq_ok.2 ⟨chunks, each, rfl⟩]
    rfl

theorem canonical_pointer : pointer.Canonical :=
  ((canonical_block 32).pair canonical_u32).iso (fun _ => rfl) fun _ => rfl

/-! ### Maps -/

/-- Encoded entries with different keys are the same in order if they are the same. -/
theorem sortEntries_eq_of_perm {encoded encoded' : List (Bytes × Bytes)}
    (perm : encoded.Perm encoded') (distinct : (encoded.map (·.1)).Nodup) :
    sortEntries encoded = sortEntries encoded' := by
  have sorted : (sortEntries encoded).Perm encoded := List.mergeSort_perm _ _
  have sorted' : (sortEntries encoded').Perm encoded' := List.mergeSort_perm _ _
  have same : (sortEntries encoded).Perm (sortEntries encoded') :=
    sorted.trans (perm.trans sorted'.symm)
  have keys : ((sortEntries encoded).map (·.1)).Nodup := (sorted.map _).nodup_iff.2 distinct
  refine List.Perm.eq_of_pairwise ?_ (increasing_sortEntries keys)
    (increasing_sortEntries ((same.map _).nodup_iff.1 keys)) same
  intro a b _ _ less greater
  rw [@Std.OrientedCmp.eq_swap _ compare _ a.1 b.1, greater] at less
  cases less

/-- Encoded entries that increase are in order. -/
theorem sortEntries_eq_self {encoded : List (Bytes × Bytes)}
    (increasing : encoded.Pairwise fun a b => compare a.1 b.1 = .lt) :
    sortEntries encoded = encoded := by
  refine List.mergeSort_of_pairwise (increasing.imp ?_)
  intro a b less
  rw [less]
  rfl

theorem nodup_of_increasing {encoded : List (Bytes × Bytes)}
    (increasing : encoded.Pairwise fun a b => compare a.1 b.1 = .lt) :
    (encoded.map (·.1)).Nodup := by
  refine List.pairwise_map.2 (increasing.imp ?_)
  intro a b less same
  rw [same, @Std.ReflCmp.compare_self _ compare _ b.1] at less
  cases less

/-- If each key and each value has one encoding, the entries of a map that is read have different
keys, and they are written as they stood in whatever order they are given. -/
theorem Canonical.map {key : Codec κ} {value : Codec ν} (hk : key.Canonical)
    (hv : value.Canonical) :
    Exact (Codec.map key value).read fun entries bs => (entries.map (·.1)).Nodup ∧
      ∀ entries', entries'.Perm entries → (Codec.map key value).write entries' = .ok bs := by
  intro input entries rest read
  obtain ⟨n, next, counted, all⟩ := read_bind_eq_ok.1 read
  obtain ⟨length, hl, rfl⟩ := exact_readLength _ _ _ counted
  obtain ⟨_, ⟨rfl, encoded, each, increasing, -, rfl⟩, rfl⟩ :=
    hk.exact.entries hv.exact n none _ _ _ all
  have distinct := nodup_of_increasing increasing
  refine ⟨length ++ encoded.flatMap fun e => e.1 ++ e.2,
    ⟨(nodup_encoded hk.faithful each).1 distinct, ?_⟩, by rw [List.append_assoc]⟩
  intro entries' perm
  obtain ⟨encoded', each', moved⟩ := List.perm_comp_forall₂ perm each
  have distinct' := (moved.map _).nodup_iff.2 distinct
  have ordered : sortEntries encoded' = encoded :=
    (sortEntries_eq_of_perm moved distinct').trans (sortEntries_eq_self increasing)
  rw [each.length_eq, ← moved.length_eq] at hl
  exact map_write_eq_ok.2 ⟨encoded', each',
    (writeEntries_eq_ok distinct').2 ⟨length, hl, by rw [ordered]⟩⟩

end Codec

end JigLedger.Wire
