import JigLedger.Identifier
import JigLedger.Proofs.Except
import JigLedger.Proofs.Text
import Mathlib.Data.List.TakeDrop

/-!
# Texts of identifiers

A pointer is read from exactly the texts that show its hash and its index on the two sides of their
last underscore, and an address or a package id from exactly the texts that show its bytes. Bytes
are shown by hexadecimal digits of either case, with or without `0x`, between blanks.
-/

namespace JigLedger

/-! ### Blocks of bytes -/

namespace Hex

variable {n : Nat} {block : Block n} {cs : List Char}

/-- A text shows the bytes of a block. -/
def Shows (cs : List Char) (block : Block n) : Prop :=
  ∃ ds, Wraps cs ds ∧ ds.length = 2 * n ∧ Spells ds block.bytes

/-- A text is a number of hexadecimal digits, with or without `0x` in front of them, between
blanks. -/
def HasDigits (cs : List Char) (count : Nat) : Prop :=
  ∃ ds, Wraps cs ds ∧ ds.length = count ∧ ∀ c ∈ ds, ∃ value, IsDigit c value

/-- A text with two digits for each byte shows some bytes. -/
theorem hasDigits_iff : HasDigits cs (2 * n) ↔ ∃ block : Block n, Shows cs block := by
  constructor
  · rintro ⟨ds, wraps, length, digits⟩
    obtain ⟨bs, size, spells⟩ := exists_spells length digits
    exact ⟨⟨bs, size⟩, ds, wraps, length, spells⟩
  · rintro ⟨block, ds, wraps, length, spells⟩
    exact ⟨ds, wraps, length, spells.isDigit⟩

/-- A text is read as the bytes that it shows, whatever it is read for. -/
theorem readBlock_eq_ok_iff (what : String) {text : String} :
    readBlock n what text = .ok block ↔ Shows text.toList block := by
  have read_eq (bs : Bytes) : read what text = .ok bs ↔ Spells (strip text).toList bs := by
    rw [← decode_utf8_eq_ok_iff, read]
    cases decode (utf8 (strip text)) <;> simp
  rw [readBlock, bind_eq_ok]
  constructor
  case mp =>
    rintro ⟨bs, found, sized⟩
    rcases here : Block.ofBytes? n bs with _ | other <;> rw [here] at sized <;> cases sized
    obtain rfl := Block.ofBytes?_eq_some_iff.1 here
    have spells := (read_eq _).1 found
    exact ⟨_, (toList_strip_eq_iff spells.isDigit).1 rfl, by rw [spells.length, block.length_eq],
      spells⟩
  case mpr =>
    rintro ⟨ds, wraps, -, spells⟩
    have stripped := (toList_strip_eq_iff spells.isDigit).2 wraps
    refine ⟨block.bytes, (read_eq _).2 (stripped ▸ spells), ?_⟩
    rw [Block.ofBytes?_bytes]

/-- The digits of a block show it, with or without `0x` in front of them. -/
theorem shows_digits (block : Block n) {marker : List Char}
    (marked : marker = [] ∨ marker = ['0', 'x'] ∨ marker = ['0', 'X']) :
    Shows (marker ++ digits block.bytes) block := by
  have spells := spells_digits block.bytes
  refine ⟨_, ⟨[], marker, [], nofun, nofun, marked, ?_⟩, ?_, spells⟩
  · rw [List.nil_append, List.append_nil]
  · rw [spells.length, block.length_eq]

end Hex

/-! ### Pointers -/

namespace Pointer

/-- A text is split at the last of its underscores. -/
theorem splitLast_eq_some_iff {cs before after : List Char} :
    splitLast cs = some (before, after) ↔ cs = before ++ '_' :: after ∧ '_' ∉ after := by
  rw [splitLast, List.span_eq_takeWhile_dropWhile]
  constructor
  case mp =>
    intro split
    have parts := List.takeWhile_append_dropWhile (p := (· != '_')) (l := cs.reverse)
    have stops := List.head?_dropWhile_not (· != '_') cs.reverse
    rcases rest : cs.reverse.dropWhile (· != '_') with _ | ⟨c, more⟩ <;>
      simp only [rest] at split stops parts
    · cases split
    · cases split
      obtain rfl : c = '_' := by simpa using stops
      refine ⟨?_, fun mem => ?_⟩
      · rw [← List.reverse_inj, List.reverse_append, List.reverse_reverse, List.reverse_cons,
          List.reverse_reverse, List.append_assoc, List.singleton_append, parts]
      · have other := List.mem_takeWhile_imp (List.mem_reverse.1 mem)
        simp at other
  case mpr =>
    rintro ⟨rfl, last⟩
    have passed : ∀ c ∈ after.reverse, (c != '_') = true := by
      intro c mem
      rw [bne_iff_ne]
      rintro rfl
      exact last (List.mem_reverse.1 mem)
    rw [List.reverse_append, List.reverse_cons, List.append_assoc, List.singleton_append,
      List.takeWhile_append_of_pos passed, List.dropWhile_append_of_pos passed]
    simp

/-- A pointer is read from the texts that show its hash and its index. -/
theorem parse_eq_ok_iff {s : String} {p : Pointer} :
    parse s = .ok p ↔ ∃ before after, s.toList = before ++ '_' :: after ∧ '_' ∉ after ∧
      Hex.Shows before p.id ∧ Numeral.Shows after p.idx.toNat := by
  rw [parse]
  constructor
  case mp =>
    intro read
    rcases split : splitLast s.toList with _ | ⟨before, after⟩ <;> simp only [split] at read
    · cases read
    rcases number : Numeral.parse UInt32.size after with fault | n <;> simp only [number] at read
    · cases read
    obtain ⟨id, hash, returned⟩ := bind_eq_ok.1 read
    cases returned
    obtain ⟨parts, last⟩ := splitLast_eq_some_iff.1 split
    obtain ⟨shown, below⟩ := (Numeral.parse_eq_ok_iff (by decide)).1 number
    have hash := (Hex.readBlock_eq_ok_iff _).1 hash
    rw [String.toList_ofList] at hash
    refine ⟨before, after, parts, last, hash, ?_⟩
    rwa [UInt32.toNat_ofNat_of_lt' below]
  case mpr =>
    rintro ⟨before, after, parts, last, hash, number⟩
    have below : p.idx.toNat < UInt32.size := p.idx.toNat_lt
    have id : Hex.readBlock 32 "pointer" (String.ofList before) = .ok p.id :=
      (Hex.readBlock_eq_ok_iff _).2 (by rwa [String.toList_ofList])
    rw [splitLast_eq_some_iff.2 ⟨parts, last⟩]
    dsimp only
    rw [(Numeral.parse_eq_ok_iff (by decide)).2 ⟨number, below⟩]
    dsimp only
    rw [id]
    simp [bind, Except.bind, pure, Except.pure]

/-- What is written for a pointer shows it. -/
theorem parse_toText (p : Pointer) : parse p.toText = .ok p := by
  refine parse_eq_ok_iff.2 ⟨Hex.digits p.id.bytes, Nat.toDigits 10 p.idx.toNat, ?_, ?_, ?_, ?_⟩
  · change (Hex.encode p.id.bytes ++ "_" ++ p.idx.toNat.repr).toList = _
    simp [Hex.encode]
  · intro mem
    exact absurd (Nat.isDigit_of_mem_toDigits (by decide) (by decide) mem) (by decide)
  · exact Hex.shows_digits p.id (.inl rfl)
  · exact Numeral.shows_toDigits _

end Pointer

/-! ### Addresses and package ids -/

theorem Address.parse_eq_ok_iff {s : String} {a : Address} :
    Address.parse s = .ok a ↔ Hex.Shows s.toList a.block := by
  rw [parse, ← Hex.readBlock_eq_ok_iff "address", bind_eq_ok]
  constructor
  · rintro ⟨block, read, ⟨⟩⟩
    exact read
  · exact fun read => ⟨a.block, read, rfl⟩

theorem PackageId.parse_eq_ok_iff {s : String} {id : PackageId} :
    PackageId.parse s = .ok id ↔ Hex.Shows s.toList id.block := by
  rw [parse, ← Hex.readBlock_eq_ok_iff "package id", bind_eq_ok]
  constructor
  · rintro ⟨block, read, ⟨⟩⟩
    exact read
  · exact fun read => ⟨id.block, read, rfl⟩

namespace Identifier

/-- Identifiers are read back from what is written for them, and they are read from exactly the
texts that show them: a hash and an index that are divided by the last underscore, or bytes. -/
theorem texts_exact :
    (∀ p : Pointer, Pointer.parse p.toText = .ok p) ∧
    (∀ a : Address, Address.parse a.toText = .ok a) ∧
    (∀ id : PackageId, PackageId.parse id.toText = .ok id) ∧
    (∀ (s : String) (p : Pointer), Pointer.parse s = .ok p ↔
      ∃ before after, s.toList = before ++ '_' :: after ∧ '_' ∉ after ∧
        Hex.Shows before p.id ∧ Numeral.Shows after p.idx.toNat) ∧
    (∀ (s : String) (a : Address), Address.parse s = .ok a ↔ Hex.Shows s.toList a.block) ∧
    (∀ (s : String) (id : PackageId), PackageId.parse s = .ok id ↔ Hex.Shows s.toList id.block) ∧
    (∀ s : String, (∃ a, Address.parse s = .ok a) ↔ Hex.HasDigits s.toList 40) ∧
    ∀ s : String, (∃ id, PackageId.parse s = .ok id) ↔ Hex.HasDigits s.toList 64 := by
  refine ⟨Pointer.parse_toText, fun a => ?_, fun id => ?_, fun _ _ => Pointer.parse_eq_ok_iff,
    fun _ _ => Address.parse_eq_ok_iff, fun _ _ => PackageId.parse_eq_ok_iff, fun s => ?_,
    fun s => ?_⟩
  · have shown := Hex.shows_digits a.block (.inr (.inl rfl))
    have text : a.toText.toList = ['0', 'x'] ++ Hex.digits a.block.bytes := by
      change ("0x" ++ Hex.encode a.block.bytes).toList = _
      simp [Hex.encode]
    exact Address.parse_eq_ok_iff.2 (text ▸ shown)
  · have shown := Hex.shows_digits id.block (.inl rfl)
    have text : id.toText.toList = [] ++ Hex.digits id.block.bytes := String.toList_ofList
    exact PackageId.parse_eq_ok_iff.2 (text ▸ shown)
  · simp only [Address.parse_eq_ok_iff]
    rw [Hex.hasDigits_iff (n := 20)]
    exact ⟨fun ⟨a, shown⟩ => ⟨a.block, shown⟩, fun ⟨block, shown⟩ => ⟨⟨block⟩, shown⟩⟩
  · simp only [PackageId.parse_eq_ok_iff]
    rw [Hex.hasDigits_iff (n := 32)]
    exact ⟨fun ⟨id, shown⟩ => ⟨id.block, shown⟩, fun ⟨block, shown⟩ => ⟨⟨block⟩, shown⟩⟩

end Identifier

end JigLedger
