import JigLedger.Package.Basic
import JigLedger.Proofs.Json.Record
import JigLedger.Proofs.Wire.Codec

/-!
# How much a compiler makes

Exports are numbered with 32 bits, so a compiler must not make more of them. The compiler of
packages that have been built already reads the exports from a JSON text, which is one of the
sources. An array in a text has no more items than the text allows for, and sources are not larger
than what can be written.
-/

namespace JigLedger

/-! ### Arrays in a JSON text -/

namespace Json

variable {fuel : Nat} {tokens rest : List Token} {j : Json}

/-- The tokens of a text are not more than its characters. -/
theorem length_lex : ∀ {fuel : Nat} {text : List Char} {tokens : List Token},
    lex fuel text = some tokens → tokens.length ≤ fuel
  | _, [], tokens, h => by
    rw [lex] at h
    cases h
    exact Nat.zero_le _
  | fuel + 1, c :: text, tokens, h => by
    rw [lex] at h
    split at h
    case isTrue => exact Nat.le_succ_of_le (length_lex h)
    case isFalse =>
      obtain ⟨⟨t, rest⟩, -, h⟩ := Option.bind_eq_some_iff.1 h
      obtain ⟨more, others, same⟩ := Option.bind_eq_some_iff.1 h
      cases same
      exact Nat.succ_le_succ (length_lex others)

/-- A value that is read from tokens, with no more than the given fuel. -/
def IsRead (fuel : Nat) (j : Json) : Prop :=
  ∃ room tokens rest, room ≤ fuel ∧ parseValue room tokens = some (j, rest)

theorem IsRead.mono {more : Nat} (h : IsRead fuel j) (enough : fuel ≤ more) : IsRead more j := by
  obtain ⟨room, tokens, rest, small, read⟩ := h
  exact ⟨room, tokens, rest, Nat.le_trans small enough, read⟩

/-- Each item of an array takes some fuel, and it is read with what is left. -/
theorem isRead_of_parseItems : ∀ {fuel : Nat} {tokens rest : List Token} {items : List Json},
    parseItems fuel tokens = some (items, rest) → items.length ≤ fuel ∧ ∀ j ∈ items, IsRead fuel j
  | fuel + 1, tokens, rest, items, h => by
    unfold parseItems at h
    obtain ⟨⟨j, after⟩, first, h⟩ := Option.bind_eq_some_iff.1 h
    dsimp only at h
    have here : IsRead (fuel + 1) j := ⟨fuel, tokens, after, Nat.le_succ fuel, first⟩
    split at h
    · obtain ⟨⟨others, after'⟩, later, same⟩ := Option.bind_eq_some_iff.1 h
      cases same
      obtain ⟨few, read⟩ := isRead_of_parseItems later
      exact ⟨Nat.succ_le_succ few,
        List.forall_mem_cons.2 ⟨here, fun k hk => (read k hk).mono (Nat.le_succ fuel)⟩⟩
    · cases h
      exact ⟨Nat.succ_le_succ (Nat.zero_le fuel), List.forall_mem_singleton.2 here⟩
    · cases h

/-- Each member of an object is read with some of the fuel. -/
theorem isRead_of_parseMembers : ∀ {fuel : Nat} {tokens rest : List Token}
    {members : List (Option String × Json)},
    parseMembers fuel tokens = some (members, rest) → ∀ m ∈ members, IsRead fuel m.2
  | fuel + 1, tokens, rest, members, h => by
    unfold parseMembers at h
    split at h
    case h_2 => cases h
    case h_1 name tokens =>
      obtain ⟨⟨j, after⟩, first, h⟩ := Option.bind_eq_some_iff.1 h
      dsimp only at h
      have here : IsRead (fuel + 1) j := ⟨fuel, tokens, after, Nat.le_succ fuel, first⟩
      split at h
      · obtain ⟨⟨others, after'⟩, later, same⟩ := Option.bind_eq_some_iff.1 h
        cases same
        exact List.forall_mem_cons.2 ⟨here, fun m hm =>
          (isRead_of_parseMembers later m hm).mono (Nat.le_succ fuel)⟩
      · cases h
        exact List.forall_mem_singleton.2 here
      · cases h

/-- An array has no more items than there was fuel. -/
theorem IsRead.array {items : List Json} (h : IsRead fuel (.array items)) :
    items.length ≤ fuel ∧ ∀ j ∈ items, IsRead fuel j := by
  obtain ⟨room, tokens, rest, small, read⟩ := h
  cases room with
  | zero => cases read
  | succ room =>
    unfold parseValue at read
    split at read
    case h_5 =>
      cases read
      exact ⟨Nat.zero_le _, nofun⟩
    case h_6 =>
      obtain ⟨⟨items, after⟩, inside, same⟩ := Option.bind_eq_some_iff.1 read
      cases same
      obtain ⟨few, parts⟩ := isRead_of_parseItems inside
      have enough : room ≤ fuel := Nat.le_of_succ_le small
      exact ⟨Nat.le_trans few enough, fun j hj => (parts j hj).mono enough⟩
    case h_8 =>
      obtain ⟨⟨members, after⟩, -, same⟩ := Option.bind_eq_some_iff.1 read
      cases same
    all_goals cases read

/-- The members of an object are read with the fuel of the object. -/
theorem IsRead.object {members : List (Option String × Json)} (h : IsRead fuel (.object members)) :
    ∀ m ∈ members, IsRead fuel m.2 := by
  obtain ⟨room, tokens, rest, small, read⟩ := h
  cases room with
  | zero => cases read
  | succ room =>
    unfold parseValue at read
    split at read
    case h_6 =>
      obtain ⟨⟨items, after⟩, -, same⟩ := Option.bind_eq_some_iff.1 read
      cases same
    case h_7 =>
      cases read
      exact nofun
    case h_8 =>
      obtain ⟨⟨members, after⟩, inside, same⟩ := Option.bind_eq_some_iff.1 read
      cases same
      exact fun m hm => (isRead_of_parseMembers inside m hm).mono (Nat.le_of_succ_le small)
    all_goals cases read

/-- The fields of a record are read with the fuel of the record. -/
theorem IsRead.fields (h : IsRead fuel j) {names : List String} {fields : List (Option Json)}
    (found : fields? names j = some fields) : ∀ field, some field ∈ fields → IsRead fuel field := by
  intro field mem
  rcases mem_of_fields? found mem with ⟨items, rfl, inside⟩ | ⟨members, rfl, m, inside, rfl⟩
  · exact h.array.2 _ inside
  · exact h.object m inside

/-- Values of a text are read with twice as much fuel as the text has characters. -/
theorem isRead_of_parse {text : String} (h : parse text = some j) :
    IsRead (2 * text.toList.length) j := by
  obtain ⟨tokens, cut, h⟩ := Option.bind_eq_some_iff.1 h
  obtain ⟨⟨k, rest⟩, read, h⟩ := Option.bind_eq_some_iff.1 h
  cases rest with
  | nil =>
    cases h
    exact ⟨_, _, _, Nat.mul_le_mul_left 2 (length_lex cut), read⟩
  | cons => cases h

end Json

/-- A document has no more exports than its text has room for. -/
theorem Abi.Document.length_exports {text : String} {document : Document}
    (h : parse? text = some document) : document.exports.length ≤ 2 * text.toList.length := by
  obtain ⟨j, parsed, h⟩ := Option.bind_eq_some_iff.1 h
  have read := Json.isRead_of_parse parsed
  unfold ofJson? at h
  obtain ⟨fields, found, h⟩ := Option.bind_eq_some_iff.1 h
  split at h
  case h_2 => cases h
  case h_1 version exports imports =>
    obtain ⟨version, -, h⟩ := Option.bind_eq_some_iff.1 h
    obtain ⟨number, -, h⟩ := Option.bind_eq_some_iff.1 h
    obtain ⟨decls, listed, h⟩ := Option.bind_eq_some_iff.1 h
    obtain ⟨others, -, same⟩ := Option.bind_eq_some_iff.1 h
    cases same
    cases exports with
    | none =>
      cases listed
      exact Nat.zero_le _
    | some exports =>
      have read := read.fields found exports (.tail _ (.head _))
      cases exports with
      | array items =>
        rw [← (mapM_eq_some.1 listed).length_eq]
        exact read.array.1
      | _ => cases listed

/-! ### Sources that have an id -/

/-- Every character of a text takes a byte at least. -/
theorem length_le_utf8 (text : String) : text.toList.length ≤ (utf8 text).length := by
  have longer (cs : List Char) : cs.length ≤ cs.utf8Encode.data.toList.length := by
    induction cs with
    | nil => exact Nat.zero_le _
    | cons c cs ih =>
      have byte := c.utf8Size_pos
      rw [List.utf8Encode_cons, List.utf8Encode_singleton]
      simp only [ByteArray.data_append, Array.toList_append, List.length_append, List.length_cons,
        List.data_toByteArray, String.length_utf8EncodeChar]
      omega
  rw [utf8, ← String.utf8Encode_toList]
  exact longer _

namespace Package

/-- Texts that can be written are not longer than what can be written. -/
theorem length_le_of_write {text : String} {bs : Bytes} (h : Wire.Codec.text.write text = .ok bs) :
    text.toList.length ≤ Wire.maxLength := by
  obtain ⟨length, written, -⟩ := bind_eq_ok.1 h
  exact Nat.le_trans (length_le_utf8 text) (Wire.writeLength_eq_ok.1 written).1

theorem length_le_of_contentId {entries : List String} {sources : Sources} {id : PackageId}
    (h : contentId entries sources = .ok id) {name text : String}
    (found : sources.get? name = some text) : text.toList.length ≤ Wire.maxLength := by
  obtain ⟨f, first, rfl⟩ := Option.map_eq_some_iff.1 found
  obtain ⟨payload, written, -⟩ := bind_eq_ok.1 h
  obtain ⟨_, -, rest⟩ := bind_eq_ok.1 written
  obtain ⟨_, files, -⟩ := bind_eq_ok.1 rest
  obtain ⟨encoded, each, -⟩ := bind_eq_ok.1 files
  obtain ⟨length, each⟩ := List.forall₂_iff_get.1 (mapM_eq_ok.1 each)
  obtain ⟨i, rfl⟩ := List.mem_iff_get.1 (List.mem_of_find?_eq_some first)
  obtain ⟨_, -, rest⟩ := bind_eq_ok.1 (each i i.isLt (length ▸ i.isLt))
  obtain ⟨_, body, -⟩ := bind_eq_ok.1 rest
  exact length_le_of_write body

end Package

/-! ### Compilers -/

namespace Compiler

/-- The exports of what is compiled are numbered with 32 bits. Sources that are too large to have an
id do not count. -/
def NumbersExports (compiler : Compiler) : Prop :=
  ∀ entries sources artifacts id, Package.contentId entries sources = .ok id →
    compiler entries sources = .ok artifacts → artifacts.document.exports.length ≤ UInt32.size

theorem numbersExports_disabled : disabled.NumbersExports := nofun

/-- A package that has been built already has only so many exports. -/
theorem numbersExports_prebuilt : prebuilt.NumbersExports := by
  intro entries sources artifacts id content compiled
  unfold prebuilt at compiled
  split at compiled
  case h_2 => cases compiled
  case h_1 entry =>
    split at compiled
    case h_2 => cases compiled
    case h_1 source _ =>
      obtain ⟨⟨stem, wasm⟩, -, compiled⟩ := bind_eq_ok.1 compiled
      dsimp only at compiled
      split at compiled
      case h_2 => cases compiled
      case h_1 text found =>
        split at compiled
        case h_2 => cases compiled
        case h_1 document parsed =>
          cases compiled
          have few := Abi.Document.length_exports parsed
          have short := Package.length_le_of_contentId content found
          have limit : Wire.maxLength = 2 ^ 31 - 1 := rfl
          have numbers : UInt32.size = 2 ^ 32 := rfl
          dsimp only
          omega

end Compiler

end JigLedger
