import JigLedger.Text.Hex
import JigLedger.Text.Numeral
import JigLedger.Text.Quoted
import JigLedger.Digest.Sha256

/-!
# Identifiers

Pointers name jigs, places of jigs and classes; addresses name key holders; package ids name
packages by their content. A pointer is 36 bytes: the 32 bytes of a hash and an index, least
significant byte first. All three are read from and shown as hexadecimal text.
-/

namespace JigLedger

/-- Why text or bytes are no identifier. -/
inductive IdentifierError where
  /-- The text after removing blanks and `0x` is not hexadecimal. -/
  | hex (what text : String) (fault : Hex.Fault)
  /-- The text shows a byte string of another length. -/
  | size (what : String) (expected actual : Nat)
  /-- A pointer's text has no underscore. -/
  | pointerForm (text : String)
  /-- The index in a pointer's text is no numeral below `2³²`. -/
  | pointerIndex (text : String) (fault : Numeral.Fault)
  /-- A pointer of the wrong number of bytes. -/
  | pointerSize (actual : Nat)
  /-- An address of the wrong number of bytes. -/
  | addressSize (actual : Nat)
deriving DecidableEq, Repr

/-- The wording of a hexadecimal fault. -/
def Hex.Fault.message : Hex.Fault → String
  | oddLength => "Odd number of digits"
  | notDigit b position =>
    s!"Invalid character {Quoted.char (Char.ofNat b.toNat)} at position {position}"

/-- The wording of an identifier error. -/
def IdentifierError.message : IdentifierError → String
  | hex what text fault => s!"Invalid {what} hex '{text}': {fault.message}"
  | size what expected actual => s!"Invalid {what}: expected {expected} bytes, got {actual}"
  | pointerForm text => s!"Invalid pointer '{text}': expected <hex>_<idx>"
  | pointerIndex text fault => s!"Invalid pointer index '{text}': {fault.message}"
  | pointerSize actual => s!"pointer must be 36 bytes, got {actual}"
  | addressSize actual => s!"address must be 20 bytes, got {actual}"

namespace Hex

/-- The bytes of a hexadecimal text, which may stand between blanks and begin with `0x`. -/
def read (what text : String) : Except IdentifierError Bytes :=
  let stripped := strip text
  match decode (utf8 stripped) with
  | .ok bytes => .ok bytes
  | .error fault => .error (.hex what stripped fault)

/-- The `n` bytes of a hexadecimal text, which may stand between blanks and begin with `0x`. -/
def readBlock (n : Nat) (what text : String) : Except IdentifierError (Block n) := do
  let bytes ← read what text
  match Block.ofBytes? n bytes with
  | some block => .ok block
  | none => .error (.size what n bytes.length)

end Hex

/-- A hash and an index below it. -/
structure Pointer where
  id : Block 32
  idx : UInt32
deriving DecidableEq, Repr, Inhabited

namespace Pointer

/-- The 36 bytes of a pointer. -/
def toBytes (p : Pointer) : Bytes := p.id.bytes ++ littleEndian 4 p.idx.toNat

/-- The pointer with the given 36 bytes. -/
def ofBytes (bs : Bytes) : Except IdentifierError Pointer :=
  match Block.ofBytes? 32 (bs.take 32), Block.ofBytes? 4 (bs.drop 32) with
  | some id, some idx => .ok ⟨id, UInt32.ofNat (ofLittleEndian idx.bytes)⟩
  | _, _ => .error (.pointerSize bs.length)

/-- The text of a pointer: hash, underscore, index. -/
def toText (p : Pointer) : String := s!"{Hex.encode p.id.bytes}_{p.idx.toNat}"

/-- A text split at its last underscore. -/
def splitLast (cs : List Char) : Option (List Char × List Char) :=
  match cs.reverse.span (· != '_') with
  | (_, []) => none
  | (after, _ :: before) => some (before.reverse, after.reverse)

/-- The pointer that a text shows. The index is read before the hash. -/
def parse (s : String) : Except IdentifierError Pointer :=
  match splitLast s.toList with
  | none => .error (.pointerForm s)
  | some (id, idx) =>
    match Numeral.parse UInt32.size idx with
    | .error fault => .error (.pointerIndex (String.ofList idx) fault)
    | .ok n => do
      let id ← Hex.readBlock 32 "pointer" (String.ofList id)
      return ⟨id, UInt32.ofNat n⟩

/-- Pointers are ordered by hash, then by index. -/
instance : Ord Pointer :=
  ⟨compareLex (compareOn (·.id)) (compareOn (·.idx))⟩

instance : Std.TransOrd Pointer :=
  inferInstanceAs (Std.TransCmp (compareLex (compareOn Pointer.id) (compareOn Pointer.idx)))

instance : Std.LawfulEqOrd Pointer where
  eq_of_compare {a b} h := by
    have h : (compare a.id b.id).then (compare a.idx b.idx) = .eq := h
    rw [Ordering.then_eq_eq] at h
    obtain ⟨h1, h2⟩ := h
    cases a; cases b
    simp_all

@[simp] theorem length_toBytes (p : Pointer) : p.toBytes.length = 36 := by
  simp [toBytes, p.id.length_eq]

@[simp] theorem ofBytes_toBytes (p : Pointer) : ofBytes p.toBytes = .ok p := by
  have htake : p.toBytes.take 32 = p.id.bytes := by
    rw [toBytes, List.take_append_of_le_length (by simp [p.id.length_eq])]
    simp [List.take_of_length_le, p.id.length_eq]
  have hdrop : p.toBytes.drop 32 = littleEndian 4 p.idx.toNat := by
    rw [toBytes, List.drop_append]
    simp [p.id.length_eq]
  have hidx : UInt32.ofNat (ofLittleEndian (littleEndian 4 p.idx.toNat)) = p.idx := by
    rw [ofLittleEndian_littleEndian]
    have := p.idx.toNat_lt
    apply UInt32.toNat_inj.1
    simp only [UInt32.toNat_ofNat', stringCount]
    omega
  simp only [ofBytes, htake, hdrop, Block.ofBytes?_bytes]
  simp [Block.ofBytes?, hidx]

end Pointer

/-- The first 20 bytes of the digest of a public key. -/
structure Address where
  block : Block 20
deriving DecidableEq, Repr, Inhabited

namespace Address

/-- The bytes of an address. -/
def bytes (a : Address) : Bytes := a.block.bytes

/-- The address with the given bytes. -/
def ofBytes (bs : Bytes) : Except IdentifierError Address :=
  match Block.ofBytes? 20 bs with
  | some block => .ok ⟨block⟩
  | none => .error (.addressSize bs.length)

/-- The address of a public key. -/
def ofPublicKey (key : Bytes) : Address :=
  let digest := Sha256.digest key
  ⟨⟨digest.bytes.take 20, by simp [digest.length_eq]⟩⟩

/-- The text of an address. -/
def toText (a : Address) : String := s!"0x{Hex.encode a.bytes}"

/-- The address that a text shows. -/
def parse (s : String) : Except IdentifierError Address := do
  return ⟨← Hex.readBlock 20 "address" s⟩

end Address

/-- The content hash of a package. -/
structure PackageId where
  block : Block 32
deriving DecidableEq, Repr, Inhabited

namespace PackageId

/-- The bytes of a package id. -/
def bytes (id : PackageId) : Bytes := id.block.bytes

/-- The text of a package id. -/
def toText (id : PackageId) : String := Hex.encode id.bytes

/-- The first eight digits of a package id, for messages. -/
def short (id : PackageId) : String := Hex.encode (id.bytes.take 4)

/-- The package id that a text shows. -/
def parse (s : String) : Except IdentifierError PackageId := do
  return ⟨← Hex.readBlock 32 "package id" s⟩

/-- Package ids are ordered by their bytes. -/
instance : Ord PackageId := ⟨compareOn (·.block)⟩

instance : Std.TransOrd PackageId :=
  inferInstanceAs (Std.TransCmp (compareOn PackageId.block))

instance : Std.LawfulEqOrd PackageId where
  eq_of_compare {a b} h := by
    have h : compare a.block b.block = .eq := h
    cases a; cases b
    simp_all

end PackageId

/-- The pointer to the export of a package with the given index. -/
def Pointer.ofExport (package : PackageId) (idx : UInt32) : Pointer := ⟨package.block, idx⟩

end JigLedger
