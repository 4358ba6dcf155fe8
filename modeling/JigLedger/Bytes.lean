/-!
# Byte strings

Byte strings are lists, so that readers and writers are plain recursions on them.
`Block n` is a byte string of exactly `n` bytes; identifiers and digests are blocks.
`littleEndian` and `ofLittleEndian` are inverse to each other on strings of one width.
-/

namespace JigLedger

/-- A string of bytes. -/
abbrev Bytes := List UInt8

/-- The `width` low bytes of a number, least significant first. -/
def littleEndian : (width : Nat) → Nat → Bytes
  | 0, _ => []
  | w + 1, n => UInt8.ofNat n :: littleEndian w (n / 256)

/-- The number whose bytes, least significant first, are given. -/
def ofLittleEndian : Bytes → Nat
  | [] => 0
  | b :: bs => b.toNat + 256 * ofLittleEndian bs

/-- The number whose bytes, most significant first, are given. -/
def ofBigEndian (bs : Bytes) : Nat :=
  bs.foldl (fun n b => 256 * n + b.toNat) 0

/-- The `width` low bytes of a number, most significant first. -/
def bigEndian (width n : Nat) : Bytes :=
  (littleEndian width n).reverse

@[simp] theorem length_littleEndian (w n : Nat) : (littleEndian w n).length = w := by
  induction w generalizing n with
  | zero => rfl
  | succ w ih => simp [littleEndian, ih]

/-- The number of byte strings of a width. -/
def stringCount : (width : Nat) → Nat
  | 0 => 1
  | w + 1 => 256 * stringCount w

theorem ofLittleEndian_lt (bs : Bytes) : ofLittleEndian bs < stringCount bs.length := by
  induction bs with
  | nil => simp [ofLittleEndian, stringCount]
  | cons b bs ih =>
    have := b.toNat_lt
    simp only [ofLittleEndian, List.length_cons, stringCount]
    omega

theorem ofLittleEndian_littleEndian (w n : Nat) :
    ofLittleEndian (littleEndian w n) = n % stringCount w := by
  induction w generalizing n with
  | zero => simp [littleEndian, ofLittleEndian, stringCount, Nat.mod_one]
  | succ w ih =>
    rw [littleEndian, ofLittleEndian, ih, stringCount, Nat.mod_mul]
    simp

theorem littleEndian_ofLittleEndian (bs : Bytes) :
    littleEndian bs.length (ofLittleEndian bs) = bs := by
  induction bs with
  | nil => rfl
  | cons b bs ih =>
    have hb := b.toNat_lt
    have hdiv : (b.toNat + 256 * ofLittleEndian bs) / 256 = ofLittleEndian bs := by omega
    have hmod : UInt8.ofNat (b.toNat + 256 * ofLittleEndian bs) = b := by
      apply UInt8.toNat_inj.1
      simp only [UInt8.toNat_ofNat']
      omega
    simp [littleEndian, ofLittleEndian, hdiv, hmod, ih]

/-- A byte string of exactly `n` bytes. -/
structure Block (n : Nat) where
  bytes : Bytes
  length_eq : bytes.length = n
deriving DecidableEq, Repr

namespace Block

theorem ext_bytes {n : Nat} {a b : Block n} (h : a.bytes = b.bytes) : a = b := by
  cases a; cases b; simp_all

/-- The byte string as a block, when it has the right length. -/
def ofBytes? (n : Nat) (bs : Bytes) : Option (Block n) :=
  if h : bs.length = n then some ⟨bs, h⟩ else none

/-- The block of `n` zero bytes. -/
def zero (n : Nat) : Block n := ⟨List.replicate n 0, by simp⟩

instance (n : Nat) : Inhabited (Block n) := ⟨zero n⟩

/-- Blocks are ordered as their bytes, first difference first. -/
instance (n : Nat) : Ord (Block n) := ⟨fun a b => compare a.bytes b.bytes⟩

theorem compare_def {n : Nat} (a b : Block n) : compare a b = compare a.bytes b.bytes := rfl

instance (n : Nat) : Std.TransOrd (Block n) where
  eq_swap {a b} :=
    (Std.OrientedCmp.eq_swap : compare a.bytes b.bytes = (compare b.bytes a.bytes).swap)
  isLE_trans {a b c} h k :=
    (Std.TransCmp.isLE_trans (h : (compare a.bytes b.bytes).isLE)
      (k : (compare b.bytes c.bytes).isLE) : (compare a.bytes c.bytes).isLE)

instance (n : Nat) : Std.LawfulEqOrd (Block n) where
  compare_self {a} := (Std.ReflCmp.compare_self : compare a.bytes a.bytes = .eq)
  eq_of_compare {a b} h :=
    ext_bytes (Std.LawfulEqCmp.eq_of_compare (h : compare a.bytes b.bytes = .eq))

@[simp] theorem ofBytes?_bytes {n : Nat} (b : Block n) : ofBytes? n b.bytes = some b := by
  simp [ofBytes?, b.length_eq]

theorem ofBytes?_eq_some_iff {n : Nat} {bs : Bytes} {b : Block n} :
    ofBytes? n bs = some b ↔ bs = b.bytes := by
  constructor
  · intro h
    unfold ofBytes? at h
    split at h
    · cases h; rfl
    · cases h
  · rintro rfl; simp

end Block

end JigLedger
