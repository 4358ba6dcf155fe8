import JigLedger.Identifier

/-!
# Types and layouts

The types of fields, arguments and results. A type needs no further look-ups: a class or an
interface is named by its package and export name, and the fields of an object stand at their
offsets. Scalars are stored in place, least significant byte first and aligned to their size;
everything else is stored as a pointer of four bytes.
-/

namespace JigLedger

/-- A class or an interface: a package and the name of one of its exports. -/
structure ClassRef where
  package : PackageId
  name : String
deriving DecidableEq, Repr

namespace ClassRef

/-- The text of a reference. -/
def toText (r : ClassRef) : String := s!"{r.package.short}::{r.name}"

/-- References are ordered by package, then by name. -/
instance : Ord ClassRef :=
  ⟨compareLex (compareOn (·.package)) (compareOn (·.name))⟩

instance : Std.TransOrd ClassRef :=
  inferInstanceAs (Std.TransCmp (compareLex (compareOn ClassRef.package) (compareOn ClassRef.name)))

instance : Std.LawfulEqOrd ClassRef where
  eq_of_compare {a b} h := by
    have h : (compare a.package b.package).then (compare a.name b.name) = .eq := h
    rw [Ordering.then_eq_eq] at h
    obtain ⟨h1, h2⟩ := h
    cases a; cases b
    simp_all

end ClassRef

/-- What a slot for a jig accepts. -/
inductive JigTy where
  /-- Any jig. -/
  | any
  /-- Jigs of a class or of a class derived from it. -/
  | ofClass (ref : ClassRef)
  /-- Jigs of a class that implements an interface. -/
  | ofInterface (ref : ClassRef)
deriving DecidableEq, Repr

/-- The text of a slot's demand. -/
def JigTy.toText : JigTy → String
  | any => "Jig"
  | ofClass ref => ref.toText
  | ofInterface ref => ref.toText

/-- Something with a name at an offset. -/
structure Placed (α : Type) where
  name : String
  ty : α
  offset : UInt32
deriving DecidableEq, Repr

/-- A type. -/
inductive Ty where
  | bool
  | u8
  | u16
  | u32
  | u64
  | i8
  | i16
  | i32
  | i64
  | string
  | bytes
  | array (item : Ty)
  | map (key value : Ty)
  | nullable (inner : Ty)
  | object (name : String) (fields : List (Placed Ty)) (size : UInt32)
  | jig (demand : JigTy)
deriving Repr

/-- A field at its offset. -/
abbrev Field := Placed Ty

namespace Ty

instance : Inhabited Ty := ⟨.bool⟩

/-- The number of bytes that a value takes in place. -/
def size : Ty → UInt32
  | bool | u8 | i8 => 1
  | u16 | i16 => 2
  | u64 | i64 => 8
  | _ => 4

/-- Values are aligned to their size. -/
def align (t : Ty) : UInt32 := t.size

/-- A value is passed in 64 bits. -/
def isWide : Ty → Bool
  | u64 | i64 => true
  | _ => false

/-- A value is stored in place. -/
def isScalar : Ty → Bool
  | bool | u8 | u16 | u32 | u64 | i8 | i16 | i32 | i64 => true
  | _ => false

mutual

/-- A value may hold a jig. -/
def containsJig : Ty → Bool
  | jig _ => true
  | array t => t.containsJig
  | nullable t => t.containsJig
  | map k v => k.containsJig || v.containsJig
  | object _ fields _ => fieldsContainJig fields
  | _ => false

/-- The value of some field may hold a jig. -/
def fieldsContainJig : List Field → Bool
  | [] => false
  | f :: rest => f.ty.containsJig || fieldsContainJig rest

end

/-- The text of a type. -/
def toText : Ty → String
  | bool => "bool"
  | u8 => "u8"
  | u16 => "u16"
  | u32 => "u32"
  | u64 => "u64"
  | i8 => "i8"
  | i16 => "i16"
  | i32 => "i32"
  | i64 => "i64"
  | string => "string"
  | bytes => "bytes"
  | array t => s!"Array<{t.toText}>"
  | map k v => s!"Map<{k.toText}, {v.toText}>"
  | nullable t => s!"{t.toText} | null"
  | object name _ _ => name
  | jig demand => demand.toText

end Ty

namespace Layout

/-- The least multiple of the alignment that is not below the offset, modulo `2³²`. -/
def alignUp (offset align : UInt32) : UInt32 :=
  if align ≤ 1 then offset
  else (offset / align + (if offset % align = 0 then 0 else 1)) * align

/-- Fields placed in order from `offset` on, each aligned to its own size, and the end of the last
one together with the greatest alignment seen, which is `widest` at first. -/
def placeFrom (offset widest : UInt32) : List (String × Ty) → List Field × UInt32 × UInt32
  | [] => ([], offset, widest)
  | (name, ty) :: rest =>
    let start := alignUp offset ty.align
    let (placed, finish, widest) := placeFrom (start + ty.size) (max widest ty.align) rest
    (⟨name, ty, start⟩ :: placed, finish, widest)

/-- Fields placed in order from `start` on, and the size of the whole, rounded up to the greatest
alignment. -/
def place (start : UInt32) (fields : List (String × Ty)) : List Field × UInt32 :=
  let (placed, finish, widest) := placeFrom start 1 fields
  (placed, alignUp finish widest)

end Layout

/-- An object type with the given fields, laid out from offset 0. -/
def Ty.objectOf (name : String) (fields : List (String × Ty)) : Ty :=
  let (placed, size) := Layout.place 0 fields
  .object name placed size

end JigLedger
