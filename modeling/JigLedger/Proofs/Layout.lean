import JigLedger.Proofs.Abi
import JigLedger.Value.Layout
import Mathlib.Algebra.Group.Nat.Defs

/-!
# Layouts do not overlap

Offsets are 32-bit words, so a layout of very many fields would begin at its start again. As long
as a class or an object has fewer than `2²⁸` fields that does not happen: each field begins where
the one before it has ended, or later, and the size is not below the end of the last one. The
same holds of the two parts of a map entry.
-/

namespace JigLedger

namespace Layout

/-- The alignments that there are. -/
def IsAlignment (n : UInt32) : Prop := n = 1 ∨ n = 2 ∨ n = 4 ∨ n = 8

theorem IsAlignment.max {m n : UInt32} (hm : IsAlignment m) (hn : IsAlignment n) :
    IsAlignment (max m n) := by
  change IsAlignment (if m ≤ n then n else m)
  split
  · exact hn
  · exact hm

theorem isAlignment_size (t : Ty) : IsAlignment t.size := by
  cases t <;> simp [IsAlignment, Ty.size]

theorem IsAlignment.le {n : UInt32} (h : IsAlignment n) : 0 < n.toNat ∧ n.toNat ≤ 8 := by
  rcases h with rfl | rfl | rfl | rfl <;> decide

/-- A sum of words that fits is one of numbers. -/
theorem toNat_add_of_lt {m n : UInt32} (h : m.toNat + n.toNat < UInt32.size) :
    (m + n).toNat = m.toNat + n.toNat := by
  rw [UInt32.toNat_add]
  exact Nat.mod_eq_of_lt h

theorem IsAlignment.alignUp_zero {n : UInt32} (h : IsAlignment n) : alignUp 0 n = 0 := by
  rcases h with rfl | rfl | rfl | rfl <;> rfl

/-- Rounding up goes less than eight bytes further. -/
theorem alignUp_bounds {offset align : UInt32} (h : IsAlignment align)
    (room : offset.toNat + 8 ≤ UInt32.size) :
    offset.toNat ≤ (alignUp offset align).toNat ∧
      (alignUp offset align).toNat < offset.toNat + 8 := by
  rw [UInt32.size] at room
  rcases h with rfl | rfl | rfl | rfl
  · rw [alignUp, if_pos (by decide)]
    omega
  all_goals
    rw [alignUp, if_neg (by decide)]
    split
    case isTrue even =>
      have even := congrArg UInt32.toNat even
      simp only [UInt32.toNat_add, UInt32.toNat_mul, UInt32.toNat_div, UInt32.toNat_mod,
        UInt32.reduceToNat] at even ⊢
      omega
    case isFalse odd =>
      simp only [← UInt32.toNat_inj, UInt32.toNat_add, UInt32.toNat_mul, UInt32.toNat_div,
        UInt32.toNat_mod, UInt32.reduceToNat] at odd ⊢
      omega

/-- Fields stand one behind the other from one offset up to another one. -/
def Spaced : (start : Nat) → List Field → (finish : Nat) → Prop
  | start, [], finish => start ≤ finish
  | start, f :: fields, finish =>
    start ≤ f.offset.toNat ∧ Spaced (f.offset.toNat + f.ty.size.toNat) fields finish

theorem Spaced.le {start finish : Nat} {fields : List Field} (h : Spaced start fields finish) :
    start ≤ finish := by
  induction fields generalizing start with
  | nil => exact h
  | cons f fields ih =>
    have rest := ih h.2
    have first := h.1
    omega

theorem Spaced.bounds {first last : Nat} {fields : List Field} (h : Spaced first fields last) :
    ∀ f ∈ fields, first ≤ f.offset.toNat ∧ f.offset.toNat + f.ty.size.toNat ≤ last := by
  induction fields generalizing first with
  | nil => exact nofun
  | cons f fields ih =>
    obtain ⟨above, behind⟩ := h
    refine List.forall_mem_cons.2 ⟨⟨above, behind.le⟩, fun g hg => ?_⟩
    obtain ⟨further, within⟩ := ih behind g hg
    exact ⟨by omega, within⟩

/-- What is left to be placed behind the first field. -/
theorem exists_of_placeFrom_cons {name : String} {ty : Ty} {rest : List (String × Ty)}
    {fields : List Field} {offset widest finish most : UInt32}
    (placed : placeFrom offset widest ((name, ty) :: rest) = (fields, finish, most)) :
    ∃ others, placeFrom (alignUp offset ty.align + ty.size) (max widest ty.align) rest =
      (others, finish, most) ∧ fields = ⟨name, ty, alignUp offset ty.align⟩ :: others := by
  cases placed
  exact ⟨_, rfl, rfl⟩

/-- The size of a layout is the end of its fields, rounded up. -/
theorem exists_placeFrom_of_place {start size : UInt32} {declared : List (String × Ty)}
    {fields : List Field} (h : place start declared = (fields, size)) :
    ∃ finish most, placeFrom start 1 declared = (fields, finish, most) ∧
      alignUp finish most = size := by
  cases h
  exact ⟨_, _, rfl, rfl⟩

/-- Fields that are placed stand one behind the other as long as there is room for them. -/
theorem spaced_placeFrom {fields : List (String × Ty)} {offset widest : UInt32}
    (hw : IsAlignment widest) (room : offset.toNat + 16 * fields.length + 8 ≤ UInt32.size)
    {placed : List Field} {finish most : UInt32}
    (h : placeFrom offset widest fields = (placed, finish, most)) :
    Spaced offset.toNat placed finish.toNat ∧ IsAlignment most ∧
      finish.toNat ≤ offset.toNat + 16 * fields.length := by
  induction fields generalizing offset widest placed with
  | nil =>
    cases h
    exact ⟨Nat.le_refl _, hw, Nat.le_add_right _ _⟩
  | cons f rest ih =>
    obtain ⟨name, ty⟩ := f
    rw [List.length_cons] at room ⊢
    obtain ⟨above, below⟩ := @alignUp_bounds offset _ (isAlignment_size ty) (by omega)
    have size := (isAlignment_size ty).le
    have next : (alignUp offset ty.align + ty.size).toNat =
        (alignUp offset ty.align).toNat + ty.size.toNat := by
      rw [UInt32.toNat_add, Nat.mod_eq_of_lt]
      rw [UInt32.size] at room
      change (alignUp offset ty.size).toNat + _ < _
      omega
    have widen : IsAlignment (max widest ty.align) := hw.max (isAlignment_size ty)
    obtain ⟨placed', hp, rfl⟩ := exists_of_placeFrom_cons h
    have small : (alignUp offset ty.align).toNat < offset.toNat + 8 := below
    obtain ⟨spaced, aligned, far⟩ := ih widen (by omega) hp
    refine ⟨⟨above, next ▸ spaced⟩, aligned, ?_⟩
    omega

theorem Spaced.mono {start finish finish' : Nat} {fields : List Field}
    (h : Spaced start fields finish) (le : finish ≤ finish') : Spaced start fields finish' := by
  induction fields generalizing start with
  | nil => exact Nat.le_trans h le
  | cons f fields ih => exact ⟨h.1, ih h.2⟩

/-- Fields that are placed are within the size of the whole as long as there is room for them. -/
theorem spaced_place {start size : UInt32} {declared : List (String × Ty)} {fields : List Field}
    (room : start.toNat + 16 * declared.length + 8 ≤ UInt32.size)
    (h : place start declared = (fields, size)) : Spaced start.toNat fields size.toNat := by
  obtain ⟨finish, most, placed, rfl⟩ := exists_placeFrom_of_place h
  obtain ⟨spaced, aligned, far⟩ := spaced_placeFrom (.inl rfl) room placed
  have above := (alignUp_bounds aligned (Nat.le_trans (Nat.add_le_add_right far 8) room)).1
  exact spaced.mono above

theorem length_place {start size : UInt32} {declared : List (String × Ty)} {fields : List Field}
    (h : place start declared = (fields, size)) : fields.length = declared.length := by
  have same := congrArg List.length (declared_placeFrom declared start 1)
  rw [List.length_map] at same
  cases h
  exact same

end Layout

/-! ### Map entries -/

namespace Ty

/-- The key of an entry stands at its beginning. -/
theorem entryLayout_eq (k v : Ty) : entryLayout k v =
    ([⟨"key", k, 0⟩, ⟨"value", v, entryValueOffset k v⟩], entrySize k v) := by
  have first : Layout.alignUp 0 k.align = 0 := (Layout.isAlignment_size k).alignUp_zero
  have layout : entryLayout k v = ([⟨"key", k, Layout.alignUp 0 k.align⟩,
    ⟨"value", v, Layout.alignUp (Layout.alignUp 0 k.align + k.size) v.align⟩],
    entrySize k v) := rfl
  rw [layout, first, UInt32.zero_add]
  rfl

/-- The value of an entry stands behind its key and within the entry. Either the entry has two
bytes, or entries begin at multiples of four bytes and values have even offsets. -/
theorem entry_cases (k v : Ty) :
    k.size.toNat ≤ (entryValueOffset k v).toNat ∧
    (entryValueOffset k v).toNat + v.size.toNat ≤ (entrySize k v).toNat ∧
    ((entrySize k v).toNat = 2 ∨
      (entrySize k v).toNat % 4 = 0 ∧ (entryValueOffset k v).toNat % 2 = 0) := by
  have size : entrySize k v = Layout.alignUp (Layout.alignUp (Layout.alignUp 0 k.size + k.size)
      v.size + v.size) (max (max 1 k.size) v.size) := rfl
  rw [size, entryValueOffset, align]
  rcases Layout.isAlignment_size k with h | h | h | h <;>
    rcases Layout.isAlignment_size v with h' | h' | h' | h' <;> rw [h, h'] <;> decide

end Ty

/-! ### Types that are laid out -/

namespace Ty

/-- The number of fields that no class and no object reaches. -/
def maxFields : Nat := 2 ^ 28

mutual

/-- No object in a type has too many fields. -/
def isBounded : Ty → Bool
  | array t => t.isBounded
  | map k v => k.isBounded && v.isBounded
  | nullable t => t.isBounded
  | object _ fields _ => decide (fields.length < maxFields) && areBounded fields
  | _ => true

/-- No object in the types of fields has too many fields. -/
def areBounded : List Field → Bool
  | [] => true
  | f :: fields => f.ty.isBounded && areBounded fields

end

theorem areBounded_iff {fields : List Field} :
    areBounded fields = true ↔ ∀ f ∈ fields, f.ty.isBounded = true := by
  induction fields with
  | nil => simp [areBounded]
  | cons f fields ih => simp [areBounded, ih]

/-- Types whose maps have plain keys, and in which the fields of objects stand one behind the
other. -/
inductive Laid : Ty → Prop
  | leaf {t : Ty} (plain : t.isLeaf = true) : Laid t
  | array {item : Ty} (h : Laid item) : Laid (.array item)
  | map {k v : Ty} (plain : k.isLeaf = true) (h : Laid v) : Laid (.map k v)
  | nullable {t : Ty} (h : Laid t) : Laid (.nullable t)
  | object {name : String} {fields : List Field} {size : UInt32}
      (spaced : Layout.Spaced 0 fields size.toNat) (h : ∀ f ∈ fields, Laid f.ty) :
      Laid (.object name fields size)

/-- A type that can be declared is laid out if its objects do not have too many fields. -/
theorem Proper.laid {t : Ty} (h : t.Proper) (bounded : t.isBounded = true) : t.Laid := by
  induction h with
  | leaf plain => exact .leaf plain
  | array _ ih => exact .array (ih bounded)
  | map plain _ ih =>
    rw [isBounded, Bool.and_eq_true] at bounded
    exact .map plain (ih bounded.2)
  | nullable _ _ ih => exact .nullable (ih bounded)
  | object declared _ ih =>
    rw [isBounded, Bool.and_eq_true, decide_eq_true_eq, areBounded_iff] at bounded
    obtain ⟨few, bounded⟩ := bounded
    obtain ⟨declared, placed⟩ := declared
    refine .object ?_ fun f mem => ih f mem (bounded f mem)
    rw [Layout.length_place placed, maxFields] at few
    have room : (0 : UInt32).toNat + 16 * declared.length + 8 ≤ UInt32.size := by
      rw [UInt32.size]
      change 0 + _ + _ ≤ _
      omega
    exact Layout.spaced_place room placed

end Ty

/-! ### Classes -/

namespace Abi

/-- No class and no object of a package has too many fields. -/
def isBounded (a : Abi) : Bool :=
  a.classes.all fun cls => decide (cls.fields.length < Ty.maxFields) && Ty.areBounded cls.fields

/-- The fields of a class stand behind the header of a jig, one behind the other. -/
structure Class.Laid (cls : Class) : Prop where
  spaced : Layout.Spaced Scope.jigHeaderSize.toNat cls.fields cls.size.toNat
  types : ∀ f ∈ cls.fields, f.ty.Laid

theorem mem_classes_of_classAt {a : Abi} {idx : Nat} {cls : Class} (h : a.classAt idx = .ok cls) :
    cls ∈ a.classes := by
  unfold classAt at h
  split at h
  case h_1 found =>
    cases h
    exact List.mem_filterMap.2 ⟨_, List.mem_of_getElem? found, rfl⟩
  all_goals cases h

/-- The classes of a package that was resolved are laid out if there are not too many fields. -/
theorem laid_of_resolve {package : PackageId} {d : Document} {a : Abi} {idx : Nat} {cls : Class}
    (h : resolve package d = .ok a) (bounded : a.isBounded = true)
    (hc : a.classAt idx = .ok cls) : cls.Laid := by
  obtain ⟨decl, -, declared⟩ := exists_resolveClass_of_classAt h hc
  obtain ⟨fields, resolved, placed⟩ := Scope.fields_resolveClass declared
  have few := List.all_eq_true.1 bounded cls (mem_classes_of_classAt hc)
  rw [Bool.and_eq_true, decide_eq_true_eq, Ty.areBounded_iff] at few
  obtain ⟨few, bounded⟩ := few
  constructor
  · rw [Layout.length_place placed, Ty.maxFields] at few
    have room : Scope.jigHeaderSize.toNat + 16 * fields.length + 8 ≤ UInt32.size := by
      rw [UInt32.size]
      change 4 + _ + _ ≤ _
      omega
    exact Layout.spaced_place room placed
  · intro f mem
    obtain ⟨s, e, typed⟩ := isResolved_fieldTypes h hc f.ty (List.mem_map_of_mem mem)
    exact (Scope.proper_type typed).laid (bounded f mem)

end Abi

end JigLedger
