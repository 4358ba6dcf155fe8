import JigLedger.Engine.Guest
import JigLedger.Proofs.Value.Room

/-!
# Words of calls

An argument or a result of a call is passed as one word. It is a number, or it leads to what has
been allocated for the value, so the receiver of a call sees the value that the sender has passed.
There is one exception: a number of a nullable type is passed as it is, and it is received as the
address of a place where a number stands.
-/

namespace JigLedger

namespace Ty

open BumpMemory

/-- What is left of a word when it has been passed as a parameter or a result of a type. -/
def passed (t : Ty) (word : UInt64) : UInt64 :=
  if t.isWide then word else word.toUInt32.toUInt64

/-- The receiver of a parameter sees what is left of the word. -/
theorem wordOf_paramOf (t : Ty) (word : UInt64) :
    Engine.wordOf (Engine.paramOf t word) = pure (t.passed word) := by
  rw [Engine.paramOf, passed]
  split <;> rfl

/-- The type of the place that a number has of its own, because null is a value as well. -/
def boxed? : Ty → Value → Option Ty
  | nullable _, .null => none
  | nullable t, _ => if t.isScalar then some t else none
  | _, _ => none

variable {t : Ty} {v : Value}

/-- The low bits of a number that has been extended are this number. -/
theorem setWidth_signExtend {m n : Nat} (x : BitVec m) (le : m ≤ n) :
    (x.signExtend n).setWidth m = x := by
  ext i hi
  simp only [BitVec.getElem_setWidth, BitVec.getLsbD_signExtend, hi, if_pos,
    BitVec.getLsbD_eq_getElem, Bool.and_eq_right_iff_imp, decide_eq_true_eq]
  exact fun _ => Nat.lt_of_lt_of_le hi le

/-- A scalar is passed as its number, also where null would be accepted. -/
theorem lower_scalar (scalar : t.isScalar = true) (shape : t.check v = .ok ()) :
    ∃ word : UInt64, t.lower heap v = pure word ∧ (nullable t).lower heap v = pure word ∧
      ∀ mem, t.lift mem (t.passed word) = .ok v := by
  cases t <;> cases v <;> try cases shape
  case bool.bool b => cases b <;> exact ⟨_, rfl, rfl, fun _ => rfl⟩
  case u8.u8 n =>
    refine ⟨_, rfl, rfl, fun _ => ?_⟩
    simp [lift, passed, isWide]
  case i8.i8 n =>
    have low : n.toInt32.toUInt32.toUInt8.toInt8 = n :=
      Int8.toBitVec.inj (@setWidth_signExtend 8 32 n.toBitVec (by decide))
    refine ⟨_, rfl, rfl, fun _ => ?_⟩
    simp [lift, passed, isWide, low]
  case u16.u16 n =>
    refine ⟨_, rfl, rfl, fun _ => ?_⟩
    simp [lift, passed, isWide]
  case i16.i16 n =>
    have low : n.toInt32.toUInt32.toUInt16.toInt16 = n :=
      Int16.toBitVec.inj (@setWidth_signExtend 16 32 n.toBitVec (by decide))
    refine ⟨_, rfl, rfl, fun _ => ?_⟩
    simp [lift, passed, isWide, low]
  case u32.u32 n =>
    refine ⟨_, rfl, rfl, fun _ => ?_⟩
    simp [lift, passed, isWide]
  case i32.i32 n =>
    refine ⟨_, rfl, rfl, fun _ => ?_⟩
    simp [lift, passed, isWide]
  case u64.u64 n => exact ⟨_, rfl, rfl, fun _ => rfl⟩
  case i64.i64 n =>
    refine ⟨_, rfl, rfl, fun _ => ?_⟩
    simp [lift, passed, isWide]
  all_goals cases scalar

/-- The values of a type that is neither scalar nor nullable are allocated, and the address is
passed. The type may have been made nullable. -/
theorem lower_pointer (pointer : t.isScalar = false) (once : t.isNullable = false)
    (shape : t.check v = .ok ()) {t' : Ty} (shape' : t'.check v = .ok ()) :
    t'.lower heap v = t'.allocValue heap v >>= fun p => pure p.toUInt64 := by
  cases t
  case string | bytes | array | map | object | jig =>
    cases v <;> try cases shape
    all_goals
      simp only [lower, shape']
      rfl
  case nullable => cases once
  all_goals cases pointer

/-- A value is a scalar of a scalar type or of one that was made nullable, or it is allocated. -/
theorem lower_cases (proper : t.Proper) (shape : t.check v = .ok ()) :
    t.isScalar = true ∨
    (∃ place, t = nullable place ∧ place.isScalar = true ∧ v ≠ .null) ∨
    t.isScalar = false ∧ t.boxed? v = none ∧
      t.lower heap v = t.allocValue heap v >>= fun p => pure p.toUInt64 := by
  by_cases scalar : t.isScalar = true
  · exact .inl scalar
  have pointer : t.isScalar = false := by simpa using scalar
  cases proper with
  | @nullable t once =>
    by_cases absent : v = .null
    · subst absent
      exact .inr (.inr ⟨rfl, rfl, rfl⟩)
    have inner := (check_nullable absent).symm.trans shape
    by_cases scalar : t.isScalar = true
    · exact .inr (.inl ⟨t, rfl, scalar, absent⟩)
    have within : t.isScalar = false := by simpa using scalar
    refine .inr (.inr ⟨rfl, ?_, lower_pointer within once inner shape⟩)
    rw [boxed?, if_neg scalar]
    exact absent
  | leaf plain =>
    have once : t.isNullable = false := by cases t <;> first | rfl | cases plain
    refine .inr (.inr ⟨pointer, ?_, lower_pointer pointer once shape shape⟩)
    cases t <;> first | rfl | cases once
  | _ => exact .inr (.inr ⟨rfl, rfl, lower_pointer rfl rfl shape shape⟩)

/-- The word of a value that is not a scalar is taken as an address. -/
theorem lift_pointer (pointer : t.isScalar = false) (mem : LinearMemory) (p : UInt32) :
    t.lift mem (t.passed p.toUInt64) = t.readPointee mem p := by
  cases t <;> first | (simp [lift, passed, isWide]; done) | cases pointer

/-- What is allocated for a value and passed by its address is received as this value. -/
theorem lift_allocated (storable : t.Storable) (pointer : t.isScalar = false)
    (shape : t.check v = .ok ())
    (lowered : t.lower heap v = t.allocValue heap v >>= fun p => pure p.toUInt64)
    {b : BumpMemory} (sound : b.IsSound) (room : b.next.toNat + t.footprint v ≤ limit) :
    ∃ word b', b.runOn (t.lower heap v) = (.ok word, b') ∧ b'.IsSound ∧
      b'.next.toNat = b.next.toNat + t.footprint v ∧
      LinearMemory.AgreesOn (span 0 b.next.toNat) b.memory b'.memory ∧
      t.lift b'.memory (t.passed word) = .ok v := by
  obtain ⟨p, b', run, sound', next, same, promise⟩ :=
    (storable v shape pointer).leads sound (Set.empty_subset _) room
  have read := (promise b'.memory (Set.eqOn_refl _ _) (Nat.le_refl _)).2
  refine ⟨p.toUInt64, b', ?_, sound', next, ?_, ?_⟩
  · rw [lowered, runOn_bind_of_ok run]
    rfl
  · rwa [Set.sdiff_empty] at same
  · rwa [lift_pointer pointer]

/-- A value that is passed in a call is received as it was sent, with nothing in memory before it
changed, provided that there is room for it. Of a number whose type is nullable this holds only if
the number is by chance the address of a place where the same number stands. -/
theorem lift_lower_iff (declared : t.IsResolved) (shape : t.check v = .ok ()) {b : BumpMemory}
    (sound : b.IsSound) (room : b.next.toNat + t.footprint v ≤ limit) :
    ∃ word b', b.runOn (t.lower heap v) = (.ok word, b') ∧ b'.IsSound ∧
      b'.next.toNat ≤ b.next.toNat + t.footprint v ∧
      LinearMemory.AgreesOn (span 0 b.next.toNat) b.memory b'.memory ∧
      (t.lift b'.memory (t.passed word) = .ok v ↔ ∀ place, t.boxed? v = some place →
        word.toUInt32 ≠ 0 ∧ place.readScalar b.memory word.toUInt32 = .ok v) := by
  obtain ⟨s, e, resolved⟩ := declared
  have proper := Abi.Scope.proper_type resolved
  obtain scalar | ⟨place, rfl, scalar, present⟩ | ⟨pointer, plain, lowered⟩ :=
    lower_cases proper shape
  · obtain ⟨word, lowered, -, lifted⟩ := lower_scalar scalar shape
    refine ⟨word, b, by rw [lowered]; rfl, sound, Nat.le_add_right _ _, Set.eqOn_refl _ _,
      fun _ place boxed => ?_, fun _ => lifted _⟩
    cases t <;> first | cases boxed | cases scalar
  · obtain ⟨word, -, lowered, -⟩ := lower_scalar scalar (check_nullable present ▸ shape)
    have boxed : (nullable place).boxed? v = some place := by
      rw [boxed?, if_pos scalar]
      exact present
    have lifted : (nullable place).lift b.memory ((nullable place).passed word) =
        if word.toUInt32 = 0 then .ok .null else place.readScalar b.memory word.toUInt32 := by
      change (nullable place).readPointee b.memory word.toUInt32.toUInt64.toUInt32 = _
      rw [UInt32.toUInt32_toUInt64, readPointee, if_pos scalar]
    refine ⟨word, b, by rw [lowered]; rfl, sound, Nat.le_add_right _ _, Set.eqOn_refl _ _, ?_⟩
    rw [lifted]
    constructor
    · rintro received q same
      obtain rfl := Option.some.inj (boxed.symm.trans same)
      split at received
      case isTrue => exact absurd (Except.ok.inj received).symm present
      case isFalse nonzero => exact ⟨nonzero, received⟩
    · intro stands
      obtain ⟨nonzero, read⟩ := stands place boxed
      rw [if_neg nonzero, read]
  · obtain ⟨word, b', run, sound', next, same, lifted⟩ :=
      lift_allocated proper.storable pointer shape lowered sound room
    refine ⟨word, b', run, sound', next.le, same, fun _ place boxed => ?_, fun _ => lifted⟩
    rw [plain] at boxed
    cases boxed

/-! ### A number that may be absent -/

namespace Age

/-- How `u8 | null` is written. -/
def written : Abi.TypeExpr := .mk "u8" true []

/-- What it means. -/
def type : Ty := .nullable .u8

theorem isResolved : type.IsResolved := ⟨⟨default, [], []⟩, written, by cbv⟩

end Age

/-- In a new memory no place holds the number five, so whoever is passed this age receives another
one. -/
theorem lift_lower_iff_age : Age.type.IsResolved ∧ Age.type.check (.u8 5) = .ok () ∧
    empty.IsSound ∧ empty.next.toNat + Age.type.footprint (.u8 5) ≤ limit ∧
    ∃ word b', empty.runOn (Age.type.lower heap (.u8 5)) = (.ok word, b') ∧
      Age.type.lift b'.memory (Age.type.passed word) ≠ .ok (.u8 5) := by
  have room : empty.next.toNat + Age.type.footprint (.u8 5) ≤ limit := by decide
  obtain ⟨word, b', run, -, -, -, received⟩ :=
    lift_lower_iff Age.isResolved (rfl : Age.type.check (.u8 5) = .ok ()) isSound_empty room
  refine ⟨Age.isResolved, rfl, isSound_empty, room, word, b', run, fun same => ?_⟩
  have five : word = 5 := (Except.ok.inj (congrArg Prod.fst run)).symm
  obtain ⟨-, read⟩ := received.1 same .u8 rfl
  rw [five] at read
  have there : Ty.u8.readScalar empty.memory 5 = .ok (.u8 0) := rfl
  cases there.symm.trans read

end Ty

end JigLedger
