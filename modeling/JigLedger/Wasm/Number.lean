import JigLedger.Failure

/-!
# Numbers of the guest machine

Guests compute with words of 32 and 64 bits. Floating point numbers can be held and moved, but not
computed with. Integer operations are defined once for both widths, on bit vectors; those that can
trap say so in their result.
-/

namespace JigLedger.Wasm

/-- The types of numbers. -/
inductive NumType where
  | i32
  | i64
  | f32
  | f64
deriving DecidableEq, Repr

namespace NumType

/-- The number of bytes in memory. -/
def size : NumType → Nat
  | i32 | f32 => 4
  | i64 | f64 => 8

/-- The name in the text format. -/
def name : NumType → String
  | i32 => "i32"
  | i64 => "i64"
  | f32 => "f32"
  | f64 => "f64"

end NumType

/-- A number; floating point numbers are given by their bits. -/
inductive Val where
  | i32 (n : UInt32)
  | i64 (n : UInt64)
  | f32 (bits : UInt32)
  | f64 (bits : UInt64)
deriving DecidableEq, Repr

namespace Val

instance : Inhabited Val := ⟨.i32 0⟩

/-- The type of a number. -/
def type : Val → NumType
  | i32 _ => .i32
  | i64 _ => .i64
  | f32 _ => .f32
  | f64 _ => .f64

/-- The number with the low bits of `bits`. -/
def ofBits (t : NumType) (bits : Nat) : Val :=
  match t with
  | .i32 => i32 (UInt32.ofNat bits)
  | .i64 => i64 (UInt64.ofNat bits)
  | .f32 => f32 (UInt32.ofNat bits)
  | .f64 => f64 (UInt64.ofNat bits)

/-- The bits of a number. -/
def bits : Val → Nat
  | i32 n => n.toNat
  | i64 n => n.toNat
  | f32 n => n.toNat
  | f64 n => n.toNat

/-- The number zero of a type. -/
def zero (t : NumType) : Val := ofBits t 0

/-- A truth value, as comparisons give it. -/
def ofBool (b : Bool) : Val := i32 (if b then 1 else 0)

@[simp] theorem type_ofBits (t : NumType) (n : Nat) : (ofBits t n).type = t := by
  cases t <;> rfl

@[simp] theorem type_zero (t : NumType) : (zero t).type = t := type_ofBits t 0

end Val

/-! ### Integer operations -/

/-- Operations on one integer. -/
inductive UnaryOp where
  | clz
  | ctz
  | popcnt
  /-- Copies the sign bit of the low `bits` bits to all higher bits. -/
  | extend (bits : Nat)
deriving DecidableEq, Repr

/-- Operations on two integers. -/
inductive BinaryOp where
  | add
  | sub
  | mul
  | divS
  | divU
  | remS
  | remU
  | and
  | or
  | xor
  | shl
  | shrS
  | shrU
  | rotl
  | rotr
deriving DecidableEq, Repr

/-- Comparisons of two integers. -/
inductive Comparison where
  | eq
  | ne
  | ltS
  | ltU
  | gtS
  | gtU
  | leS
  | leU
  | geS
  | geU
deriving DecidableEq, Repr

/-- The result of an operation on one integer. -/
def UnaryOp.eval {w : Nat} (op : UnaryOp) (a : BitVec w) : BitVec w :=
  match op with
  | clz => a.clz
  | ctz => a.ctz
  | popcnt => a.cpop
  | extend bits => (a.setWidth bits).signExtend w

/-- The result of an operation on two integers. Shifts and rotations take their amount modulo the
width; dividing by zero traps, and so does a quotient that does not fit. -/
def BinaryOp.eval {w : Nat} (op : BinaryOp) (a b : BitVec w) : Except Trap (BitVec w) :=
  match op with
  | add => .ok (a + b)
  | sub => .ok (a - b)
  | mul => .ok (a * b)
  | divS =>
    if b = 0 then .error .divisionByZero
    else if a = BitVec.intMin w ∧ b = BitVec.allOnes w then .error .integerOverflow
    else .ok (a.sdiv b)
  | divU => if b = 0 then .error .divisionByZero else .ok (a / b)
  | remS => if b = 0 then .error .divisionByZero else .ok (a.srem b)
  | remU => if b = 0 then .error .divisionByZero else .ok (a % b)
  | and => .ok (a &&& b)
  | or => .ok (a ||| b)
  | xor => .ok (a ^^^ b)
  | shl => .ok (a <<< (b.toNat % w))
  | shrS => .ok (a.sshiftRight (b.toNat % w))
  | shrU => .ok (a >>> (b.toNat % w))
  | rotl => .ok (a.rotateLeft (b.toNat % w))
  | rotr => .ok (a.rotateRight (b.toNat % w))

/-- The result of a comparison. -/
def Comparison.eval {w : Nat} (op : Comparison) (a b : BitVec w) : Bool :=
  match op with
  | eq => a = b
  | ne => a ≠ b
  | ltS => a.slt b
  | ltU => a.ult b
  | gtS => b.slt a
  | gtU => b.ult a
  | leS => a.sle b
  | leU => a.ule b
  | geS => b.sle a
  | geU => b.ule a

namespace Val

/-- An operation on an integer of either width; nothing for other numbers. -/
def unary (op : UnaryOp) : Val → Option Val
  | i32 a => some (i32 (UInt32.ofBitVec (op.eval a.toBitVec)))
  | i64 a => some (i64 (UInt64.ofBitVec (op.eval a.toBitVec)))
  | _ => none

/-- An operation on two integers of one width; nothing for other numbers. -/
def binary (op : BinaryOp) : Val → Val → Option (Except Trap Val)
  | i32 a, i32 b => some ((op.eval a.toBitVec b.toBitVec).map fun r => i32 (UInt32.ofBitVec r))
  | i64 a, i64 b => some ((op.eval a.toBitVec b.toBitVec).map fun r => i64 (UInt64.ofBitVec r))
  | _, _ => none

/-- A comparison of two integers of one width; nothing for other numbers. -/
def compare (op : Comparison) : Val → Val → Option Val
  | i32 a, i32 b => some (ofBool (op.eval a.toBitVec b.toBitVec))
  | i64 a, i64 b => some (ofBool (op.eval a.toBitVec b.toBitVec))
  | _, _ => none

/-- An integer is zero; nothing for other numbers. -/
def isZero : Val → Option Val
  | i32 a => some (ofBool (a = 0))
  | i64 a => some (ofBool (a = 0))
  | _ => none

end Val

/-- Conversions between the widths of integers. -/
inductive Conversion where
  | wrap
  | extendS
  | extendU
deriving DecidableEq, Repr

namespace Conversion

/-- The type that is converted. -/
def source : Conversion → NumType
  | wrap => .i64
  | extendS | extendU => .i32

/-- The type of the result. -/
def target : Conversion → NumType
  | wrap => .i32
  | extendS | extendU => .i64

/-- The result of a conversion; nothing for numbers of another type. -/
def eval : Conversion → Val → Option Val
  | wrap, .i64 n => some (.i32 n.toUInt32)
  | extendS, .i32 n => some (.i64 n.toInt32.toInt64.toUInt64)
  | extendU, .i32 n => some (.i64 n.toUInt64)
  | _, _ => none

end Conversion

end JigLedger.Wasm
