import JigLedger.Bytes

/-!
# The twisted Edwards curve of Ed25519

Points of `-x² + y² = 1 + d x² y²` over the field of `p = 2²⁵⁵ - 19` elements, in extended
coordinates, so that one addition law without exceptions serves for all pairs of points.
Coordinates are numbers below `p`.
-/

namespace JigLedger.Edwards

/-- The order of the field. -/
def p : Nat := 1 <<< 255 - 19

/-- The order of the base point. -/
def groupOrder : Nat := 1 <<< 252 + 27742317777372353535851937790883648493

/-- The coefficient of the curve. -/
def d : Nat := 37095705934669439343138083508754565189542113879843219016388785533085940283555

/-- A square root of `-1`. -/
def rootOfMinusOne : Nat :=
  19681161376707505956807079304988542015446066515923890162744021073123829784752

/-- The product of two field elements. -/
def mul (a b : Nat) : Nat := a * b % p

/-- The sum of two field elements. -/
def add (a b : Nat) : Nat := (a + b) % p

/-- The difference of two field elements. -/
def sub (a b : Nat) : Nat := (a + (p - b % p)) % p

/-- The power whose exponent has the given binary digits, the most significant first. -/
def powBits (a : Nat) (bits : List Bool) : Nat :=
  bits.foldl (fun r bit => if bit then mul (mul r r) a else mul r r) 1

/-- The `count` low binary digits of a number, the most significant first. -/
def binary : (count : Nat) → Nat → List Bool
  | 0, _ => []
  | k + 1, n => binary k (n / 2) ++ [decide (n % 2 = 1)]

/-- A power of a field element; the exponent is below `2²⁵⁶`. -/
def pow (a n : Nat) : Nat := powBits a (binary 256 n)

/-- The even square root of `u / v`, if there is one. -/
def sqrtRatio? (u v : Nat) : Option Nat :=
  let v3 := mul (mul v v) v
  let v7 := mul (mul v3 v3) v
  let r := mul (mul u v3) (pow (mul u v7) ((p - 5) / 8))
  let check := mul v (mul r r)
  let root? :=
    if check = u % p then some r
    else if check = sub 0 u then some (mul r rootOfMinusOne)
    else none
  root?.map fun x => if x % 2 = 1 then sub 0 x else x

/-- A point in extended coordinates: `x = X / Z`, `y = Y / Z`, `x y = T / Z`. -/
structure Point where
  X : Nat
  Y : Nat
  Z : Nat
  T : Nat
deriving DecidableEq, Repr

namespace Point

/-- The neutral element. -/
def identity : Point := ⟨0, 1, 1, 0⟩

/-- The point with the given affine coordinates. -/
def ofAffine (x y : Nat) : Point := ⟨x, y, 1, mul x y⟩

/-- The sum of two points. -/
def add (P Q : Point) : Point :=
  let a := mul (Edwards.sub P.Y P.X) (Edwards.sub Q.Y Q.X)
  let b := mul (Edwards.add P.Y P.X) (Edwards.add Q.Y Q.X)
  let c := mul (mul P.T Q.T) (Edwards.add d d)
  let e := mul P.Z (Edwards.add Q.Z Q.Z)
  let f := Edwards.sub b a
  let g := Edwards.sub e c
  let h := Edwards.add e c
  let i := Edwards.add b a
  ⟨mul f g, mul h i, mul g h, mul f i⟩

/-- The inverse of a point. -/
def neg (P : Point) : Point := ⟨Edwards.sub 0 P.X, P.Y, P.Z, Edwards.sub 0 P.T⟩

/-- A multiple of a point; the factor is below `2²⁵⁶`. -/
def scale (n : Nat) (P : Point) : Point :=
  (binary 256 n).foldl (fun R bit => if bit then add (add R R) P else add R R) identity

/-- A point that is the neutral element. -/
def isIdentity (P : Point) : Bool := P.X % p == 0 && P.Y % p == P.Z % p

/-- The point that 32 bytes encode: the `y` coordinate, which need not be reduced, and the parity
of `x` in the top bit. A zero `x` may come with either parity. -/
def decode? (bytes : Block 32) : Option Point :=
  let n := ofLittleEndian bytes.bytes
  let y := n % (1 <<< 255) % p
  let yy := mul y y
  (sqrtRatio? (Edwards.sub yy 1) (Edwards.add (mul yy d) 1)).map fun x =>
    ofAffine (if n >>> 255 = 1 then Edwards.sub 0 x else x) y

/-- The base point. -/
def base : Point :=
  ofAffine
    15112221349535400772501151409588531511454012693041857206046113283949847762202
    46316835694926478169428394003475163141307993866256225615783033603165251855960

end Point

end JigLedger.Edwards
