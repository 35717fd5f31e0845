/-! The curve `y² = x³ + 7` over a prime field: powers by halving, the two moduli, and points in Jacobian
coordinates, in which a sum needs no division. -/
namespace WalletAuth
set_option autoImplicit false

universe u

/-- The `k`-fold combination of `a` under `op`, for a `k` of at most `bits` bits: the combination for
half of `k` is doubled, and `a` is added once more where `k` is odd. -/
def binaryPower {α : Type u} (op : α → α → α) (one a : α) : Nat → Nat → α
  | 0, _ => one
  | bits + 1, k =>
    let half := binaryPower op one a bits (k / 2)
    let twice := op half half
    if k % 2 = 1 then op twice a else twice

namespace Curve

/-! ## Coordinates and scalars

Coordinates are numbers below `fieldSize`, scalars are numbers below `groupOrder`. Both moduli are odd
primes, so inverses and roots are powers. -/

def fieldSize : Nat := 0xfffffffffffffffffffffffffffffffffffffffffffffffffffffffefffffc2f

/-- The number of points of the curve, which scalars are reduced by. -/
def groupOrder : Nat := 0xfffffffffffffffffffffffffffffffebaaedce6af48a03bbfd25e8cd0364141

instance : @NeZero Nat Zero.ofOfNat0 fieldSize := ⟨by decide⟩

instance : @NeZero Nat Zero.ofOfNat0 groupOrder := ⟨by decide⟩

abbrev Coordinate := Fin fieldSize

abbrev Scalar := Fin groupOrder

/-- The inverse of a coordinate, and zero for zero: all others have order dividing `fieldSize - 1`. -/
def Coordinate.inverse (a : Coordinate) : Coordinate := binaryPower (· * ·) 1 a 256 (fieldSize - 2)

/-- A square root of a coordinate that has one: `fieldSize` is 3 modulo 4. -/
def Coordinate.root (a : Coordinate) : Coordinate :=
  binaryPower (· * ·) 1 a 256 ((fieldSize + 1) / 4)

/-- The inverse of a scalar, and zero for zero. -/
def Scalar.inverse (a : Scalar) : Scalar := binaryPower (· * ·) 1 a 256 (groupOrder - 2)

def coordinate? (v : Nat) : Option Coordinate := if h : v < fieldSize then some ⟨v, h⟩ else none

/-- The scalar that a number below the modulus is. -/
def scalar? (v : Nat) : Option Scalar := if h : v < groupOrder then some ⟨v, h⟩ else none

def scalarOf (v : Nat) : Scalar := Fin.ofNat groupOrder v

/-! ## Points

The triple `(x, y, z)` stands for the point `(x / z², y / z³)`, and for the point at infinity if `z` is
zero. -/

def OnCurve (x y : Coordinate) : Prop := y * y = x * x * x + 7

instance (x y : Coordinate) : Decidable (OnCurve x y) :=
  inferInstanceAs (Decidable (y * y = x * x * x + 7))

structure Jacobian where
  x : Coordinate
  y : Coordinate
  z : Coordinate

namespace Jacobian

def infinity : Jacobian := ⟨1, 1, 0⟩

def ofAffine (x y : Coordinate) : Jacobian := ⟨x, y, 1⟩

def toAffine? (p : Jacobian) : Option (Coordinate × Coordinate) :=
  if p.z = 0 then none
  else
    let i := p.z.inverse
    some (p.x * (i * i), p.y * (i * i * i))

/-- The sum of a point with itself, where the tangent meets the curve. -/
def double (p : Jacobian) : Jacobian :=
  let yy := p.y * p.y
  let s := 4 * p.x * yy
  let m := 3 * (p.x * p.x)
  let x := m * m - 2 * s
  ⟨x, m * (s - x) - 8 * (yy * yy), 2 * p.y * p.z⟩

/-- The sum of two points. Points with the same `x` are either equal or opposite. -/
def add (p q : Jacobian) : Jacobian :=
  if p.z = 0 then q
  else if q.z = 0 then p
  else
    let pp := p.z * p.z
    let qq := q.z * q.z
    let u := p.x * qq
    let s := p.y * (qq * q.z)
    let h := q.x * pp - u
    let r := q.y * (pp * p.z) - s
    if h = 0 then if r = 0 then double p else infinity
    else
      let hh := h * h
      let hhh := h * hh
      let v := u * hh
      let x := r * r - hhh - 2 * v
      ⟨x, r * (v - x) - s * hhh, h * p.z * q.z⟩

def times (k : Scalar) (p : Jacobian) : Jacobian := binaryPower add infinity p 256 k.val

def generator : Jacobian :=
  ofAffine 0x79be667ef9dcbbac55a06295ce870b07029bfcdb2dce28d959f2815b16f81798
    0x483ada7726a3c4655da4fbfc0e1108a8fd17b448a68554199c47d08ffb10d4b8

end Jacobian

end Curve

end WalletAuth
