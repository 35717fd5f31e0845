import WalletAuth.Curve.Jacobian
import WalletAuth.Hash.Ripemd160
import WalletAuth.Key.Error

/-! Public keys: the finite points of the curve, and their encodings. A key is printed compressed, as
its `x` and the parity of its `y`, and two keys are compared in that form. -/
namespace WalletAuth
set_option autoImplicit false
open Curve

/-- A public key, which is a finite point of the curve. -/
structure PublicKey where
  x : Coordinate
  y : Coordinate
  on_curve : OnCurve x y

namespace PublicKey

def ofCoordinates? (x y : Coordinate) : Option PublicKey :=
  if h : OnCurve x y then some ⟨x, y, h⟩ else none

/-- The point with this `x` and a `y` of the given parity, if the curve has one. -/
def lift? (x : Coordinate) (odd : Bool) : Option PublicKey :=
  let y := Coordinate.root (x * x * x + 7)
  ofCoordinates? x (if decide (y.val % 2 = 1) = odd then y else -y)

def jacobian (k : PublicKey) : Jacobian := .ofAffine k.x k.y

/-- The key that a point is, unless the point lies at infinity. -/
def ofJacobian? (p : Jacobian) : Option PublicKey := do
  let (x, y) ← p.toAffine?
  ofCoordinates? x y

def generator : PublicKey :=
  ⟨Jacobian.generator.x, Jacobian.generator.y, by decide +kernel⟩

/-! ## Encodings -/

/-- The point that octets encode. The first octet says what follows: 2 and 3 an `x` with an even or an
odd `y`, 4 both coordinates, and 5 an `x` alone, which stands for the even `y`. -/
def ofPoint? : Bytes → Option PublicKey
  | [] => none
  | tag :: rest => do
    if rest.length = 32 then
      let x ← coordinate? (Bytes.toNat rest)
      if tag = 2 || tag = 5 then lift? x false
      else if tag = 3 then lift? x true
      else none
    else if rest.length = 64 && tag = 4 then
      let x ← coordinate? (Bytes.toNat (rest.take 32))
      let y ← coordinate? (Bytes.toNat (rest.drop 32))
      ofCoordinates? x y
    else none

def ofBytes (l : Bytes) : Except KeyError PublicKey :=
  if l.isEmpty then .error (.publicKey .empty)
  else match ofPoint? l with
    | some k => .ok k
    | none => .error (.publicKey .noPoint)

def ofHex (s : String) : Except KeyError PublicKey :=
  match Hex.decode s with
  | .ok l => ofBytes l
  | .error fault => .error (.hex fault)

def compressed (k : PublicKey) : Octets 33 :=
  ⟨(if k.y.val % 2 = 1 then 3 else 2) :: Bytes.ofNat 32 k.x.val, by simp⟩

def toHex (k : PublicKey) : String := Hex.encode k.compressed.toList

instance : ToString PublicKey where
  toString := toHex

/-- Keys are equal if they are compressed alike. -/
instance : BEq PublicKey where
  beq a b := a.compressed == b.compressed

def hash160 (k : PublicKey) : Octets 20 := Hash.hash160 k.compressed.toList

/-! ## Sums -/

/-- Reads a number to add to a key, which has to lie below the group order. -/
def tweak (t : Octets 32) : Except KeyError Scalar :=
  match scalar? t.toNat with
  | some v => .ok v
  | none => .error (.privateKey .tweakOutOfRange)

def addTweak (k : PublicKey) (t : Octets 32) : Except KeyError PublicKey := do
  let v ← tweak t
  match ofJacobian? (k.jacobian.add (Jacobian.times v Jacobian.generator)) with
  | some sum => .ok sum
  | none => .error .pointAtInfinity

end PublicKey

end WalletAuth
