import WalletAuth.Key.Public

/-! Private keys: the scalars other than zero. A key is read from 32 octets or their hexadecimal text
and can be moved by a number, multiplied onto a public key, or drawn from a source of random octets. -/
namespace WalletAuth
set_option autoImplicit false
open Curve

/-! ## Random octets

A source never runs dry, and each octet is handed out once. -/

/-- A source of random octets, of which some have been drawn. -/
structure Entropy where
  octet : Nat → UInt8
  /-- How many octets have been drawn. -/
  drawn : Nat

namespace Entropy

def next (e : Entropy) (n : Nat) : Octets n :=
  ⟨(List.range n).map fun i => e.octet (e.drawn + i), by simp⟩

def skip (e : Entropy) (n : Nat) : Entropy := { e with drawn := e.drawn + n }

def draw (e : Entropy) (n : Nat) : Octets n × Entropy := (e.next n, e.skip n)

def drawHex (e : Entropy) (n : Nat) : String × Entropy := (Hex.encode (e.next n).toList, e.skip n)

end Entropy

/-! ## Keys -/

/-- A private key, which is a scalar other than zero. -/
structure PrivateKey where
  scalar : Scalar
  ne_zero : scalar ≠ 0
deriving DecidableEq

namespace PrivateKey

def ofScalar? (v : Scalar) : Option PrivateKey := if h : v ≠ 0 then some ⟨v, h⟩ else none

def ofOctets? (o : Octets 32) : Option PrivateKey := do ofScalar? (← scalar? o.toNat)

def ofBytes (l : Bytes) : Except KeyError PrivateKey :=
  match Octets.ofList? 32 l with
  | none => .error (.privateKey (.length l.length))
  | some o => match ofOctets? o with
    | some k => .ok k
    | none => .error (.privateKey .outOfRange)

def ofHex (s : String) : Except KeyError PrivateKey :=
  if s.isEmpty then .error (.privateKey .empty)
  else match Hex.decode s with
    | .ok l => ofBytes l
    | .error fault => .error (.hex fault)

def octets (k : PrivateKey) : Octets 32 := Octets.ofNat 32 k.scalar.val

def toHex (k : PrivateKey) : String := Hex.encode k.octets.toList

/-- The public half: the generator as many times as the key says. The generator has order
`groupOrder`, so the product is finite and the default is never taken. -/
def publicKey (k : PrivateKey) : PublicKey :=
  (PublicKey.ofJacobian? (Jacobian.times k.scalar Jacobian.generator)).getD PublicKey.generator

def addTweak (k : PrivateKey) (t : Octets 32) : Except KeyError PrivateKey := do
  let v ← PublicKey.tweak t
  match ofScalar? (k.scalar + v) with
  | some sum => .ok sum
  | none => .error (.privateKey .zeroSum)

/-- The `x` of the point that this key and another one's public half lead to, which the other key and
this one's public half lead to as well. -/
def sharedX (k : PrivateKey) (p : PublicKey) : Except KeyError (Octets 32) :=
  match (Jacobian.times k.scalar p.jacobian).toAffine? with
  | some (x, _) => .ok (Octets.ofNat 32 x.val)
  | none => .error .pointAtInfinity

/-- Draws a key: 32 octets at a time, at most `attempts` times, until they are a key. -/
def generate? : (attempts : Nat) → Entropy → Option PrivateKey × Entropy
  | 0, e => (none, e)
  | attempts + 1, e =>
    let (o, e) := e.draw 32
    match ofOctets? o with
    | some k => (some k, e)
    | none => generate? attempts e

end PrivateKey

end WalletAuth
