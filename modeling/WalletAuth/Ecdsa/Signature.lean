import WalletAuth.Key.Private

/-! Signatures from which the signer's public key can be recovered, and their form of 65 octets: a
header that tells which of four keys it is and how the key was written, then `r` and `s`. -/
namespace WalletAuth
set_option autoImplicit false
open Curve

/-! ## Nonces

They are made from the key and the digest alone: a generator is keyed with both and asked for 32 octets
until they are a scalar other than zero. -/

namespace Ecdsa

structure Generator where
  key : Octets 32
  value : Octets 32

namespace Generator

def advance (g : Generator) : Generator :=
  { g with value := Hash.hmacSha256 g.key.toList g.value.toList }

/-- Mixes a marker and more octets into the key. -/
def mix (g : Generator) (marker : UInt8) (l : Bytes) : Generator :=
  advance { g with key := Hash.hmacSha256 g.key.toList (g.value.toList ++ marker :: l) }

/-- The generator for a private key and a digest. The digest goes in as it is, whether or not it lies
below the group order. -/
def start (k : PrivateKey) (digest : Octets 32) : Generator :=
  let input := k.octets.toList ++ digest.toList
  let blank : Generator := ⟨Octets.replicate 32 0, Octets.replicate 32 1⟩
  (blank.mix 0 input).mix 1 input

/-- The first scalar other than zero among the next `attempts` candidates. -/
def scalar? : (attempts : Nat) → Generator → Option PrivateKey
  | 0, _ => none
  | attempts + 1, g =>
    let g := g.advance
    match PrivateKey.ofOctets? g.value with
    | some k => some k
    | none => scalar? attempts (g.mix 0 [])

end Generator

/-- How many candidates are tried. A candidate fails about once in `2 ^ 128` times. -/
def nonceAttempts : Nat := 64

@[irreducible] def nonce? (k : PrivateKey) (digest : Octets 32) : Option PrivateKey :=
  (Generator.start k digest).scalar? nonceAttempts

end Ecdsa

/-! ## Signatures -/

/-- A signature. Neither number need be in range, and the signature need not fit any key. -/
structure Signature where
  r : Octets 32
  s : Octets 32
  /-- Bit 0 is the parity of the nonce point's `y`, bit 1 tells that its `x` exceeds the group order. -/
  recoveryId : Fin 4
deriving DecidableEq

namespace Signature

/-- The header of a signature by the first key, written uncompressed. -/
def headerBase : Nat := 27

/-- The 65 octets of a signature by a key that is written compressed or not. -/
def compact (sig : Signature) (compressed : Bool) : Octets 65 :=
  ⟨UInt8.ofNat (headerBase + sig.recoveryId.val + if compressed then 4 else 0) ::
    (sig.r.toList ++ sig.s.toList), by simp [sig.r.length_toList, sig.s.length_toList]⟩

def ofCompact (l : Bytes) : Except KeyError (Signature × Bool) :=
  match l with
  | [] => .error (.signature (.length 0))
  | header :: body =>
    match Octets.ofList? (32 + 32) body with
    | none => .error (.signature (.length l.length))
    | some numbers =>
      if headerBase ≤ header.toNat && header.toNat < headerBase + 8 then
        let flags := header.toNat - headerBase
        .ok (⟨numbers.front, numbers.back, Fin.ofNat 4 flags⟩, decide (4 ≤ flags))
      else .error (.signature (.header header))

/-- The two scalars of a signature, if both are in range and not zero. -/
def scalars? (sig : Signature) : Option (PrivateKey × PrivateKey) := do
  return (← PrivateKey.ofOctets? sig.r, ← PrivateKey.ofOctets? sig.s)

/-- Whether a scalar lies in the upper half of its range. -/
def isHigh (s : Scalar) : Bool := groupOrder / 2 < s.val

end Signature

/-! ## Signing -/

/-- The signature of a digest with a nonce. Of `s` and its negative the lower one is taken, with the
parity of the nonce point turned accordingly. -/
def PrivateKey.signWith? (k nonce : PrivateKey) (digest : Octets 32) : Option Signature := do
  let (x, y) ← (Jacobian.times nonce.scalar Jacobian.generator).toAffine?
  let r := scalarOf x.val
  let s := Scalar.inverse nonce.scalar * (scalarOf digest.toNat + r * k.scalar)
  if r = 0 || s = 0 then none
  else
    let odd := y.val % 2 = 1
    let flip := Signature.isHigh s
    let parity := if decide odd = flip then 0 else 1
    let excess := if groupOrder ≤ x.val then 2 else 0
    some ⟨Octets.ofNat 32 r.val, Octets.ofNat 32 (if flip then -s else s).val,
      Fin.ofNat 4 (excess + parity)⟩

def PrivateKey.sign (k : PrivateKey) (digest : Octets 32) : Except KeyError Signature :=
  ((Ecdsa.nonce? k digest).bind fun nonce => k.signWith? nonce digest).elim
    (.error (.signature .noKey)) .ok

/-! ## Verifying and recovering -/

/-- Whether a signature of a digest was made with the private half of a key. Signatures with an `s` in
the upper half are refused. -/
def PublicKey.verify (k : PublicKey) (digest : Octets 32) (sig : Signature) : Bool :=
  match sig.scalars? with
  | none => false
  | some (r, s) =>
    let i := Scalar.inverse s.scalar
    let sum := (Jacobian.times (i * scalarOf digest.toNat) Jacobian.generator).add
      (Jacobian.times (i * r.scalar) k.jacobian)
    !Signature.isHigh s.scalar && match sum.toAffine? with
      | some (x, _) => scalarOf x.val == r.scalar
      | none => false

/-- The `x` of the nonce point: `r`, or `r` plus the group order. -/
def Signature.nonceX? (r : Scalar) (recoveryId : Fin 4) : Option Coordinate :=
  coordinate? (if 2 ≤ recoveryId.val then r.val + groupOrder else r.val)

/-- The key that a signature of a digest was made with: the nonce point is rebuilt from `r`, and the
equation of the signature is solved for the key. -/
def Signature.recover? (sig : Signature) (digest : Octets 32) : Option PublicKey := do
  let (r, s) ← sig.scalars?
  let x ← nonceX? r.scalar sig.recoveryId
  let nonce ← PublicKey.lift? x (sig.recoveryId.val % 2 = 1)
  let i := Scalar.inverse r.scalar
  let k ← PublicKey.ofJacobian? <|
    (Jacobian.times (-(i * scalarOf digest.toNat)) Jacobian.generator).add
      (Jacobian.times (i * s.scalar) nonce.jacobian)
  if k.verify digest sig then some k else none

def Signature.recover (sig : Signature) (digest : Octets 32) : Except KeyError PublicKey :=
  match sig.recover? digest with
  | some k => .ok k
  | none => .error (.signature .noKey)

end WalletAuth
