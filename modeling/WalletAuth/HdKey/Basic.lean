import WalletAuth.Ecdsa.Signature

/-! Extended keys: a private or a public key with a chain code, at some depth of a tree of keys. A node
knows its index below its parent and the fingerprint of the parent. -/
namespace WalletAuth
set_option autoImplicit false

inductive Network where
  | mainnet
  | testnet
deriving DecidableEq, Repr

inductive KeyMaterial where
  | secret (k : PrivateKey)
  | published (k : PublicKey)
deriving BEq

/-- A node of a tree of keys. -/
structure ExtendedKey where
  network : Network
  /-- How many steps lead from the root to the node. -/
  depth : UInt8
  /-- The beginning of the parent's identifying hash, or zeros at the root. -/
  parentFingerprint : Octets 4
  /-- The index of the node below its parent, or zero at the root. -/
  childNumber : UInt32
  chainCode : Octets 32
  material : KeyMaterial
deriving BEq

namespace ExtendedKey

def isPrivate (k : ExtendedKey) : Bool :=
  match k.material with
  | .secret _ => true
  | .published _ => false

def privateKey (k : ExtendedKey) : Except KeyError PrivateKey :=
  match k.material with
  | .secret key => .ok key
  | .published _ => .error .notPrivate

def publicKey (k : ExtendedKey) : PublicKey :=
  match k.material with
  | .secret key => key.publicKey
  | .published key => key

def fingerprint (k : ExtendedKey) : Octets 4 := Octets.front (n := 4) (m := 16) k.publicKey.hash160

def neuter (k : ExtendedKey) : ExtendedKey := { k with material := .published k.publicKey }

/-! ## Roots -/

def seedKey : Bytes := Utf8.encode "Bitcoin seed"

/-- The root that a seed of 16 to 64 octets leads to. -/
def ofSeed (seed : Bytes) (network : Network) : Except KeyError ExtendedKey :=
  if 16 ≤ seed.length && seed.length ≤ 64 then
    let hash : Octets (32 + 32) := Hash.hmacSha512 seedKey seed
    match PrivateKey.ofOctets? hash.front with
    | some key => .ok
        { network, depth := 0, parentFingerprint := Octets.replicate 4 0, childNumber := 0
          chainCode := hash.back, material := .secret key }
    | none => .error (.extendedKey .seedUnusable)
  else .error (.extendedKey (.seedLength seed.length))

/-- The root of 32 octets drawn as a seed. -/
def generate (network : Network) (e : Entropy) : Except KeyError ExtendedKey × Entropy :=
  let (seed, e) := e.draw 32
  (ofSeed seed.toList network, e)

end ExtendedKey

end WalletAuth
