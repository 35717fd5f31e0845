import WalletAuth.HdKey.Basic

/-! Children of extended keys. The child at an index is the parent's key moved by a number that the
parent's chain code, its key and the index lead to; the rest of the hash is the child's chain code.
Below `hardenedStart` the public half of the parent is hashed, so that the public halves of the
children can be derived without the private ones. -/
namespace WalletAuth
set_option autoImplicit false

/-- The first index whose child needs the private key of the parent. -/
def hardenedStart : UInt32 := 0x80000000

def KeyMaterial.move (material : KeyMaterial) (t : Octets 32) : Except KeyError KeyMaterial :=
  match material with
  | .secret key => (key.addTweak t).map .secret
  | .published key => (key.addTweak t).map .published

namespace ExtendedKey

/-- The octets of the parent's key that go into the hash for a child. -/
def childInput (k : ExtendedKey) (index : UInt32) : Except KeyError Bytes :=
  match k.material, decide (hardenedStart ≤ index) with
  | .published _, true => .error .hardenedFromPublic
  | .secret key, true => .ok (0 :: key.octets.toList)
  | _, false => .ok k.publicKey.compressed.toList

def childHash (k : ExtendedKey) (input : Bytes) (index : UInt32) : Octets (32 + 32) :=
  Hash.hmacSha512 k.chainCode.toList (input ++ Hash.word32 index)

/-- The node one step below `k` with the given key. The depth of `k` has to leave room for it. -/
def below (k : ExtendedKey) (index : UInt32) (chainCode : Octets 32) (material : KeyMaterial) :
    ExtendedKey where
  network := k.network
  depth := k.depth + 1
  parentFingerprint := k.fingerprint
  childNumber := index
  chainCode := chainCode
  material := material

/-- The child at an index: private below a private key, public below a public one. -/
def child (k : ExtendedKey) (index : UInt32) : Except KeyError ExtendedKey :=
  if k.depth = 255 then .error .depthExceeded
  else do
    let input ← k.childInput index
    let hash := k.childHash input index
    match k.material.move hash.front with
    | .error _ => .error (.invalidChild index)
    | .ok material => .ok (k.below index hash.back material)

/-- The key at the end of a path of indices, one step a child. -/
def descend (k : ExtendedKey) (path : List UInt32) : Except KeyError ExtendedKey :=
  path.foldlM child k

end ExtendedKey

end WalletAuth
