import WalletAuth.HdKey.Basic

/-! The text of an extended key: 78 octets with a checksum, in base 58. The first four tell the network
and whether a private key follows. A private key is led by a zero octet, a public one is compressed,
and a key at depth zero has to be without the traces of a parent. -/
namespace WalletAuth
set_option autoImplicit false

/-- The first octets of the text for a network and a kind of key. -/
def Network.version : Network → (isPrivate : Bool) → Octets 4
  | .mainnet, true => ⟨[0x04, 0x88, 0xad, 0xe4], rfl⟩
  | .mainnet, false => ⟨[0x04, 0x88, 0xb2, 0x1e], rfl⟩
  | .testnet, true => ⟨[0x04, 0x35, 0x83, 0x94], rfl⟩
  | .testnet, false => ⟨[0x04, 0x35, 0x87, 0xcf], rfl⟩

def Network.ofVersion? (l : Bytes) : Option (Network × Bool) :=
  [(.mainnet, true), (.mainnet, false), (.testnet, true), (.testnet, false)].find?
    fun v => (v.1.version v.2).toList == l

def KeyMaterial.octets : KeyMaterial → Octets 33
  | .secret k => ⟨0 :: k.octets.toList, by simp [k.octets.length_toList]⟩
  | .published k => k.compressed

def KeyMaterial.ofOctets (isPrivate : Bool) (l : Bytes) : Except KeyError KeyMaterial :=
  match isPrivate, l with
  | true, 0 :: key => (PrivateKey.ofBytes key).map .secret
  | true, _ => .error (.extendedKey .privatePadding)
  | false, tag :: rest =>
    if tag = 2 || tag = 3 then (PublicKey.ofBytes (tag :: rest)).map .published
    else .error (.extendedKey .publicForm)
  | false, [] => .error (.extendedKey .publicForm)

namespace ExtendedKey

def payload (k : ExtendedKey) : Bytes :=
  (k.network.version k.isPrivate).toList ++ k.depth :: (k.parentFingerprint.toList ++
    (Hash.word32 k.childNumber ++ (k.chainCode.toList ++ k.material.octets.toList)))

def print (k : ExtendedKey) : String := Base58.checkEncode k.payload

instance : ToString ExtendedKey where
  toString := print

/-! ## Reading -/

/-- Whether a key bears traces of a parent, which a root must not. -/
def hasParentTraces (k : ExtendedKey) : Bool :=
  k.parentFingerprint != Octets.replicate 4 0 || k.childNumber != 0

def ofPayload (l : Bytes) : Except KeyError ExtendedKey := do
  let some body := Octets.ofList? (4 + (1 + (4 + (4 + (32 + 33))))) l
    | throw (.extendedKey (.length l.length))
  let some (network, isPrivate) := Network.ofVersion? body.front.toList
    | throw (.extendedKey (.version body.front.toList))
  let afterVersion := body.back
  let afterDepth := afterVersion.back
  let afterParent := afterDepth.back
  let afterNumber := afterParent.back
  let material ← KeyMaterial.ofOctets isPrivate afterNumber.back.toList
  let k : ExtendedKey :=
    { network, depth := UInt8.ofNat afterVersion.front.toNat, parentFingerprint := afterDepth.front
      childNumber := UInt32.ofNat afterParent.front.toNat, chainCode := afterNumber.front, material }
  if k.depth == 0 && k.hasParentTraces then throw (.extendedKey .masterWithParent)
  return k

def read (s : String) : Except KeyError ExtendedKey :=
  if s.isEmpty then .error (.extendedKey .empty)
  else match Base58.checkDecode s with
    | .ok l => ofPayload l
    | .error fault => .error (.base58 fault)

end ExtendedKey

end WalletAuth
