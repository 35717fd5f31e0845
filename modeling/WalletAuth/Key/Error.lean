import WalletAuth.Encoding.Base58
import WalletAuth.Encoding.Hex

/-! Why a key, a signature or a derivation is refused, and how each cause is worded. -/
namespace WalletAuth
set_option autoImplicit false

inductive PrivateKeyFault where
  | empty
  | length (octets : Nat)
  | outOfRange
  | tweakOutOfRange
  | zeroSum
deriving DecidableEq, Repr

inductive PublicKeyFault where
  | empty
  /-- The octets are not the encoding of a finite point. -/
  | noPoint
deriving DecidableEq, Repr

inductive SignatureFault where
  | length (octets : Nat)
  /-- The first octet is none of the eight that mark a signature. -/
  | header (octet : UInt8)
  | noKey
deriving DecidableEq, Repr

inductive ExtendedKeyFault where
  | empty
  | length (octets : Nat)
  | version (octets : Bytes)
  /-- A private key is not led by a zero octet. -/
  | privatePadding
  /-- A public key is not compressed. -/
  | publicForm
  /-- A key without a parent carries the traces of one. -/
  | masterWithParent
  /-- A seed has not 16 to 64 octets but this many. -/
  | seedLength (octets : Nat)
  | seedUnusable
  | expectedPublic
deriving DecidableEq, Repr

inductive KeyError where
  | privateKey (fault : PrivateKeyFault)
  | publicKey (fault : PublicKeyFault)
  | signature (fault : SignatureFault)
  | extendedKey (fault : ExtendedKeyFault)
  | hex (fault : Hex.Fault)
  | base58 (fault : Base58.Fault)
  | pointAtInfinity
  | hardenedFromPublic
  | notPrivate
  | invalidChild (index : UInt32)
  | depthExceeded
  | pathChunk (octets : Bytes)
  | pathIndex (value : Int)
deriving DecidableEq, Repr

/-- What is said of numbers that fit no key or signature. -/
def unusable : String := "signature error"

def PrivateKeyFault.message : PrivateKeyFault → String
  | .empty => "private key hex is empty"
  | .length octets => "expected 32 bytes, got " ++ toString octets
  | .outOfRange => unusable
  | .tweakOutOfRange => "scalar is not below the curve order"
  | .zeroSum => "tweaked scalar is zero"

def PublicKeyFault.message : PublicKeyFault → String
  | .empty => "pubkey string is empty"
  | .noPoint => unusable

def SignatureFault.message : SignatureFault → String
  | .length octets => "invalid compact signature size: " ++ toString octets
  | .header octet => "invalid compact signature header: " ++ toString octet.toNat
  | .noKey => unusable

def ExtendedKeyFault.message : ExtendedKeyFault → String
  | .empty => "key string is empty"
  | .length octets => "expected 78 bytes, got " ++ toString octets
  | .version octets => "unknown version " ++ Hex.encode octets
  | .privatePadding => "private key data must start with 0x00"
  | .publicForm => "public key data must be compressed"
  | .masterWithParent => "master key with non-zero parent fingerprint or index"
  | .seedLength octets =>
    "seed length must be between 16 and 64 bytes, got " ++ toString octets
  | .seedUnusable => "seed produced an unusable master key"
  | .expectedPublic => "expected a public extended key"

/-- The wording of a chunk that is no number: the chunk and what is wrong with it, or what can be read
of the chunk if it is no text. -/
def pathChunkMessage (octets : Bytes) : String :=
  match Utf8.decode? octets with
  | some text => text ++ ": invalid digit found in string"
  | none => Utf8.decodeLossy octets

def KeyError.message : KeyError → String
  | .privateKey fault => "invalid private key: " ++ fault.message
  | .publicKey fault => "invalid public key: " ++ fault.message
  | .signature fault => "invalid signature: " ++ fault.message
  | .extendedKey fault => "invalid extended key: " ++ fault.message
  | .hex fault => "invalid hex: " ++ fault.message
  | .base58 .checksum => Base58.Fault.checksum.message
  | .base58 fault => "invalid base58: " ++ fault.message
  | .pointAtInfinity => "point not on curve"
  | .hardenedFromPublic => "cannot derive a hardened child from a public extended key"
  | .notPrivate => "extended key is public and holds no private key"
  | .invalidChild index => "derived child key is invalid at index " ++ toString index.toNat
  | .depthExceeded => "maximum derivation depth exceeded"
  | .pathChunk octets => "derivation path chunk is not valid hex: " ++ pathChunkMessage octets
  | .pathIndex value => "derivation index out of range: " ++ toString value

end WalletAuth
