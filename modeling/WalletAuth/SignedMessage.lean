import WalletAuth.Ecdsa.Signature
import WalletAuth.Encoding.Base64
import WalletAuth.Encoding.CompactSize

/-! Signed messages. The digest of a message is taken over a fixed phrase and the message, each behind
its length, so that no message can be taken for another. The signature is the form of 65 octets for
a compressed key, and it travels in base 64. -/
namespace WalletAuth.SignedMessage
set_option autoImplicit false

inductive Error where
  | key (error : KeyError)
  | base64 (fault : Base64.Fault)
  /-- The signature is marked for a key that is written uncompressed. -/
  | uncompressedKey
deriving DecidableEq, Repr

def Error.message : Error → String
  | .key error => error.message
  | .base64 fault => "signature is not valid base64: " ++ fault.message
  | .uncompressedKey => "signature does not reference a compressed public key"

def phrase : Bytes := Utf8.encode "Bitcoin Signed Message:\n"

def framed (message : Bytes) : Bytes := CompactSize.frame phrase ++ CompactSize.frame message

def digest (message : Bytes) : Octets 32 := Hash.sha256d (framed message)

def sign (message : Bytes) (key : PrivateKey) : Except Error (Octets 65) :=
  ((key.sign (digest message)).mapError .key).map fun sig => sig.compact true

def signText (message : Bytes) (key : PrivateKey) : Except Error String :=
  (sign message key).map fun sig => Base64.encode sig.toList

def recover (message sig : Bytes) : Except Error PublicKey :=
  match Signature.ofCompact sig with
  | .error e => .error (.key e)
  | .ok (_, false) => .error .uncompressedKey
  | .ok (sig, true) => match sig.recover (digest message) with
    | .ok key => .ok key
    | .error e => .error (.key e)

/-- Whether a key signed a message. A signature by another key is no error, one that belongs to no key
is. -/
def verify (message sig : Bytes) (key : PublicKey) : Except Error Bool :=
  (recover message sig).map (· == key)

def verifyText (message : Bytes) (sig : String) (key : PublicKey) : Except Error Bool :=
  match Base64.decode sig with
  | .ok octets => verify message octets key
  | .error fault => .error (.base64 fault)

end WalletAuth.SignedMessage
