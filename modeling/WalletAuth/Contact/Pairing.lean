import WalletAuth.Contact.Code
import WalletAuth.HdKey.Walk

/-! Codes between two contacts. Each party's pairing key and the other's public pairing key lead to the
same secret number; with a payment address behind it the secret is good for codes in one direction. -/
namespace WalletAuth
set_option autoImplicit false

structure Contact where
  pubKey : String
  paymail : String
deriving DecidableEq, Repr

namespace Contact

def pairingPrivateKey (root : ExtendedKey) : Except KeyError PrivateKey := do
  (← root.pairingKey).privateKey

/-- The secret that a root shares with the holder of a public pairing key: the `x` of their common
point, without leading zeros. -/
def sharedSecret (root : ExtendedKey) (pubKey : String) : Except Error Bytes :=
  match pairingPrivateKey root with
  | .error e => .error (.derivation e)
  | .ok key => match PublicKey.ofHex pubKey with
    | .error e => .error (.contactKey e)
    | .ok other => match key.sharedX other with
      | .error e => .error (.derivation e)
      | .ok x => .ok (x.toList.dropWhile (· == 0))

def directedSecret (shared : Bytes) (paymail : String) : String :=
  Base32.encode (shared ++ Utf8.encode paymail)

/-- The code that the holder of a root gives to a contact, directed by the contact's address. -/
def codeFor (root : ExtendedKey) (contact : Contact) (o : CodeOptions) (time : UInt64) :
    Except Error String := do
  let shared ← sharedSecret root contact.pubKey
  codeAt (directedSecret shared contact.paymail) time o

/-- Whether a code is the one that a contact gives, directed by the address `directing`. -/
def checkCodeFrom (root : ExtendedKey) (contact : Contact) (code directing : String)
    (o : CodeOptions) (time : UInt64) : Except Error Bool := do
  let shared ← sharedSecret root contact.pubKey
  checkCodeAt code (directedSecret shared directing) time o

end Contact

end WalletAuth
