import WalletAuth.Auth.Payload

/-! Authenticators, which write what they know of the caller into the header fields of a request. One
that knows only an extended public key names itself; one that holds a private key signs as well. -/
namespace WalletAuth.Auth
set_option autoImplicit false
open Http

inductive Signer where
  | xpub (text : String)
  | xpriv (root : ExtendedKey)
  | accessKey (key : PrivateKey)

namespace Signer

def ofXpubKey (k : ExtendedKey) : Signer := .xpub k.neuter.print

def ofXpub (s : String) : Except Error Signer :=
  if s.isEmpty then .error .emptyXpub
  else match ExtendedKey.read s with
    | .error e => .error (.keyParse e)
    | .ok k =>
      if k.isPrivate then .error (.keyParse (.extendedKey .expectedPublic)) else .ok (ofXpubKey k)

def ofXprivKey (k : ExtendedKey) : Except Error Signer :=
  if k.isPrivate then .ok (.xpriv k) else .error (.keyParse .notPrivate)

def ofXpriv (s : String) : Except Error Signer :=
  if s.isEmpty then .error .emptyXpriv
  else match ExtendedKey.read s with
    | .error e => .error (.keyParse e)
    | .ok k => ofXprivKey k

def ofAccessKey (s : String) : Except Error Signer :=
  if s.isEmpty then .error .emptyAccessKey
  else match PrivateKey.ofHex s with
    | .error e => .error (.accessKey e)
    | .ok key => .ok (.accessKey key)

def identity : Signer → Identity
  | .xpub text => .xpub text
  | .xpriv root => .xpub root.neuter.print
  | .accessKey key => .accessKey key.publicKey.toHex

/-- What may be shown of a signer that holds a private key: its identity, never the key. -/
def description? : Signer → Option String
  | .xpub _ => none
  | .xpriv root =>
    some ("XprivAuthenticator \x7b xpub: " ++ Quoted.string root.neuter.print ++ ", .. \x7d")
  | .accessKey key =>
    some ("AccessKeyAuthenticator \x7b pub_key: " ++ Quoted.string key.publicKey.toHex ++
      ", .. \x7d")

end Signer

/-- Credentials, as a wallet is configured with them. -/
inductive Credentials where
  | xpub (text : String)
  | xpriv (text : String)
  | accessKey (text : String)
deriving DecidableEq

namespace Credentials

def signer : Credentials → Except Error Signer
  | .xpub text => Signer.ofXpub text
  | .xpriv text => Signer.ofXpriv text
  | .accessKey text => Signer.ofAccessKey text

/-- What may be shown of credentials: a public key, but no private one. -/
def description : Credentials → String
  | .xpub text => "Xpub(" ++ Quoted.string text ++ ")"
  | .xpriv _ => "Xpriv(..)"
  | .accessKey _ => "AccessKey(..)"

end Credentials

structure Authenticator where
  signer : Signer
  names : HeaderNames := {}

/-- What a call may change: the header fields of the request and the source of random octets. -/
structure Outgoing where
  headers : HeaderMap
  entropy : Entropy

/-- A call that may change header fields and draw random octets, and that may fail. -/
abbrev AuthM := EStateM Error Outgoing

def takeNonce : AuthM String :=
  modifyGet fun out =>
    let (nonce, entropy) := drawNonce out.entropy
    (nonce, { out with entropy })

/-- Takes steps on the header fields of a request, which stay as the steps leave them even if one fails. -/
def onHeaders (steps : HeaderM Unit) : AuthM Unit := fun out =>
  match steps.run out.headers with
  | .ok _ headers => .ok () { out with headers }
  | .error e headers => .error e { out with headers }

/-- Writes an extended public key into header fields and takes away what another authenticator may
have written. All names and the value are looked at before any field changes. -/
def writeXpubOnly (names : HeaderNames) (xpub : String) : HeaderM Unit := do
  let field ← ofExcept (Payload.headerField (names.xpub, xpub))
  let stale ← ofExcept ([names.accessKey, names.hash, names.nonce, names.time, names.signature].mapM
    Payload.headerName)
  stale.forM eraseField
  insertField field

namespace Authenticator

def sign (a : Authenticator) (body : Bytes) (time : Int64) : AuthM Unit :=
  match a.signer with
  | .xpub text => onHeaders (writeXpubOnly a.names text)
  | .xpriv root => do
    let nonce ← takeNonce
    let payload ← ofExcept (Payload.signByXpriv root body nonce time)
    onHeaders (payload.writeHeaders a.names)
  | .accessKey key => do
    let nonce ← takeNonce
    let payload ← ofExcept (Payload.signByAccessKey key body nonce time)
    onHeaders (payload.writeHeaders a.names)

end Authenticator

inductive Body where
  | absent
  | octets (l : Bytes)
  | stream

def Body.read : Body → Except Error Bytes
  | .absent => .ok []
  | .octets l => .ok l
  | .stream => .error .unreadableBody

/-- Authenticates a request, whose body is looked at first. -/
def Authenticator.authenticate (a : Authenticator) (body : Body) (time : Int64) : AuthM Unit := do
  a.sign (← ofExcept body.read) time

end WalletAuth.Auth
