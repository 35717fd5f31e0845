import WalletAuth.Auth.Error
import WalletAuth.HdKey.Walk
import WalletAuth.Http.Headers

/-! The signed payload of a request: an identity, the hash of the body, a nonce and a time, with a
signature over all of them as they are written. An extended key signs with the child that the nonce
leads to, so that its public half is enough to check the signature; an access key signs itself. -/
namespace WalletAuth.Auth
set_option autoImplicit false
open Http

inductive Identity where
  | xpub (text : String)
  | accessKey (text : String)
deriving DecidableEq, Repr

def Identity.text : Identity → String
  | .xpub text => text
  | .accessKey text => text

/-- The names of the header fields, as they were configured. They need not be valid or different. -/
structure HeaderNames where
  xpub : String := "x-auth-xpub"
  /-- Carries the public half of an access key. -/
  accessKey : String := "x-auth-key"
  hash : String := "x-auth-hash"
  nonce : String := "x-auth-nonce"
  time : String := "x-auth-time"
  signature : String := "x-auth-signature"
deriving DecidableEq, Repr

structure Payload where
  identity : Identity
  bodyHash : String
  nonce : String
  /-- The time of signing in milliseconds. -/
  time : Int64
  signature : String
deriving DecidableEq

def hashBody (body : Bytes) : String := Hex.encode (Hash.sha256 body).toList

def nonceLength : Nat := 32

def drawNonce (e : Entropy) : String × Entropy := e.drawHex nonceLength

/-- Steps on header fields, which change them in place: what is changed before a step fails stays
changed. -/
abbrev HeaderM := EStateM Error HeaderMap

def eraseField (n : HeaderName) : HeaderM Unit := modify (·.erase n)

def insertField (f : HeaderName × HeaderValue) : HeaderM Unit := modify (·.insert f.1 f.2)

namespace Payload

/-! ## Signing -/

/-- The text that the signature covers: the parts one behind the other. -/
def signingMessage (p : Payload) : String :=
  p.identity.text ++ p.bodyHash ++ p.nonce ++ Numeral.ofInt64 p.time

def signedOctets (p : Payload) : Bytes := Utf8.encode p.signingMessage

def signAs (identity : Identity) (key : PrivateKey) (body : Bytes) (nonce : String) (time : Int64) :
    Except Error Payload :=
  let unsigned : Payload := { identity, bodyHash := hashBody body, nonce, time, signature := "" }
  ((SignedMessage.signText unsigned.signedOctets key).mapError .signing).map fun signature =>
    { unsigned with signature }

def signByXpriv (root : ExtendedKey) (body : Bytes) (nonce : String) (time : Int64) :
    Except Error Payload :=
  match root.descendText nonce with
  | .error e => .error (.derivation e)
  | .ok child => match child.privateKey with
    | .error e => .error (.keyParse e)
    | .ok key => signAs (.xpub root.neuter.print) key body nonce time

def signByAccessKey (key : PrivateKey) (body : Bytes) (nonce : String) (time : Int64) :
    Except Error Payload :=
  signAs (.accessKey key.publicKey.toHex) key body nonce time

/-! ## Header fields -/

def headerName (name : String) : Except Error HeaderName :=
  match HeaderName.ofString? name with
  | some n => .ok n
  | none => .error .headerName

def headerValue (value : String) : Except Error HeaderValue :=
  match HeaderValue.ofString? value with
  | some v => .ok v
  | none => .error .headerValue

def headerField (field : String × String) : Except Error (HeaderName × HeaderValue) := do
  let n ← headerName field.1
  let v ← headerValue field.2
  return (n, v)

/-- The name of the field for the identity, and that of the field for the other kind of identity. -/
def identityNames (p : Payload) (names : HeaderNames) : String × String :=
  match p.identity with
  | .xpub _ => (names.xpub, names.accessKey)
  | .accessKey _ => (names.accessKey, names.xpub)

def fieldTexts (p : Payload) (names : HeaderNames) : List (String × String) :=
  [((p.identityNames names).1, p.identity.text), (names.hash, p.bodyHash), (names.nonce, p.nonce),
    (names.time, Numeral.ofInt64 p.time), (names.signature, p.signature)]

/-- Writes a payload into header fields. All names and values are looked at before any field changes;
then the field for the other kind of identity goes, and each part becomes the only value of its
name. -/
def writeHeaders (p : Payload) (names : HeaderNames) : HeaderM Unit := do
  let fields ← ofExcept ((p.fieldTexts names).mapM headerField)
  let other ← ofExcept (headerName (p.identityNames names).2)
  eraseField other
  fields.forM insertField

/-- The header fields that a payload is written into, as a caller has them who gives them up if it
cannot be written. -/
def write (p : Payload) (names : HeaderNames) (m : HeaderMap) : Except Error HeaderMap :=
  match (p.writeHeaders names).run m with
  | .ok _ written => .ok written
  | .error e _ => .error e

def required (m : HeaderMap) (name : String) : Except Error String :=
  match m.text? name with
  | some s => .ok s
  | none => .error (.missingHeader name)

/-- The identity in header fields, which have to have exactly one. -/
def readIdentity (m : HeaderMap) (names : HeaderNames) : Except Error Identity :=
  match m.text? names.xpub, m.text? names.accessKey with
  | some _, some _ => .error .ambiguousIdentity
  | some x, none => .ok (.xpub x)
  | none, some k => .ok (.accessKey k)
  | none, none => .error (.missingHeader names.xpub)

def readTime (m : HeaderMap) (names : HeaderNames) : Except Error Int64 := do
  let text ← required m names.time
  match Numeral.int64? text with
  | some time => .ok time
  | none => .error (.invalidTime text)

/-- Reads a payload from header fields: identity first, then time, then the rest. -/
def read (m : HeaderMap) (names : HeaderNames) : Except Error Payload := do
  let identity ← readIdentity m names
  let time ← readTime m names
  let bodyHash ← required m names.hash
  let nonce ← required m names.nonce
  let signature ← required m names.signature
  return { identity, bodyHash, nonce, time, signature }

/-! ## Checking -/

/-- How far the time of a request may lie from the clock, unless told otherwise. -/
def defaultMaxSkew : Int64 := 30000

/-- The key that has to have signed: the child that the nonce leads to, or the access key itself. -/
def expectedSigner (p : Payload) : Except Error PublicKey :=
  match p.identity with
  | .xpub text => match ExtendedKey.read text with
    | .error e => .error (.keyParse e)
    | .ok root => match root.neuter.descendText p.nonce with
      | .error e => .error (.derivation e)
      | .ok child => .ok child.publicKey
  | .accessKey text => match PublicKey.ofHex text with
    | .error e => .error (.keyParse e)
    | .ok key => .ok key

/-- Whether two times are further apart than the size of `maxSkew`. -/
def tooFarApart (time now maxSkew : Int64) : Bool :=
  maxSkew.toInt.natAbs < (time.toInt - now.toInt).natAbs

/-- Checks a payload against the body that came with it and the clock: the hash, the time, the key and
the signature, in this order. -/
def verify (p : Payload) (body : Bytes) (now maxSkew : Int64) : Except Error Unit :=
  if hashBody body ≠ p.bodyHash then .error .bodyHashMismatch
  else if tooFarApart p.time now maxSkew then .error (.timeSkew p.time now maxSkew)
  else match p.expectedSigner with
    | .error e => .error e
    | .ok key => match SignedMessage.verifyText p.signedOctets p.signature key with
      | .error e => .error (.signing e)
      | .ok true => .ok ()
      | .ok false => .error .signatureMismatch

end Payload

end WalletAuth.Auth
