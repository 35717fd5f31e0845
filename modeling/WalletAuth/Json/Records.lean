import WalletAuth.Auth.Authenticator
import WalletAuth.Contact.Pairing
import WalletAuth.Json.Document

/-! The records that are kept in object notation: header names, credentials, contacts and the options
of codes. Records take an object or an array, credentials an object with one name. -/
namespace WalletAuth
set_option autoImplicit false
open Json

namespace Auth

def HeaderNames.ofJson? (s : String) : Option HeaderNames := do
  let fields ← (← Json.read? s).fields?
    ["xpub", "accessKey", "hash", "nonce", "time", "signature"]
  match fields with
  | [xpub, accessKey, hash, nonce, time, signature] =>
    let standard : HeaderNames := {}
    return {
      xpub := ← orDefault Value.string? standard.xpub xpub
      accessKey := ← orDefault Value.string? standard.accessKey accessKey
      hash := ← orDefault Value.string? standard.hash hash
      nonce := ← orDefault Value.string? standard.nonce nonce
      time := ← orDefault Value.string? standard.time time
      signature := ← orDefault Value.string? standard.signature signature }
  | _ => none

def HeaderNames.toJson (n : HeaderNames) : String :=
  Json.object [("xpub", quote n.xpub), ("accessKey", quote n.accessKey), ("hash", quote n.hash),
    ("nonce", quote n.nonce), ("time", quote n.time), ("signature", quote n.signature)]

def Credentials.ofJson? (s : String) : Option Credentials := do
  match ← Json.read? s with
  | .object [(some name, v)] =>
    let text ← v.string?
    if name = "xpub" then some (.xpub text)
    else if name = "xpriv" then some (.xpriv text)
    else if name = "accessKey" then some (.accessKey text)
    else none
  | _ => none

def Credentials.toJson : Credentials → String
  | .xpub text => Json.object [("xpub", quote text)]
  | .xpriv text => Json.object [("xpriv", quote text)]
  | .accessKey text => Json.object [("accessKey", quote text)]

end Auth

namespace Contact

def ofJson? (s : String) : Option Contact := do
  match ← (← Json.read? s).fields? ["pubKey", "paymail"] with
  | [some pubKey, some paymail] =>
    return { pubKey := ← pubKey.string?, paymail := ← paymail.string? }
  | _ => none

def toJson (c : Contact) : String :=
  Json.object [("pubKey", quote c.pubKey), ("paymail", quote c.paymail)]

def CodeOptions.ofJson? (s : String) : Option CodeOptions := do
  match ← (← Json.read? s).fields? ["period", "digits"] with
  | [period, digits] =>
    let standard : CodeOptions := {}
    let period ← orDefault (Value.natural? UInt64.size) standard.period.toNat period
    let digits ← orDefault (Value.natural? UInt32.size) standard.digits.toNat digits
    return { period := UInt64.ofNat period, digits := UInt32.ofNat digits }
  | _ => none

def CodeOptions.toJson (o : CodeOptions) : String :=
  Json.object [("period", toString o.period.toNat), ("digits", toString o.digits.toNat)]

end Contact

end WalletAuth
