import WalletAuth.SignedMessage
import WalletAuth.Text.Numeral

/-! Why a request cannot be authenticated or is refused, and how each cause is worded. -/
namespace WalletAuth.Auth
set_option autoImplicit false

inductive Error where
  | emptyXpriv
  | emptyXpub
  | emptyAccessKey
  /-- An extended key or the public half of an access key cannot be read or is of the wrong kind. -/
  | keyParse (error : KeyError)
  | accessKey (error : KeyError)
  | derivation (error : KeyError)
  | signing (error : SignedMessage.Error)
  | unreadableBody
  | headerName
  | headerValue
  | missingHeader (name : String)
  | ambiguousIdentity
  | invalidTime (text : String)
  | bodyHashMismatch
  /-- The time lies too far from the clock. -/
  | timeSkew (time now maxSkew : Int64)
  | signatureMismatch
deriving DecidableEq

def Error.message : Error → String
  | .emptyXpriv => "xpriv is empty"
  | .emptyXpub => "xpub is empty"
  | .emptyAccessKey => "access key is empty"
  | .keyParse error => "invalid extended key: " ++ error.message
  | .accessKey error => "invalid access key: " ++ error.message
  | .derivation error => "failed to derive signing key: " ++ error.message
  | .signing error => "signature error: " ++ error.message
  | .unreadableBody => "request body cannot be read for hashing"
  | .headerName => "invalid header name: invalid HTTP header name"
  | .headerValue => "invalid header value: failed to parse header value"
  | .missingHeader name => "missing header: " ++ name
  | .ambiguousIdentity => "request carries both xpub and access key identities"
  | .invalidTime text => "invalid time header: " ++ text
  | .bodyHashMismatch => "body hash mismatch"
  | .timeSkew time now maxSkew =>
    "request time " ++ Numeral.ofInt64 time ++ " is more than " ++ Numeral.ofInt64 maxSkew ++
      "ms away from " ++ Numeral.ofInt64 now
  | .signatureMismatch => "signature does not match identity"

end WalletAuth.Auth
