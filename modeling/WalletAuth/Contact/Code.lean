import WalletAuth.Encoding.Base32
import WalletAuth.Hash.Sha
import WalletAuth.Key.Error
import WalletAuth.Text.Numeral

/-! One-time codes. Time is counted in periods, the count is tagged under the secret, and a code is
decimal digits of a number of 31 bits that the tag itself points out. -/
namespace WalletAuth.Contact
set_option autoImplicit false

/-- Why a code for a contact cannot be made or checked. -/
inductive Error where
  | contactKey (error : KeyError)
  | derivation (error : KeyError)
  | secret (fault : Base32.Fault)
  | digits (count : UInt32)
deriving DecidableEq, Repr

/-- The wording of an error, which for the key of a contact is the same whatever the cause. -/
def Error.message : Error → String
  | .contactKey _ => "invalid contact public key"
  | .derivation error => "failed to derive pairing key: " ++ error.message
  | .secret fault => "invalid totp secret: " ++ fault.message
  | .digits count => "unsupported number of digits: " ++ toString count.toNat

/-- The period and the length of codes. Zero stands for the default. -/
structure CodeOptions where
  /-- The seconds for which a code stays the same. -/
  period : UInt64 := 30
  digits : UInt32 := 2
deriving DecidableEq, Repr

namespace CodeOptions

def effectivePeriod (o : CodeOptions) : UInt64 := if o.period = 0 then 30 else o.period

def effectiveDigits (o : CodeOptions) : UInt32 := if o.digits = 0 then 2 else o.digits

end CodeOptions

/-- The most digits that a number of 31 bits can fill. -/
def maxDigits : UInt32 := 10

/-! ## The secret -/

def upperAscii (b : UInt8) : UInt8 := if 0x61 ≤ b && b ≤ 0x7a then b - 0x20 else b

/-- The octets of a secret as base 32 wants them: without white space around, in upper case, and with
padding up to whole groups. -/
def normalizeSecret (s : String) : Bytes :=
  let l := (Utf8.encode (String.ofList (trimBlanks s.toList))).map upperAscii
  l ++ List.replicate ((8 - l.length % 8) % 8) Base32.padding

def decodeSecret (s : String) : Except Error Bytes :=
  match Base32.decode (normalizeSecret s) with
  | .ok key => .ok key
  | .error fault => .error (.secret fault)

/-! ## The code -/

/-- The number of 31 bits in a tag: four octets from the place that the last half octet names, without
the first bit. -/
def truncate (tag : Octets 20) : Nat :=
  let place := (tag.toList.getD 19 0).toNat % 16
  Bytes.toNat ((tag.toList.drop place).take 4) % 0x80000000

/-- The power of ten that codes of so many digits are reduced by, as a number of 64 bits. -/
def modulus (digits : Nat) : UInt64 := UInt64.pow 10 digits

/-- The code for a count: the number that the count is tagged with, reduced to so many digits. -/
def counterCode (key : Bytes) (count : UInt64) (digits : Nat) : String :=
  let number := UInt64.ofNat (truncate (Hash.hmacSha1 key (Hash.word64 count)))
  Numeral.padded digits (number % modulus digits).toNat

/-- The code for a secret at a time in seconds. -/
def codeAt (secret : String) (time : UInt64) (o : CodeOptions) : Except Error String := do
  let key ← decodeSecret secret
  if maxDigits < o.effectiveDigits then throw (.digits o.effectiveDigits)
  return counterCode key (time / o.effectivePeriod) o.effectiveDigits.toNat

/-- Whether a code is the one for a secret at a time. A code of the wrong length is refused before
anything else is looked at. -/
def checkCodeAt (code secret : String) (time : UInt64) (o : CodeOptions) : Except Error Bool :=
  if (Utf8.encode code).length ≠ o.effectiveDigits.toNat then .ok false
  else (codeAt secret time o).map (· == code)

end WalletAuth.Contact
