import WalletAuth.Hash.Sha
import WalletAuth.Text.Printable

/-! Octets as text in base 58, plain and with a checksum behind them. A leading zero octet is written
as a leading `1`, so that no length is lost. -/
namespace WalletAuth.Base58
set_option autoImplicit false

inductive Fault where
  | nonAscii (place : Nat)
  | badCharacter (c : Char) (place : Nat)
  | tooShort
  | checksum
deriving DecidableEq, Repr

def Fault.message : Fault → String
  | .nonAscii place =>
    "provided string contained non-ascii character starting at byte " ++ toString place
  | .badCharacter c place =>
    "provided string contained invalid character " ++ Quoted.character c ++ " at byte " ++
      toString place
  | .tooShort => "data too short for checksum"
  | .checksum => "checksum mismatch"

/-- The digits in order of value: figures and letters without those that look alike. -/
def alphabet : List Char :=
  "123456789ABCDEFGHJKLMNPQRSTUVWXYZabcdefghijkmnopqrstuvwxyz".toList

def value? (c : Char) : Option Nat := alphabet.idxOf? c

def digit (v : Nat) : Char := alphabet.getD v '1'

def encode (l : Bytes) : String :=
  String.ofList ((Radix.rebase 256 58 (l.map UInt8.toNat)).map digit)

def readDigits : Nat → List Char → Except Fault (List Nat)
  | _, [] => .ok []
  | place, c :: rest =>
    if 0x7f < c.toNat then .error (.nonAscii place)
    else match value? c with
      | none => .error (.badCharacter c place)
      | some v => (readDigits (place + 1) rest).map (v :: ·)

def decode (s : String) : Except Fault Bytes :=
  (readDigits 0 s.toList).map fun ds => (Radix.rebase 58 256 ds).map UInt8.ofNat

/-! ## With a checksum -/

/-- The checksum of an octet string: the first four octets of its double hash. -/
def checksum (l : Bytes) : Bytes := (Hash.sha256d l).toList.take 4

def checkEncode (l : Bytes) : String := encode (l ++ checksum l)

/-- Splits octets into what they carry and the checksum at their end, which has to fit. -/
def checked (l : Bytes) : Except Fault Bytes :=
  if l.length < 4 then .error .tooShort
  else
    let payload := l.take (l.length - 4)
    if l.drop (l.length - 4) = checksum payload then .ok payload else .error .checksum

def checkDecode (s : String) : Except Fault Bytes := do checked (← decode s)

end WalletAuth.Base58
