import WalletAuth.Text.Printable
import WalletAuth.Text.Utf8

/-! Hexadecimal text: two digits an octet, lowercase when written, either case when read. -/
namespace WalletAuth.Hex
set_option autoImplicit false

inductive Fault where
  | oddLength
  | badDigit (octet : UInt8) (place : Nat)
deriving DecidableEq, Repr

/-- The wording of a fault; an octet is shown as the character of its number. -/
def Fault.message : Fault → String
  | .oddLength => "Odd number of digits"
  | .badDigit octet place =>
    "Invalid character " ++ Quoted.character (Char.ofNat octet.toNat) ++
      " at position " ++ toString place

def digitValue? (b : UInt8) : Option Nat :=
  if 0x30 ≤ b && b ≤ 0x39 then some (b.toNat - 0x30)
  else if 0x61 ≤ b && b ≤ 0x66 then some (b.toNat - 0x57)
  else if 0x41 ≤ b && b ≤ 0x46 then some (b.toNat - 0x37)
  else none

def ofOctet (b : UInt8) : List Char :=
  [Quoted.digit (b.toNat / 16), Quoted.digit (b.toNat % 16)]

def encode (l : Bytes) : String := String.ofList (l.flatMap ofOctet)

def readDigit (place : Nat) (b : UInt8) : Except Fault Nat :=
  match digitValue? b with
  | some v => .ok v
  | none => .error (.badDigit b place)

def readPairs : Nat → Bytes → Except Fault Bytes
  | place, a :: b :: rest => do
    let high ← readDigit place a
    let low ← readDigit (place + 1) b
    let octets ← readPairs (place + 2) rest
    return UInt8.ofNat (high * 16 + low) :: octets
  | _, _ => .ok []

/-- The octets that a text spells. An odd length is reported before any bad digit. -/
def decode (s : String) : Except Fault Bytes :=
  let octets := Utf8.encode s
  if octets.length % 2 = 1 then .error .oddLength else readPairs 0 octets

end WalletAuth.Hex
