import WalletAuth.Octets
import WalletAuth.Number.Chunks
import WalletAuth.Text.Utf8

/-! Octets as text in base 32: eight symbols for five octets, with `=` for the symbols that a group
lacks. Reading takes groups of eight on their own, so that padding may also end a group before the
last. -/
namespace WalletAuth.Base32
set_option autoImplicit false

inductive Fault where
  /-- A group is padded to a length that no octets have, its symbols ending at this place. -/
  | badPadding (place : Nat)
  | badSymbol (place : Nat)
  /-- The symbol at this place has bits that belong to no octet. -/
  | spareBits (place : Nat)
deriving DecidableEq, Repr

def Fault.message : Fault → String
  | .badPadding place => "invalid padding length at " ++ toString place
  | .badSymbol place => "invalid symbol at " ++ toString place
  | .spareBits place => "non-zero trailing bits at " ++ toString place

def alphabet : List Char := "ABCDEFGHIJKLMNOPQRSTUVWXYZ234567".toList

def padding : UInt8 := 0x3d

def value? (b : UInt8) : Option Nat := alphabet.idxOf? (Char.ofNat b.toNat)

def encodeGroup (l : Bytes) : List Char :=
  let symbols := (BitGroup.split 5 l).map (alphabet.getD · 'A')
  symbols ++ List.replicate (8 - symbols.length) '='

def encode (l : Bytes) : String := String.ofList ((chunks 5 l).flatMap encodeGroup)

def readSymbols : Nat → Bytes → Except Fault (List Nat)
  | _, [] => .ok []
  | place, b :: rest =>
    match value? b with
    | none => .error (.badSymbol place)
    | some v => (readSymbols (place + 1) rest).map (v :: ·)

/-- The octets of a group without the padding at its end. -/
def stripPadding (l : Bytes) : Bytes := (l.reverse.dropWhile (· == padding)).reverse

def readGroup (place : Nat) (l : Bytes) : Except Fault Bytes := do
  let body := stripPadding l
  if [0, 1, 3, 6].contains body.length then throw (.badPadding (place + body.length))
  let symbols ← readSymbols place body
  match BitGroup.join? 5 symbols with
  | some octets => return octets
  | none => throw (.spareBits (place + body.length - 1))

def readGroups : Nat → List Bytes → Except Fault Bytes
  | _, [] => .ok []
  | place, group :: rest => do
    let octets ← readGroup place group
    return octets ++ (← readGroups (place + 8) rest)

/-- The octets that a text in octets stands for, whose length has to be a multiple of eight. -/
def decode (l : Bytes) : Except Fault Bytes := readGroups 0 (chunks 8 l)

end WalletAuth.Base32
