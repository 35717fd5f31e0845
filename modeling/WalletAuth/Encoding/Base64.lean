import WalletAuth.Octets
import WalletAuth.Number.Chunks
import WalletAuth.Text.Utf8

/-! Octets as text in base 64: four symbols for three octets, with `=` for the symbols that the last
group lacks. Exactly the texts that are written are read. -/
namespace WalletAuth.Base64
set_option autoImplicit false

inductive Fault where
  /-- The octet at this place is no symbol, or a mark of padding out of place. -/
  | badSymbol (octet : UInt8) (place : Nat)
  /-- The last symbol has bits that belong to no octet. -/
  | badLastSymbol (octet : UInt8) (place : Nat)
  | badLength (length : Nat)
  | badPadding
deriving DecidableEq, Repr

def Fault.message : Fault → String
  | .badSymbol octet place =>
    "Invalid symbol " ++ toString octet.toNat ++ ", offset " ++ toString place ++ "."
  | .badLastSymbol octet place =>
    "Invalid last symbol " ++ toString octet.toNat ++ ", offset " ++ toString place ++ "."
  | .badLength length => "Invalid input length: " ++ toString length
  | .badPadding => "Invalid padding"

def alphabet : List Char :=
  "ABCDEFGHIJKLMNOPQRSTUVWXYZabcdefghijklmnopqrstuvwxyz0123456789+/".toList

def padding : UInt8 := 0x3d

def value? (b : UInt8) : Option Nat := alphabet.idxOf? (Char.ofNat b.toNat)

def encodeGroup (l : Bytes) : List Char :=
  let symbols := (BitGroup.split 6 l).map (alphabet.getD · 'A')
  symbols ++ List.replicate (4 - symbols.length) '='

def encode (l : Bytes) : String := String.ofList ((chunks 3 l).flatMap encodeGroup)

/-! ## Reading -/

def readSymbols : Nat → Bytes → Except Fault (List Nat)
  | _, [] => .ok []
  | place, b :: rest =>
    match value? b with
    | none => .error (.badSymbol b place)
    | some v => (readSymbols (place + 1) rest).map (v :: ·)

/-- Looks through the last group for the first octet that is out of place: padding before the third
octet, anything but padding after padding, or an octet that is no symbol. Padding that does not end
the group is reported at its first mark. -/
def scanLast (place : Nat) (l : Bytes) : Except Fault (List Nat) := go 0 l
where
  /-- Reads the octets of the group from its octet `i` on, as long as there was no padding. -/
  go (i : Nat) : Bytes → Except Fault (List Nat)
    | [] => .ok []
    | b :: rest =>
      if b = padding then
        if i < 2 || rest.any (· != padding) then .error (.badSymbol padding (place + i))
        else .ok []
      else match value? b with
        | none => .error (.badSymbol b (place + i))
        | some v => (go (i + 1) rest).map (v :: ·)

def readLast (place : Nat) (l : Bytes) : Except Fault Bytes := do
  let symbols ← scanLast place l
  if symbols.length < 2 then throw (.badLength (place + symbols.length))
  if l.length % 4 ≠ 0 then throw .badPadding
  match BitGroup.join? 6 symbols with
  | some octets => return octets
  | none => throw (.badLastSymbol (l.getD (symbols.length - 1) 0) (place + symbols.length - 1))

/-- Reads groups of four octets, the last of which may be shorter; `place` counts the octets before
them. -/
def readGroups : Nat → List Bytes → Except Fault Bytes
  | _, [] => .ok []
  | place, [last] => readLast place last
  | place, group :: rest => do
    let symbols ← readSymbols place group
    let octets ← readGroups (place + 4) rest
    return ((BitGroup.join? 6 symbols).getD []) ++ octets

/-- The stray octet at the end of a text whose last group has one octet only, if it is neither a symbol
nor padding. -/
def strayLast? (l : Bytes) : Option UInt8 :=
  if l.length % 4 = 1 then
    l.getLast?.filter fun b => b != padding && (value? b).isNone
  else none

/-- The octets that a text stands for. A stray last octet is reported before anything else. -/
def decode (s : String) : Except Fault Bytes :=
  let l := Utf8.encode s
  match strayLast? l with
  | some b => .error (.badSymbol b (l.length - 1))
  | none => readGroups 0 (chunks 4 l)

end WalletAuth.Base64
