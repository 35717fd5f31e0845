import WalletAuth.Octets

/-! Lengths in front of what they measure: one octet for small numbers, and a marker with two, four or
eight octets, the least significant first, for larger ones. -/
namespace WalletAuth.CompactSize
set_option autoImplicit false

def width (v : UInt64) : Nat :=
  if v < 0xfd then 1 else if v ≤ 0xffff then 3 else if v ≤ 0xffffffff then 5 else 9

/-- A number in `n` octets, the least significant first. -/
def littleEndian (n : Nat) (v : UInt64) : Bytes := (Bytes.ofNat n v.toNat).reverse

/-- The written form of a number, which is the shortest one. -/
def encode (v : UInt64) : Bytes :=
  if v < 0xfd then [v.toUInt8]
  else if v ≤ 0xffff then 0xfd :: littleEndian 2 v
  else if v ≤ 0xffffffff then 0xfe :: littleEndian 4 v
  else 0xff :: littleEndian 8 v

def ofLength (l : Bytes) : Bytes := encode (UInt64.ofNat l.length)

/-- Reads a number of `n` octets and leaves the octets after it. -/
def take? (n : Nat) (l : Bytes) : Option (UInt64 × Bytes) :=
  if n ≤ l.length then some (UInt64.ofNat (Bytes.toNat (l.take n).reverse), l.drop n) else none

/-- Reads a written number and leaves the octets after it. Forms longer than need be are read too. -/
def decode? : Bytes → Option (UInt64 × Bytes)
  | [] => none
  | b :: rest =>
    if b < 0xfd then some (b.toUInt64, rest)
    else if b = 0xfd then take? 2 rest
    else if b = 0xfe then take? 4 rest
    else take? 8 rest

def frame (l : Bytes) : Bytes := ofLength l ++ l

end WalletAuth.CompactSize
