import WalletAuth.Number.Radix
import WalletAuth.Text.Utf8

/-! Signed numerals: one sign at most, then at least one digit and nothing else. -/
namespace WalletAuth.Numeral
set_option autoImplicit false

def decimalDigit? (b : UInt8) : Option Nat :=
  if 0x30 ≤ b && b ≤ 0x39 then some (b.toNat - 0x30) else none

/-- The number that a run of digits stands for. -/
def natural? (base : Nat) (digit? : UInt8 → Option Nat) (l : Bytes) : Option Nat :=
  if l.isEmpty then none else (l.mapM digit?).map (Radix.ofDigits base)

/-- The number that a numeral with or without a sign stands for. -/
def signed? (base : Nat) (digit? : UInt8 → Option Nat) : Bytes → Option Int
  | [] => none
  | b :: rest =>
    if b = 0x2b then (natural? base digit? rest).map Int.ofNat
    else if b = 0x2d then (natural? base digit? rest).map fun v => -Int.ofNat v
    else (natural? base digit? (b :: rest)).map Int.ofNat

def int64? (s : String) : Option Int64 := do
  let v ← signed? 10 decimalDigit? (Utf8.encode s)
  if Int64.minValue.toInt ≤ v && v ≤ Int64.maxValue.toInt then some (Int64.ofInt v) else none

def digit (v : Nat) : Char := Char.ofNat (0x30 + v)

/-- The decimal numeral of a number without leading zeros. -/
def ofNat (v : Nat) : String :=
  String.ofList (if v = 0 then ['0'] else (Radix.digits 10 v).map digit)

/-- The decimal numeral of a number of 64 bits, with a sign if it is negative. -/
def ofInt64 (v : Int64) : String :=
  if v < 0 then "-" ++ ofNat v.toInt.natAbs else ofNat v.toInt.natAbs

def padded (width v : Nat) : String := String.ofList ((Radix.toDigits 10 width v).map digit)

end WalletAuth.Numeral
