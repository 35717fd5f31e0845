import WalletAuth.Number.Radix

/-! Octet strings of any length (`Bytes`) and of a fixed one (`Octets n`), and the numbers they stand
for with the most significant octet first. -/
namespace WalletAuth
set_option autoImplicit false

abbrev Bytes := List UInt8

namespace Bytes

/-- The number an octet string stands for, its first octet being the most significant. -/
def toNat (l : Bytes) : Nat := Radix.ofDigits 256 (l.map UInt8.toNat)

/-- The last `width` octets of `n`, the most significant first. -/
def ofNat (width n : Nat) : Bytes := (Radix.toDigits 256 width n).map UInt8.ofNat

@[simp] theorem length_ofNat (width n : Nat) : (ofNat width n).length = width := by
  simp [ofNat]

end Bytes

@[ext] structure Octets (n : Nat) where
  toList : Bytes
  length_toList : toList.length = n
deriving DecidableEq

namespace Octets

variable {n m : Nat}

def ofList? (n : Nat) (l : Bytes) : Option (Octets n) :=
  if h : l.length = n then some ⟨l, h⟩ else none

def toNat (o : Octets n) : Nat := Bytes.toNat o.toList

def ofNat (n v : Nat) : Octets n := ⟨Bytes.ofNat n v, Bytes.length_ofNat n v⟩

def append (a : Octets n) (b : Octets m) : Octets (n + m) :=
  ⟨a.toList ++ b.toList, by simp [a.length_toList, b.length_toList]⟩

def front (o : Octets (n + m)) : Octets n :=
  ⟨o.toList.take n, by simp [o.length_toList]⟩

def back (o : Octets (n + m)) : Octets m :=
  ⟨o.toList.drop n, by simp [o.length_toList]⟩

def replicate (n : Nat) (b : UInt8) : Octets n := ⟨List.replicate n b, List.length_replicate⟩

theorem ofList?_eq_some_iff {l : Bytes} {o : Octets n} : ofList? n l = some o ↔ l = o.toList := by
  unfold ofList?
  split
  · simp [Octets.ext_iff]
  · next h =>
    simp only [reduceCtorEq, false_iff]
    rintro rfl
    exact h o.length_toList

@[simp] theorem ofList?_toList (o : Octets n) : ofList? n o.toList = some o :=
  ofList?_eq_some_iff.2 rfl

theorem front_append_back (o : Octets (n + m)) : o.front.append o.back = o := by
  ext1
  exact List.take_append_drop n o.toList

end Octets

/-! ## Fewer bits

Octets regrouped into digits of fewer bits, as the text forms of base 32 and base 64 do: the bits of a
group are read off in order, and the last digit is filled up with zeros. -/

namespace BitGroup

/-- How many digits of `bits` bits hold `octets` octets. -/
def digitCount (bits octets : Nat) : Nat := (octets * 8 + bits - 1) / bits

def split (bits : Nat) (l : Bytes) : List Nat :=
  let count := digitCount bits l.length
  Radix.toDigits (1 <<< bits) count (Bytes.toNat l <<< (count * bits - l.length * 8))

/-- How many bits of the last digit are left over. -/
def spareBits (bits digits : Nat) : Nat := digits * bits % 8

/-- The octets of a group of digits, if the bits that are left over are zero. -/
def join? (bits : Nat) (ds : List Nat) : Option Bytes :=
  let v := Radix.ofDigits (1 <<< bits) ds
  let spare := spareBits bits ds.length
  if v % (1 <<< spare) = 0 then some (Bytes.ofNat (ds.length * bits / 8) (v >>> spare)) else none

end BitGroup

end WalletAuth
