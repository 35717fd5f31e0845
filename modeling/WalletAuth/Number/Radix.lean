/-! Positional notation. `ofDigits` reads a list of digits, most significant first, and `toDigits`
writes a number with a given count of them; `digits` writes it with the fewest. Octet strings,
Base58, Base64, Base32 and decimal codes are all digit lists of this kind. -/
namespace WalletAuth.Radix
set_option autoImplicit false

/-- The number that the digits `l` stand for in base `b`, the most significant digit first. -/
def ofDigits (b : Nat) (l : List Nat) : Nat := l.foldl (fun n d => n * b + d) 0

/-- The last `width` digits of `n` in base `b`, the most significant first. -/
def toDigits (b width n : Nat) : List Nat := go width n []
where
  /-- Puts `width` more digits of `n` in front of `acc`. -/
  go : Nat → Nat → List Nat → List Nat
    | 0, _, acc => acc
    | width + 1, n, acc => go width (n / b) (n % b :: acc)

/-- The digits of `n` in base `b` without leading zeros; zero has none. -/
def digits (b n : Nat) : List Nat := go (n.log2 + 1) n []
where
  /-- Puts the digits of `n`, of which it expects at most `limit`, in front of `acc`. -/
  go : Nat → Nat → List Nat → List Nat
    | 0, _, acc => acc
    | limit + 1, n, acc => if n = 0 then acc else go limit (n / b) (n % b :: acc)

/-- Rewrites a digit list from base `b` to base `c`. The leading zeros, which a number forgets, are
carried over one for one. -/
def rebase (b c : Nat) (l : List Nat) : List Nat :=
  l.takeWhile (· == 0) ++ digits c (ofDigits b l)

/-! ## Writing digit by digit -/

theorem toDigits.go_eq (b width n : Nat) (acc : List Nat) :
    toDigits.go b width n acc = toDigits b width n ++ acc := by
  induction width generalizing n acc with
  | zero => rfl
  | succ width ih =>
    rw [toDigits, go, go, ih (n / b) (n % b :: acc), ih (n / b) [n % b]]
    simp

@[simp] theorem toDigits_zero (b n : Nat) : toDigits b 0 n = [] := rfl

theorem toDigits_succ (b width n : Nat) :
    toDigits b (width + 1) n = toDigits b width (n / b) ++ [n % b] := by
  rw [toDigits, toDigits.go, toDigits.go_eq]

@[simp] theorem length_toDigits (b width n : Nat) : (toDigits b width n).length = width := by
  induction width generalizing n with
  | zero => rfl
  | succ width ih => rw [toDigits_succ, List.length_append, ih]; rfl

end WalletAuth.Radix
