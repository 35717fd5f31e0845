import Mathlib
import WalletAuth.Curve.Jacobian
import WalletAuth.Proofs.Curve.Moduli

/-! Coordinates and scalars are fields. The sums and products are those of the definitions, so that
statements about them need no translation; the instances are scoped, and only proofs open them. The
inverses and roots that are computed as powers are the inverses and roots of the field. -/
namespace WalletAuth.Curve
set_option autoImplicit false

open Fin.CommRing in
theorem exists_inverse {n : ℕ} [NeZero n] (hn : n.Prime) (a : Fin n) :
    ∃ b : Fin n, if a = 0 then b = 0 else a * b = 1 := by
  by_cases h : a = 0
  · exact ⟨0, by simp [h]⟩
  · have : Fact n.Prime := ⟨hn⟩
    have hfield := (ZMod.finEquiv n).toMulEquiv.isField (Field.toIsField (ZMod n))
    obtain ⟨b, hb⟩ := hfield.mul_inv_cancel h
    exact ⟨b, by simp [h, hb]⟩

namespace Arithmetic

/-- The numbers below a prime as a field. -/
noncomputable abbrev fieldOfPrime (n : ℕ) [NeZero n] (hn : n.Prime) : Field (Fin n) where
  __ := Fin.instCommRing n
  inv a := (exists_inverse hn a).choose
  div a b := a * (exists_inverse hn b).choose
  div_eq_mul_inv _ _ := rfl
  exists_pair_ne := ⟨0, ⟨1, hn.one_lt⟩, by rw [ne_eq, Fin.ext_iff]; exact zero_ne_one⟩
  mul_inv_cancel a h := (if_neg h).mp (exists_inverse hn a).choose_spec
  inv_zero := (if_pos rfl).mp (exists_inverse hn 0).choose_spec
  nnqsmul := _
  qsmul := _

noncomputable scoped instance coordinateField : Field Coordinate :=
  fieldOfPrime fieldSize fieldSize_prime

noncomputable scoped instance scalarField : Field Scalar :=
  fieldOfPrime groupOrder groupOrder_prime

end Arithmetic

open Arithmetic

/-! ## Inverses and roots -/

theorem pow_card_sub_two {F : Type} [Field F] [Fintype F] {q : ℕ} (hq : Fintype.card F = q)
    (htwo : 2 < q) (a : F) : a ^ (q - 2) = a⁻¹ := by
  by_cases h : a = 0
  · rw [h, inv_zero, zero_pow (by omega)]
  · apply eq_inv_of_mul_eq_one_left
    rw [← pow_succ, show q - 2 + 1 = q - 1 by omega, ← hq]
    exact FiniteField.pow_card_sub_one_eq_one a h

theorem Coordinate.inverse_eq (a : Coordinate) : a.inverse = a⁻¹ := by
  have hpow : a.inverse = a ^ (fieldSize - 2) := binaryPower_eq_pow a (by decide)
  rw [hpow, pow_card_sub_two (Fintype.card_fin fieldSize) (by decide)]

theorem Scalar.inverse_eq (a : Scalar) : a.inverse = a⁻¹ := by
  have hpow : a.inverse = a ^ (groupOrder - 2) := binaryPower_eq_pow a (by decide)
  rw [hpow, pow_card_sub_two (Fintype.card_fin groupOrder) (by decide)]

/-- The root of a square is one of its two roots. -/
theorem Coordinate.root_mul_self (y : Coordinate) : root (y * y) = y ∨ root (y * y) = -y := by
  have hpow : root (y * y) = (y * y) ^ ((fieldSize + 1) / 4) := binaryPower_eq_pow _ (by decide)
  apply mul_self_eq_mul_self_iff.mp
  have hexp : (fieldSize + 1) / 4 + (fieldSize + 1) / 4 + ((fieldSize + 1) / 4 + (fieldSize + 1) / 4)
      = fieldSize + 1 := by decide
  have hself : y ^ fieldSize = y := by
    have h := FiniteField.pow_card y
    rwa [Fintype.card_fin] at h
  rw [hpow, mul_pow, ← pow_add, ← pow_add, hexp, pow_succ, hself]

/-! ## Parity -/

def Coordinate.isOdd (y : Coordinate) : Bool := decide (y.val % 2 = 1)

/-- A coordinate other than zero and its negative differ in parity, as the modulus is odd. -/
theorem Coordinate.isOdd_neg {y : Coordinate} (hy : y ≠ 0) : (-y).isOdd = !y.isOdd := by
  have hval : y.val ≠ 0 := fun h => hy (Fin.ext h)
  have hneg : (-y).val = fieldSize - y.val := by
    rw [Fin.val_neg, if_neg hy]
  have hlt := y.isLt
  have hodd : fieldSize % 2 = 1 := by decide
  unfold isOdd
  rw [hneg, ← decide_not, decide_eq_decide]
  omega

/-! ## Numbers without roots -/

/-- The power of a `k`-th power that the order of the group leaves is one. -/
theorem Coordinate.pow_ne {k m : ℕ} {a : Coordinate} (hm : fieldSize - 1 = k * m) (ha : a ≠ 0)
    (hone : binaryPower (· * ·) 1 a 256 m ≠ 1) (x : Coordinate) : x ^ k ≠ a := by
  rintro rfl
  have hpos : 0 < k * m := by
    rw [← hm]
    decide
  have hk : 0 < k := Nat.pos_of_mul_pos_right hpos
  have hx : x ≠ 0 := by
    rintro rfl
    exact ha (zero_pow hk.ne')
  have hbits : m < 2 ^ 256 := by
    have hsize : fieldSize - 1 < 2 ^ 256 := by decide
    rw [hm] at hsize
    exact (Nat.le_mul_of_pos_left m hk).trans_lt hsize
  have hcard : Fintype.card Coordinate - 1 = k * m := by rw [Fintype.card_fin, hm]
  have hall := FiniteField.pow_card_sub_one_eq_one x hx
  rw [hcard, pow_mul] at hall
  exact hone ((binaryPower_eq_pow _ hbits).trans hall)

/-- The negative of seven has no cube root. -/
theorem Coordinate.cube_add_seven_ne_zero (x : Coordinate) : x * x * x + 7 ≠ 0 := by
  intro h
  have hcube : x ^ 3 = -7 := by linear_combination h
  have hexp : fieldSize - 1 = 3 * ((fieldSize - 1) / 3) := by decide
  exact Coordinate.pow_ne hexp (by decide) (by decide +kernel) x hcube

/-- Seven has no square root. -/
theorem Coordinate.mul_self_ne_seven (y : Coordinate) : y * y ≠ 7 := by
  intro h
  have hsquare : y ^ 2 = 7 := by rw [sq, h]
  have hexp : fieldSize - 1 = 2 * ((fieldSize - 1) / 2) := by decide
  exact Coordinate.pow_ne hexp (by decide) (by decide +kernel) y hsquare

end WalletAuth.Curve
