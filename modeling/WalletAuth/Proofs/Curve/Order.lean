import Mathlib
import WalletAuth.Proofs.Curve.Group

/-! The curve has as many points as scalars. The generator has prime order, the order divides the
number of points, and two points at most share an `x`, which leaves once or twice the order; twice
would need a point that is its own negative. So scalars act on points as a field acts on its
vectors. -/
namespace WalletAuth.Curve
open Arithmetic
set_option autoImplicit false

/-! ## A point from its `x` and a parity -/

/-- A point is known from its `x` and the parity of its `y`. -/
theorem OnCurve.eq_of_parity {x y y' : Coordinate} (h : OnCurve x y) (h' : OnCurve x y')
    (hpar : y.isOdd = y'.isOdd) : y = y' := by
  have hsq : y * y = y' * y' := by
    unfold OnCurve at h h'
    rw [h, h']
  rcases mul_self_eq_mul_self_iff.mp hsq with heq | hneg
  · exact heq
  · rw [hneg, Coordinate.isOdd_neg h'.y_ne_zero] at hpar
    exact absurd hpar (Bool.not_ne_self _)

/-- What is left of a point in compressed form. -/
def Point.compressed : Point → Option (Coordinate × Bool)
  | .zero => none
  | .some x y _ => some (x, y.isOdd)

theorem Point.compressed_injective : Function.Injective Point.compressed := by
  intro P Q hPQ
  rcases P with _ | ⟨x, y, h⟩ <;> rcases Q with _ | ⟨x', y', h'⟩
  · rfl
  · simp [compressed] at hPQ
  · simp [compressed] at hPQ
  · simp only [compressed, Option.some.injEq, Prod.mk.injEq] at hPQ
    obtain ⟨rfl, hpar⟩ := hPQ
    have hy := ((nonsingular_iff x y).mp h).eq_of_parity ((nonsingular_iff x y').mp h') hpar
    subst hy
    rfl

instance : Finite Point := Finite.of_injective _ Point.compressed_injective

theorem card_point_le : Nat.card Point ≤ 2 * fieldSize + 1 := by
  have h := Nat.card_le_card_of_injective _ Point.compressed_injective
  have hcard : Nat.card (Option (Coordinate × Bool)) = 2 * fieldSize + 1 := by
    rw [Nat.card_eq_fintype_card, Fintype.card_option, Fintype.card_prod, Fintype.card_fin,
      Fintype.card_bool, Nat.mul_comm]
  rwa [hcard] at h

/-! ## The order of the generator -/

theorem generator_on_curve : OnCurve Jacobian.generator.x Jacobian.generator.y := by decide

/-- The point that all others are multiples of. -/
def base : Point := Point.finite generator_on_curve

theorem base_ne_zero : base ≠ 0 := WeierstrassCurve.Affine.Point.some_ne_zero _

theorem represents_generator : Jacobian.generator.Represents base :=
  Jacobian.represents_ofAffine generator_on_curve

theorem Jacobian.Represents.eq_zero {p : Jacobian} {P : Point} (hp : p.Represents P)
    (hz : p.z = 0) : P = 0 := by
  rcases P with _ | ⟨x, y, h⟩
  · rfl
  · exact absurd hz hp.1

theorem groupOrder_nsmul_base : groupOrder • base = 0 := by
  have hz : (binaryPower Jacobian.add Jacobian.infinity Jacobian.generator 256 groupOrder).z = 0 := by
    decide +kernel
  exact (Jacobian.represents_binaryPower represents_generator (by decide)).eq_zero hz

theorem addOrderOf_base : addOrderOf base = groupOrder := by
  have : Fact groupOrder.Prime := ⟨groupOrder_prime⟩
  exact addOrderOf_eq_prime groupOrder_nsmul_base base_ne_zero

/-! ## The number of points -/

theorem add_self_ne_zero {P : Point} (hP : P ≠ 0) : P + P ≠ 0 := by
  rcases P with _ | ⟨x, y, h⟩
  · exact absurd rfl hP
  · have hne : y ≠ weierstrass.negY x y := by
      rw [negY_eq]
      exact ((nonsingular_iff x y).mp h).ne_neg
    rw [WeierstrassCurve.Affine.Point.add_self_of_Y_ne hne]
    exact WeierstrassCurve.Affine.Point.some_ne_zero _

theorem card_point : Nat.card Point = groupOrder := by
  have hdvd : groupOrder ∣ Nat.card Point := by
    rw [← addOrderOf_base]
    exact addOrderOf_dvd_natCard base
  obtain ⟨m, hm⟩ := hdvd
  have hpos : 0 < Nat.card Point := Nat.card_pos
  have hle := card_point_le
  have hbound : 2 * fieldSize + 1 < groupOrder * 3 := by decide
  have hm3 : m < 3 := by
    rw [hm] at hle
    exact Nat.lt_of_mul_lt_mul_left (hle.trans_lt hbound)
  have hm0 : m ≠ 0 := by
    rintro rfl
    omega
  have hm2 : m ≠ 2 := by
    rintro rfl
    have : Fact (Nat.Prime 2) := ⟨Nat.prime_two⟩
    have htwo : 2 ∣ Nat.card Point := ⟨groupOrder, by rw [hm, Nat.mul_comm]⟩
    obtain ⟨P, hP⟩ := exists_prime_addOrderOf_dvd_card' 2 htwo
    have hP0 : P ≠ 0 := by
      rintro rfl
      rw [addOrderOf_zero] at hP
      omega
    apply add_self_ne_zero hP0
    rw [← two_nsmul, ← hP]
    exact addOrderOf_nsmul_eq_zero P
  have hm1 : m = 1 := by omega
  rw [hm, hm1, Nat.mul_one]

theorem groupOrder_nsmul (P : Point) : groupOrder • P = 0 := by
  rw [← card_point]
  exact card_nsmul_eq_zero'

/-! ## Scalars acting on points -/

theorem mod_nsmul (m : ℕ) (P : Point) : (m % groupOrder) • P = m • P := by
  conv_rhs => rw [← Nat.mod_add_div m groupOrder, add_nsmul, mul_nsmul, groupOrder_nsmul,
    nsmul_zero, add_zero]

namespace Arithmetic

noncomputable scoped instance : SMul Scalar Point := ⟨fun a P => a.val • P⟩

theorem smul_def (a : Scalar) (P : Point) : a • P = a.val • P := rfl

noncomputable scoped instance pointModule : Module Scalar Point where
  one_smul P := by rw [smul_def, show (1 : Scalar).val = 1 from rfl, one_nsmul]
  mul_smul a b P := by
    rw [smul_def, smul_def, smul_def, Fin.val_mul, mod_nsmul, Nat.mul_comm, mul_nsmul]
  smul_zero a := by rw [smul_def, nsmul_zero]
  smul_add a P Q := by rw [smul_def, smul_def, smul_def, nsmul_add]
  add_smul a b P := by rw [smul_def, smul_def, smul_def, Fin.val_add, mod_nsmul, add_nsmul]
  zero_smul P := by rw [smul_def, show (0 : Scalar).val = 0 from rfl, zero_nsmul]

theorem smul_base_injective : Function.Injective fun a : Scalar => a • base :=
  smul_left_injective Scalar base_ne_zero

end Arithmetic

theorem scalarOf_eq_iff {a b : ℕ} : scalarOf a = scalarOf b ↔ a ≡ b [MOD groupOrder] :=
  Fin.ext_iff

/-- Multiplying triples multiplies points. -/
theorem Jacobian.represents_times {p : Jacobian} {P : Point} (k : Scalar) (hp : Represents p P) :
    Represents (times k p) (k • P) := by
  have hsize : groupOrder < 2 ^ 256 := by decide
  exact represents_binaryPower hp (k.isLt.trans hsize)

end WalletAuth.Curve
