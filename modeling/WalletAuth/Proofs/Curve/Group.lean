import Mathlib
import WalletAuth.Proofs.Curve.Field

/-! The points of the curve as a group. The points are those of the library's Weierstrass curves, whose
group law is proved there; a Jacobian triple represents a point if its quotients are the coordinates
of the point. Doubling, adding and multiplying triples doubles, adds and multiplies what they
represent. -/
namespace WalletAuth.Curve
open Arithmetic
set_option autoImplicit false

/-- The curve in the form that the library gives to all elliptic curves. -/
def weierstrass : WeierstrassCurve.Affine Coordinate := ⟨0, 0, 0, 0, 7⟩

/-- A point of the curve, finite or at infinity. -/
abbrev Point : Type := weierstrass.Point

theorem equation_iff (x y : Coordinate) : weierstrass.Equation x y ↔ OnCurve x y := by
  rw [WeierstrassCurve.Affine.equation_iff]
  unfold weierstrass OnCurve
  constructor <;> intro h <;> linear_combination h

/-- The curve has no singular points. -/
theorem nonsingular_iff (x y : Coordinate) : weierstrass.Nonsingular x y ↔ OnCurve x y := by
  have hΔ : WeierstrassCurve.Δ weierstrass ≠ 0 := by decide
  rw [← WeierstrassCurve.Affine.equation_iff_nonsingular_of_Δ_ne_zero hΔ, equation_iff]

def Point.finite {x y : Coordinate} (h : OnCurve x y) : Point :=
  .some x y ((nonsingular_iff x y).mpr h)

theorem OnCurve.y_ne_zero {x y : Coordinate} (h : OnCurve x y) : y ≠ 0 := by
  rintro rfl
  unfold OnCurve at h
  rw [zero_mul] at h
  exact x.cube_add_seven_ne_zero h.symm

theorem OnCurve.x_ne_zero {x y : Coordinate} (h : OnCurve x y) : x ≠ 0 := by
  rintro rfl
  unfold OnCurve at h
  rw [mul_zero, zero_add] at h
  exact y.mul_self_ne_seven h

theorem Coordinate.two_mul_ne_zero {y : Coordinate} (hy : y ≠ 0) : 2 * y ≠ 0 := by
  have htwo : (2 : Coordinate) ≠ 0 := by decide
  exact mul_ne_zero htwo hy

theorem OnCurve.ne_neg {x y : Coordinate} (h : OnCurve x y) : y ≠ -y := by
  intro hyy
  have h2 : 2 * y = 0 := by linear_combination hyy
  exact Coordinate.two_mul_ne_zero h.y_ne_zero h2

theorem negY_eq (x y : Coordinate) : weierstrass.negY x y = -y := by
  unfold WeierstrassCurve.Affine.negY weierstrass
  ring

namespace Jacobian

/-- A triple represents the point whose coordinates are its quotients, or the point at infinity if it
has none. -/
def Represents (p : Jacobian) : Point → Prop
  | .zero => p.z = 0
  | .some x y _ => p.z ≠ 0 ∧ p.x = x * (p.z * p.z) ∧ p.y = y * (p.z * p.z * p.z)

theorem represents_infinity : Represents infinity 0 := rfl

theorem represents_ofAffine {x y : Coordinate} (h : OnCurve x y) :
    Represents (ofAffine x y) (Point.finite h) :=
  ⟨one_ne_zero, by simp [ofAffine], by simp [ofAffine]⟩

/-- Where the tangent or the chord of slope `l` leads from two points. -/
theorem represents_third {p : Jacobian} {x₁ x₂ y₁ l : Coordinate} (hz : p.z ≠ 0)
    (hx : p.x = (l * l - x₁ - x₂) * (p.z * p.z))
    (hy : p.y = (l * (x₁ - (l * l - x₁ - x₂)) - y₁) * (p.z * p.z * p.z))
    (h : weierstrass.Nonsingular (weierstrass.addX x₁ x₂ l) (weierstrass.addY x₁ x₂ y₁ l)) :
    Represents p (.some _ _ h) := by
  have haddX : weierstrass.addX x₁ x₂ l = l * l - x₁ - x₂ := by
    unfold WeierstrassCurve.Affine.addX weierstrass
    ring
  have haddY : weierstrass.addY x₁ x₂ y₁ l = l * (x₁ - (l * l - x₁ - x₂)) - y₁ := by
    rw [WeierstrassCurve.Affine.addY, negY_eq, WeierstrassCurve.Affine.negAddY, haddX]
    ring
  refine ⟨hz, ?_, ?_⟩
  · rw [haddX, hx]
  · rw [haddY, hy]

theorem represents_double {p : Jacobian} {P : Point} (hp : Represents p P) :
    Represents (double p) (P + P) := by
  rcases P with _ | ⟨x, y, h⟩
  · have hz : p.z = 0 := hp
    show 2 * p.y * p.z = 0
    rw [hz, mul_zero]
  · obtain ⟨hz, hx, hy⟩ := hp
    have hcurve : OnCurve x y := (nonsingular_iff x y).mp h
    have hy2 : 2 * y ≠ 0 := Coordinate.two_mul_ne_zero hcurve.y_ne_zero
    have hne : y ≠ weierstrass.negY x y := by
      rw [negY_eq]
      exact hcurve.ne_neg
    rw [WeierstrassCurve.Affine.Point.add_self_of_Y_ne hne]
    set l := weierstrass.slope x x y y with hl
    have htangent : l * (2 * y) = 3 * (x * x) := by
      rw [hl, WeierstrassCurve.Affine.slope_of_Y_ne rfl hne, negY_eq, sub_neg_eq_add, ← two_mul,
        div_eq_mul_inv, mul_assoc, inv_mul_cancel₀ hy2]
      unfold weierstrass
      ring
    have hpz : (double p).z ≠ 0 := by
      show 2 * p.y * p.z ≠ 0
      rw [hy, ← mul_assoc]
      exact mul_ne_zero (mul_ne_zero hy2 (by simp [hz])) hz
    refine represents_third hpz ?_ ?_ _
    · simp only [double, hx, hy]
      linear_combination (-p.z ^ 8 * (3 * x ^ 2 + 2 * y * l)) * htangent
    · simp only [double, hx, hy]
      linear_combination (p.z ^ 12 * (4 * y ^ 2 * l ^ 2 + 6 * y * l * x ^ 2 + 9 * x ^ 4 -
        12 * x * y ^ 2)) * htangent

/-- Two points with the same `x` are equal or opposite; all others have a chord. -/
theorem represents_add {p q : Jacobian} {P Q : Point} (hp : Represents p P)
    (hq : Represents q Q) : Represents (add p q) (P + Q) := by
  rcases P with _ | ⟨x₁, y₁, h₁⟩
  · have hz : p.z = 0 := hp
    have hzero : WeierstrassCurve.Affine.Point.zero + Q = Q := zero_add Q
    rw [add, if_pos hz, hzero]
    exact hq
  rcases Q with _ | ⟨x₂, y₂, h₂⟩
  · have hz : q.z = 0 := hq
    have hpz : p.z ≠ 0 := hp.1
    have hzero : ∀ P : Point, P + WeierstrassCurve.Affine.Point.zero = P := add_zero
    rw [add, if_neg hpz, if_pos hz, hzero]
    exact hp
  have hdouble := represents_double hp
  obtain ⟨hpz, hpx, hpy⟩ := hp
  obtain ⟨hqz, hqx, hqy⟩ := hq
  have hh : q.x * (p.z * p.z) - p.x * (q.z * q.z) = (x₂ - x₁) * (p.z * p.z * (q.z * q.z)) := by
    rw [hpx, hqx]
    ring
  have hr : q.y * (p.z * p.z * p.z) - p.y * (q.z * q.z * q.z) =
      (y₂ - y₁) * (p.z * p.z * (q.z * q.z) * (p.z * q.z)) := by
    rw [hpy, hqy]
    ring
  rw [add, if_neg hpz, if_neg hqz]
  simp only [hh, hr]
  by_cases hx : x₁ = x₂
  · subst hx
    rw [sub_self, zero_mul, if_pos rfl]
    by_cases hy : y₁ = y₂
    · subst hy
      rw [sub_self, zero_mul, if_pos rfl]
      exact hdouble
    · have hne : (y₂ - y₁) * (p.z * p.z * (q.z * q.z) * (p.z * q.z)) ≠ 0 :=
        mul_ne_zero (sub_ne_zero.mpr (Ne.symm hy)) (by simp [hpz, hqz])
      have hopp := (WeierstrassCurve.Affine.Y_eq_of_X_eq h₁.1 h₂.1 rfl).resolve_left hy
      rw [if_neg hne, WeierstrassCurve.Affine.Point.add_of_Y_eq rfl hopp]
      exact represents_infinity
  · have hne : (x₂ - x₁) * (p.z * p.z * (q.z * q.z)) ≠ 0 :=
      mul_ne_zero (sub_ne_zero.mpr (Ne.symm hx)) (by simp [hpz, hqz])
    rw [if_neg hne, WeierstrassCurve.Affine.Point.add_of_X_ne hx]
    set l := weierstrass.slope x₁ x₂ y₁ y₂ with hl
    have hchord : y₂ - y₁ = l * (x₂ - x₁) := by
      have hmul : l * (x₁ - x₂) = y₁ - y₂ := by
        rw [hl, WeierstrassCurve.Affine.slope_of_X_ne hx, div_eq_mul_inv, mul_assoc,
          inv_mul_cancel₀ (sub_ne_zero.mpr hx), mul_one]
      linear_combination hmul
    refine represents_third ?_ ?_ ?_ _
    · exact mul_ne_zero (mul_ne_zero hne hpz) hqz
    · simp only [hchord, hpx]
      ring
    · simp only [hchord, hpx, hpy]
      ring

theorem represents_binaryPower {p : Jacobian} {P : Point} {k : ℕ} (hp : Represents p P)
    (hk : k < 2 ^ 256) : Represents (binaryPower add infinity p 256 k) (k • P) := by
  refine binaryPower_induction (R := fun n q => Represents q (n • P)) ?_ ?_ ?_ hk
  · rw [zero_nsmul]
    exact represents_infinity
  · rwa [one_nsmul]
  · intro m n q r hq hr
    rw [add_nsmul]
    exact represents_add hq hr

/-! ## Affine coordinates -/

theorem toAffine?_of_finite {p : Jacobian} {x y : Coordinate} {h : weierstrass.Nonsingular x y}
    (hp : Represents p (.some x y h)) : p.toAffine? = some (x, y) := by
  obtain ⟨hz, hx, hy⟩ := hp
  have hinv : p.z * p.z⁻¹ = 1 := mul_inv_cancel₀ hz
  rw [toAffine?, if_neg hz]
  simp only [Coordinate.inverse_eq, Option.some.injEq, Prod.mk.injEq]
  constructor
  · rw [hx]
    linear_combination (x * (p.z * p.z⁻¹ + 1)) * hinv
  · rw [hy]
    linear_combination (y * (p.z ^ 2 * p.z⁻¹ ^ 2 + p.z * p.z⁻¹ + 1)) * hinv

theorem toAffine?_of_infinity {p : Jacobian} (hp : Represents p 0) : p.toAffine? = none := by
  have hz : p.z = 0 := hp
  rw [toAffine?, if_pos hz]

end Jacobian

end WalletAuth.Curve
