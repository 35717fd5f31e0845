import Mathlib
import WalletAuth.Curve.Jacobian

/-! Both moduli of the curve are prime. Powers are computed by halving; a number is prime if some number
has order one less modulo it, and an order is certain once no prime factor can be taken out of it. The
factors have to be prime themselves, so a proof is a ladder of such numbers: each rung rests on primes
that are known already, and climbing adds it to them. -/
namespace WalletAuth
set_option autoImplicit false

universe u

/-! ## Powers by halving

A relation between counts and elements that holds at zero and at one, and that the operation carries
along sums of counts, holds of every count and its `binaryPower`. Powers in a monoid are one such
relation, multiples of a curve point another. -/

theorem binaryPower_induction {α : Type u} {op : α → α → α} {one a : α} {R : ℕ → α → Prop}
    (h0 : R 0 one) (h1 : R 1 a)
    (hop : ∀ {m n : ℕ} {x y : α}, R m x → R n y → R (m + n) (op x y)) :
    ∀ {bits k : ℕ}, k < 2 ^ bits → R k (binaryPower op one a bits k)
  | 0, k, hk => by
      have hk0 : k = 0 := by simpa using hk
      subst hk0
      exact h0
  | bits + 1, k, hk => by
      have hhalf : k / 2 < 2 ^ bits := by rw [pow_succ] at hk; omega
      have ih := binaryPower_induction h0 h1 hop hhalf
      have htwice := hop ih ih
      rw [binaryPower]
      split
      · next hodd =>
        have hk1 : k / 2 + k / 2 + 1 = k := by omega
        have hmore := hop htwice h1
        rwa [hk1] at hmore
      · next heven =>
        have hk0 : k / 2 + k / 2 = k := by omega
        rwa [hk0] at htwice

theorem binaryPower_eq_pow {M : Type u} [Monoid M] (a : M) {bits k : ℕ} (hk : k < 2 ^ bits) :
    binaryPower (· * ·) 1 a bits k = a ^ k := by
  refine binaryPower_induction (R := fun n x => x = a ^ n) (pow_zero a).symm (pow_one a).symm ?_ hk
  intro m n x y hx hy
  rw [hx, hy, pow_add]

/-! ## The ladder -/

namespace Curve

def powerMod (n a k : ℕ) : ℕ := binaryPower (fun x y => x * y % n) 1 a 256 k

theorem powerMod_mod (n a : ℕ) {k : ℕ} (hk : k < 2 ^ 256) : powerMod n a k % n = a ^ k % n := by
  refine binaryPower_induction (R := fun m x => x % n = a ^ m % n) (by simp) (by simp) ?_ hk
  intro m l x y hx hy
  rw [Nat.mod_mod, Nat.mul_mod, hx, hy, ← Nat.mul_mod, pow_add]

/-- A number, what has the number less one as its order, and the prime factors of that order. -/
structure Rung where
  modulus : ℕ
  witness : ℕ
  factors : List ℕ

/-- The known primes with one more, if the rung rests on them. -/
def Rung.climb (known : List ℕ) (r : Rung) : Option (List ℕ) :=
  let order := r.modulus - 1
  let power := powerMod r.modulus r.witness
  if 1 < r.modulus && r.modulus < 1 <<< 256 && r.factors.all known.contains &&
      r.factors.prod == order && power order % r.modulus == 1 &&
      r.factors.all fun q => power (order / q) % r.modulus != 1
  then some (r.modulus :: known) else none

theorem Rung.prime_of_climb {known next : List ℕ} {r : Rung} (hknown : ∀ q ∈ known, q.Prime)
    (h : r.climb known = some next) : ∀ q ∈ next, q.Prime := by
  unfold climb at h
  simp only [Option.ite_none_right_eq_some, Option.some.injEq, Bool.and_eq_true, decide_eq_true_eq,
    List.all_eq_true, beq_iff_eq, bne_iff_ne, Nat.shiftLeft_eq, Nat.one_mul] at h
  obtain ⟨⟨⟨⟨⟨⟨hone, hsize⟩, hfactors⟩, hprod⟩, hfull⟩, hpart⟩, rfl⟩ := h
  have hpow : ∀ k, k ≤ r.modulus - 1 →
      ((r.witness : ZMod r.modulus) ^ k = 1 ↔ powerMod r.modulus r.witness k % r.modulus = 1) := by
    intro k hk
    rw [powerMod_mod _ _ (by omega), ← Nat.cast_pow, ← Nat.cast_one, ZMod.natCast_eq_natCast_iff',
      Nat.mod_eq_of_lt hone]
  intro q hq
  rcases List.mem_cons.mp hq with rfl | hq
  · refine lucas_primality _ (r.witness : ZMod r.modulus) ((hpow _ le_rfl).mpr hfull) ?_
    intro q hq hdvd
    rw [← hprod] at hdvd
    obtain ⟨f, hf, hqf⟩ := (Prime.dvd_prod_iff hq.prime).mp hdvd
    have hfprime : f.Prime := hknown f (by simpa using hfactors f hf)
    rw [(Nat.prime_dvd_prime_iff_eq hq hfprime).mp hqf, ne_eq, hpow _ (Nat.div_le_self _ _)]
    exact hpart f hf
  · exact hknown q hq

theorem Rung.prime_of_foldlM {known next : List ℕ} {ladder : List Rung}
    (hknown : ∀ q ∈ known, q.Prime) (h : ladder.foldlM climb known = some next) :
    ∀ q ∈ next, q.Prime := by
  induction ladder generalizing known with
  | nil =>
    have hsame : known = next := by simpa using h
    rwa [← hsame]
  | cons r ladder ih =>
    rw [List.foldlM_cons] at h
    obtain ⟨mid, hmid, hnext⟩ := Option.bind_eq_some_iff.mp h
    exact ih (prime_of_climb hknown hmid) hnext

/-! ## The two ladders -/

def ground : List ℕ :=
  [2, 3, 5, 7, 11, 17, 19, 29, 31, 41, 53, 59, 97, 109, 113, 149, 293, 461, 631, 797, 971, 1373, 1627,
    1871, 2011, 2621, 2657, 2731, 4051, 4423, 5323, 7723, 9349, 13441, 16699, 20113, 24809, 28181,
    41201, 85831, 96557]

theorem prime_of_mem_ground : ∀ q ∈ ground, q.Prime := by
  unfold ground
  simp only [List.forall_mem_cons]
  norm_num

/-- Every number on a ladder that stands on the ground is prime. -/
theorem prime_of_ladder (ladder : List Rung) {p : ℕ}
    (h : (ladder.foldlM Rung.climb ground).any (·.contains p) = true) : p.Prime := by
  obtain ⟨next, hnext, hp⟩ := (Option.any_eq_true _ _).mp h
  exact Rung.prime_of_foldlM prime_of_mem_ground hnext p (by simpa using hp)

def fieldLadder : List Rung :=
  [⟨1206781, 10, [2, 2, 3, 5, 20113]⟩,
   ⟨7240687, 3, [2, 3, 1206781]⟩,
   ⟨13331831, 13, [2, 5, 971, 1373]⟩,
   ⟨107590001, 3, [2, 2, 2, 2, 5, 5, 5, 5, 7, 29, 53]⟩,
   ⟨173378833005251801, 6, [2, 2, 2, 5, 5, 2621, 24809, 13331831]⟩,
   ⟨22149492674086928081353, 5, [2, 2, 2, 3, 5323, 173378833005251801]⟩,
   ⟨132896956044521568488119, 6, [2, 3, 22149492674086928081353]⟩,
   ⟨255515944373312847190720520512484175977, 3,
    [2, 2, 2, 7, 7, 11, 1627, 2657, 4423, 41201, 96557, 7240687, 107590001]⟩,
   ⟨205115282021455665897114700593932402728804164701536103180137503955397371, 10,
    [2, 3, 5, 29, 29, 31, 7723, 132896956044521568488119,
      255515944373312847190720520512484175977]⟩,
   ⟨fieldSize, 3,
    [2, 3, 7, 13441, 205115282021455665897114700593932402728804164701536103180137503955397371]⟩]

def groupLadder : List Rung :=
  [⟨120233, 3, [2, 2, 2, 7, 19, 113]⟩,
   ⟨305873, 3, [2, 2, 2, 2, 7, 2731]⟩,
   ⟨1627771, 3, [2, 3, 5, 29, 1871]⟩,
   ⟨4681609, 23, [2, 2, 2, 3, 97, 2011]⟩,
   ⟨44706919, 6, [2, 3, 797, 9349]⟩,
   ⟨545358713, 5, [2, 2, 2, 41, 59, 28181]⟩,
   ⟨297159362677, 2, [2, 2, 3, 3, 11, 461, 1627771]⟩,
   ⟨107361793816595537, 3, [2, 2, 2, 2, 16699, 85831, 4681609]⟩,
   ⟨174723607534414371449, 3, [2, 2, 2, 17, 59, 4051, 120233, 44706919]⟩,
   ⟨29047611873442575647497758179, 2, [2, 293, 305873, 545358713, 297159362677]⟩,
   ⟨341948486974166000522343609283189, 2, [2, 2, 3, 3, 3, 109, 29047611873442575647497758179]⟩,
   ⟨groupOrder, 7,
    [2, 2, 2, 2, 2, 2, 3, 149, 631, 107361793816595537, 174723607534414371449,
      341948486974166000522343609283189]⟩]

theorem fieldSize_prime : fieldSize.Prime :=
  prime_of_ladder fieldLadder (by decide +kernel)

theorem groupOrder_prime : groupOrder.Prime :=
  prime_of_ladder groupLadder (by decide +kernel)

end Curve

end WalletAuth
