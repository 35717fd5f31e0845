import Mathlib
import WalletAuth.Ecdsa.Signature
import WalletAuth.Proofs.Key.Private

/-! A signature ties its key to a nonce point by one equation. Verification solves it for the nonce point
and compares the `x`; recovery rebuilds the nonce point from `r` and the recovery identifier, and
solves it for the key. Both accept the same signatures, and since the equation leaves one nonce point
only, one of the four identifiers leads back to a given key. -/
namespace WalletAuth
open Curve Curve.Arithmetic
set_option autoImplicit false

namespace Signature

/-! ## The equation of a signature -/

/-- The equation between the nonce point and the point of the key. -/
def Balances (z r s : Scalar) (nonce key : Point) : Prop := s • nonce = z • base + r • key

theorem balances_iff_nonce {z r s : Scalar} (hs : s ≠ 0) {nonce key : Point} :
    Balances z r s nonce key ↔ nonce = (s⁻¹ * z) • base + (s⁻¹ * r) • key := by
  unfold Balances
  rw [mul_smul, mul_smul, ← smul_add, eq_comm (a := nonce), inv_smul_eq_iff₀ hs, eq_comm]

theorem balances_iff_key {z r s : Scalar} (hr : r ≠ 0) {nonce key : Point} :
    Balances z r s nonce key ↔ key = (-(r⁻¹ * z)) • base + (r⁻¹ * s) • nonce := by
  have hsolve : (-(r⁻¹ * z)) • base + (r⁻¹ * s) • nonce = r⁻¹ • (s • nonce - z • base) := by
    rw [neg_smul, mul_smul, mul_smul, smul_sub]
    abel
  unfold Balances
  rw [hsolve, eq_comm (a := key), inv_smul_eq_iff₀ hr, sub_eq_iff_eq_add']

/-- The two sums that verification and recovery compute are points of this form. -/
theorem represents_combination (a b : Scalar) (k : PublicKey) :
    ((Jacobian.times a Jacobian.generator).add (Jacobian.times b k.jacobian)).Represents
      (a • base + b • k.point) :=
  Jacobian.represents_add (Jacobian.represents_times a represents_generator)
    (Jacobian.represents_times b k.represents_jacobian)

theorem scalars?_eq_some_iff {sig : Signature} {r s : PrivateKey} :
    sig.scalars? = some (r, s) ↔ r.scalar.val = sig.r.toNat ∧ s.scalar.val = sig.s.toNat := by
  rw [← PrivateKey.ofOctets?_eq_some_iff, ← PrivateKey.ofOctets?_eq_some_iff]
  simp [scalars?, bind, Option.bind_eq_some_iff]

/-- What makes a signature of a digest one by a key with a nonce point: scalars in range, a low `s`, and
an `x` that leaves `r`. The recovery identifier plays no part in it. -/
structure Joins (sig : Signature) (digest : Octets 32) (nonce k : PublicKey) (r s : PrivateKey) :
    Prop where
  scalars : sig.scalars? = some (r, s)
  low : isHigh s.scalar = false
  nonce_x : scalarOf nonce.x.val = r.scalar
  balances : Balances (scalarOf digest.toNat) r.scalar s.scalar nonce.point k.point

theorem Joins.s_le {sig : Signature} {digest : Octets 32} {nonce k : PublicKey} {r s : PrivateKey}
    (h : sig.Joins digest nonce k r s) : sig.s.toNat ≤ groupOrder / 2 := by
  have hlow := of_decide_eq_false h.low
  rw [(scalars?_eq_some_iff.mp h.scalars).2] at hlow
  omega

/-- The equation leaves one nonce point. -/
theorem Joins.nonce_unique {sig : Signature} {digest : Octets 32} {k n₁ n₂ : PublicKey}
    {r₁ s₁ r₂ s₂ : PrivateKey} (h₁ : sig.Joins digest n₁ k r₁ s₁)
    (h₂ : sig.Joins digest n₂ k r₂ s₂) : n₁ = n₂ := by
  have hscalars := h₂.scalars
  rw [h₁.scalars] at hscalars
  cases hscalars
  apply PublicKey.point_injective
  rw [(balances_iff_nonce s₁.ne_zero).mp h₁.balances, (balances_iff_nonce s₁.ne_zero).mp h₂.balances]

/-! ## Verification -/

theorem verify_eq_true_iff {sig : Signature} {digest : Octets 32} {k : PublicKey} :
    k.verify digest sig = true ↔ ∃ nonce r s, sig.Joins digest nonce k r s := by
  unfold PublicKey.verify
  cases hscalars : sig.scalars? with
  | none =>
    refine iff_of_false Bool.false_ne_true ?_
    rintro ⟨nonce, r, s, h⟩
    rw [h.scalars] at hscalars
    cases hscalars
  | some pair =>
    obtain ⟨r, s⟩ := pair
    have hsum := represents_combination (s.scalar⁻¹ * scalarOf digest.toNat)
      (s.scalar⁻¹ * r.scalar) k
    simp only [Scalar.inverse_eq, Bool.and_eq_true, Bool.not_eq_true']
    constructor
    · rintro ⟨hlow, hx⟩
      cases hpoint : (s.scalar⁻¹ * scalarOf digest.toNat) • base
          + (s.scalar⁻¹ * r.scalar) • k.point with
      | zero =>
        rw [hpoint] at hsum
        rw [Jacobian.toAffine?_of_infinity hsum] at hx
        cases hx
      | some x y hxy =>
        rw [hpoint] at hsum
        rw [Jacobian.toAffine?_of_finite hsum] at hx
        refine ⟨⟨x, y, (nonsingular_iff x y).mp hxy⟩, r, s, hscalars, hlow, eq_of_beq hx, ?_⟩
        rw [balances_iff_nonce s.ne_zero, hpoint]
        rfl
    · rintro ⟨nonce, r', s', h⟩
      have hsame := h.scalars
      rw [hscalars] at hsame
      cases hsame
      refine ⟨h.low, ?_⟩
      rw [← (balances_iff_nonce s.ne_zero).mp h.balances] at hsum
      rw [Jacobian.toAffine?_of_finite hsum]
      exact beq_iff_eq.mpr h.nonce_x

/-! ## Recovery -/

def idOf (nonce : PublicKey) : Fin 4 :=
  ⟨(if groupOrder ≤ nonce.x.val then 2 else 0) + if nonce.y.isOdd then 1 else 0, by
    split <;> split <;> omega⟩

theorem val_idOf (nonce : PublicKey) : (idOf nonce).val =
    (if groupOrder ≤ nonce.x.val then 2 else 0) + if nonce.y.isOdd then 1 else 0 :=
  rfl

theorem idOf_parity (nonce : PublicKey) : decide ((idOf nonce).val % 2 = 1) = nonce.y.isOdd := by
  rw [val_idOf]
  cases nonce.y.isOdd <;> split <;> rfl

theorem two_le_idOf (nonce : PublicKey) : 2 ≤ (idOf nonce).val ↔ groupOrder ≤ nonce.x.val := by
  rw [val_idOf]
  cases nonce.y.isOdd <;> split <;> simp_all

/-- The identifier has two bits, so both tell it. -/
theorem eq_idOf_iff {nonce : PublicKey} {id : Fin 4} :
    id = idOf nonce ↔
      (2 ≤ id.val ↔ groupOrder ≤ nonce.x.val) ∧ decide (id.val % 2 = 1) = nonce.y.isOdd := by
  constructor
  · rintro rfl
    exact ⟨two_le_idOf nonce, idOf_parity nonce⟩
  · rintro ⟨hexcess, hparity⟩
    rw [← two_le_idOf] at hexcess
    rw [← idOf_parity, decide_eq_decide] at hparity
    omega

/-- A number below the modulus of coordinates is a scalar, or a scalar and the group order. -/
theorem nonceX?_eq_some_iff {r : Scalar} {id : Fin 4} {x : Coordinate} :
    nonceX? r id = some x ↔ scalarOf x.val = r ∧ (2 ≤ id.val ↔ groupOrder ≤ x.val) := by
  have htwice : fieldSize < 2 * groupOrder := by decide
  have hx := x.isLt
  have hr := r.isLt
  have hmod : scalarOf x.val = r ↔ x.val % groupOrder = r.val := Fin.ext_iff
  unfold nonceX?
  rw [PublicKey.coordinate?_eq_some_iff, hmod]
  by_cases hexcess : groupOrder ≤ x.val
  · rw [Nat.mod_eq_sub_mod hexcess, Nat.mod_eq_of_lt (by omega)]
    split <;> omega
  · rw [Nat.mod_eq_of_lt (by omega)]
    split <;> omega

theorem recover?_eq_some_iff {sig : Signature} {digest : Octets 32} {k : PublicKey} :
    sig.recover? digest = some k ↔
      ∃ nonce r s, sig.Joins digest nonce k r s ∧ sig.recoveryId = idOf nonce := by
  have hkey : ∀ (r s : PrivateKey) (nonce k' : PublicKey),
      PublicKey.ofJacobian? ((Jacobian.times (-(r.scalar.inverse * scalarOf digest.toNat))
        Jacobian.generator).add (Jacobian.times (r.scalar.inverse * s.scalar) nonce.jacobian))
          = some k' ↔
        Balances (scalarOf digest.toNat) r.scalar s.scalar nonce.point k'.point := by
    intro r s nonce k'
    rw [PublicKey.ofJacobian?_eq (represents_combination _ _ nonce), PublicKey.key?_eq_some_iff,
      Scalar.inverse_eq, balances_iff_key r.ne_zero, eq_comm]
  simp only [recover?, bind, Option.bind_eq_some_iff, Prod.exists, hkey, nonceX?_eq_some_iff,
    PublicKey.lift?_eq_some_iff, Option.ite_none_right_eq_some, Option.some.injEq]
  constructor
  · rintro ⟨r, s, hscalars, x, ⟨hx, hexcess⟩, nonce, ⟨rfl, hparity⟩, k', hbal, hverify, rfl⟩
    obtain ⟨n', r', s', h⟩ := verify_eq_true_iff.mp hverify
    have hsame := h.scalars
    rw [hscalars] at hsame
    cases hsame
    exact ⟨nonce, r, s, ⟨hscalars, h.low, hx, hbal⟩, eq_idOf_iff.mpr ⟨hexcess, hparity.symm⟩⟩
  · rintro ⟨nonce, r, s, h, hid⟩
    obtain ⟨hexcess, hparity⟩ := eq_idOf_iff.mp hid
    exact ⟨r, s, h.scalars, nonce.x, ⟨h.nonce_x, hexcess⟩, nonce, ⟨rfl, hparity.symm⟩, k, h.balances,
      verify_eq_true_iff.mpr ⟨nonce, r, s, h⟩, rfl⟩

theorem recover_eq_ok_iff {sig : Signature} {digest : Octets 32} {k : PublicKey} :
    sig.recover digest = .ok k ↔ sig.recover? digest = some k := by
  unfold recover
  cases sig.recover? digest <;> simp

theorem recover_eq_ok_iff_joins {sig : Signature} {digest : Octets 32} {k : PublicKey} :
    sig.recover digest = .ok k ↔
      ∃ nonce r s, sig.Joins digest nonce k r s ∧ sig.recoveryId = idOf nonce :=
  recover_eq_ok_iff.trans recover?_eq_some_iff

theorem recover_eq_noKey {sig : Signature} {digest : Octets 32}
    (h : ∀ k, sig.recover digest ≠ .ok k) : sig.recover digest = .error (.signature .noKey) := by
  unfold recover at h ⊢
  cases hk : sig.recover? digest with
  | none => rfl
  | some k =>
    rw [hk] at h
    exact absurd rfl (h k)

theorem recover_eq_error {sig : Signature} {digest : Octets 32}
    (h : ∀ k : PublicKey, k.verify digest sig = false) :
    sig.recover digest = .error (.signature .noKey) := by
  apply recover_eq_noKey
  intro k hk
  obtain ⟨nonce, r, s, hjoins, hid⟩ := recover_eq_ok_iff_joins.mp hk
  have hverify := verify_eq_true_iff.mpr ⟨nonce, r, s, hjoins⟩
  rw [h k] at hverify
  cases hverify

/-! ## Agreement -/

/-- Numbers out of range and an `s` in the upper half are refused. -/
theorem verify_eq_false {sig : Signature} {digest : Octets 32} (k : PublicKey)
    (h : sig.r.toNat = 0 ∨ groupOrder ≤ sig.r.toNat ∨ sig.s.toNat = 0 ∨ groupOrder ≤ sig.s.toNat ∨
      groupOrder / 2 < sig.s.toNat) : k.verify digest sig = false := by
  rw [Bool.eq_false_iff]
  intro hverify
  obtain ⟨nonce, r, s, hjoins⟩ := verify_eq_true_iff.mp hverify
  obtain ⟨hr, hs⟩ := scalars?_eq_some_iff.mp hjoins.scalars
  have hr0 : r.scalar.val ≠ 0 := fun h0 => r.ne_zero (Fin.ext h0)
  have hs0 : s.scalar.val ≠ 0 := fun h0 => s.ne_zero (Fin.ext h0)
  have hrlt := r.scalar.isLt
  have hslt := s.scalar.isLt
  have hlow := of_decide_eq_false hjoins.low
  rw [hr] at hr0 hrlt
  rw [hs] at hs0 hslt hlow
  omega

/-- Whether a signature verifies does not depend on its recovery identifier. -/
theorem Joins.withId {r₀ s₀ digest : Octets 32} {id id' : Fin 4} {nonce k : PublicKey}
    {r s : PrivateKey} (h : Joins ⟨r₀, s₀, id⟩ digest nonce k r s) :
    Joins ⟨r₀, s₀, id'⟩ digest nonce k r s :=
  ⟨h.scalars, h.low, h.nonce_x, h.balances⟩

theorem recover_of_joins {r₀ s₀ digest : Octets 32} {id : Fin 4} {nonce k : PublicKey}
    {r s : PrivateKey} (h : Joins ⟨r₀, s₀, id⟩ digest nonce k r s) (id' : Fin 4) :
    recover ⟨r₀, s₀, id'⟩ digest = .ok k ↔ id' = idOf nonce := by
  rw [recover_eq_ok_iff_joins]
  constructor
  · rintro ⟨n', r', s', h', rfl⟩
    rw [h'.nonce_unique h.withId]
  · rintro rfl
    exact ⟨nonce, r, s, h.withId, rfl⟩

theorem exists_recover_of_verify {r s digest : Octets 32} {id : Fin 4} {k : PublicKey}
    (h : k.verify digest ⟨r, s, id⟩ = true) : ∃ id', recover ⟨r, s, id'⟩ digest = .ok k := by
  obtain ⟨nonce, a, b, hjoins⟩ := verify_eq_true_iff.mp h
  exact ⟨idOf nonce, (recover_of_joins hjoins _).mpr rfl⟩

/-! ## What a signature commits to -/

/-- A nonce point is told by the scalar of its `x` and by its identifier. -/
theorem nonce_eq_of_idOf {n₁ n₂ : PublicKey} (hx : scalarOf n₁.x.val = scalarOf n₂.x.val)
    (hid : idOf n₁ = idOf n₂) : n₁ = n₂ := by
  have hsame : n₁.x = n₂.x := by
    have h₁ := nonceX?_eq_some_iff.mpr ⟨rfl, two_le_idOf n₁⟩
    have h₂ := nonceX?_eq_some_iff.mpr ⟨rfl, two_le_idOf n₂⟩
    rw [hx, hid, h₂] at h₁
    exact (Option.some.inj h₁).symm
  have hparity : n₁.y.isOdd = n₂.y.isOdd := by
    rw [← idOf_parity, ← idOf_parity, hid]
  have hlift := n₁.lift?_self
  rw [hsame, hparity, n₂.lift?_self] at hlift
  exact (Option.some.inj hlift).symm

/-- The nonce point is rebuilt from the signature alone, so the equation leaves one scalar for the digests
from which a signature leads to a key. -/
theorem scalarOf_of_recover {sig : Signature} {d d' : Octets 32} {k : PublicKey}
    (h : sig.recover d = .ok k) (h' : sig.recover d' = .ok k) :
    scalarOf d.toNat = scalarOf d'.toNat := by
  obtain ⟨nonce, r, s, hjoins, hid⟩ := recover_eq_ok_iff_joins.mp h
  obtain ⟨nonce', r', s', hjoins', hid'⟩ := recover_eq_ok_iff_joins.mp h'
  have hscalars := hjoins'.scalars
  rw [hjoins.scalars] at hscalars
  cases hscalars
  have hnonce : nonce = nonce' :=
    nonce_eq_of_idOf (hjoins.nonce_x.trans hjoins'.nonce_x.symm) (hid.symm.trans hid')
  subst hnonce
  have hsum : scalarOf d.toNat • base + r.scalar • k.point =
      scalarOf d'.toNat • base + r.scalar • k.point :=
    hjoins.balances.symm.trans hjoins'.balances
  exact smul_base_injective (add_right_cancel hsum)

/-- A digest enters as a scalar only. -/
theorem recover_congr {d d' : Octets 32} (h : scalarOf d.toNat = scalarOf d'.toNat)
    (sig : Signature) : sig.recover d = sig.recover d' := by
  unfold recover recover? PublicKey.verify
  rw [h]

theorem s_le_of_recover {sig : Signature} {digest : Octets 32} {k : PublicKey}
    (h : sig.recover digest = .ok k) : sig.s.toNat ≤ groupOrder / 2 := by
  obtain ⟨nonce, r, s, hjoins, -⟩ := recover_eq_ok_iff_joins.mp h
  exact hjoins.s_le

/-- Of the signatures with one `r`, and with one `s` or its negative, one leads from a digest to a key. -/
theorem eq_of_recover {sig sig' : Signature} {digest : Octets 32} {k : PublicKey}
    (h : sig.recover digest = .ok k) (h' : sig'.recover digest = .ok k) (hr : sig.r = sig'.r)
    (hs : sig.s = sig'.s ∨ sig.s.toNat + sig'.s.toNat = groupOrder) : sig = sig' := by
  have hsame : sig.s = sig'.s := by
    refine hs.resolve_right fun hsum => ?_
    -- both are low, and the group order is odd
    have hodd : groupOrder % 2 = 1 := by decide
    have hlow := s_le_of_recover h
    have hlow' := s_le_of_recover h'
    omega
  obtain ⟨r, s, id⟩ := sig
  obtain ⟨r', s', id'⟩ := sig'
  cases hr
  cases hsame
  obtain ⟨nonce, a, b, hjoins, hid⟩ := recover_eq_ok_iff_joins.mp h
  have hid' := (recover_of_joins hjoins id').mp h'
  rw [hid', ← hid]

/-! ## Verification and recovery agree -/

/-- A signature verifies under a key if and only if one of the four recovery identifiers leads to the
key, and then no other one does. Numbers out of range and a high `s` fail both ways. -/
theorem verify_iff_recover (r s digest : Octets 32) (id : Fin 4) (k : PublicKey) :
    (k.verify digest ⟨r, s, id⟩ = true ↔ ∃ id', recover ⟨r, s, id'⟩ digest = .ok k) ∧
    (k.verify digest ⟨r, s, id⟩ = true → ∃! id', recover ⟨r, s, id'⟩ digest = .ok k) ∧
    (r.toNat = 0 ∨ groupOrder ≤ r.toNat ∨ s.toNat = 0 ∨ groupOrder ≤ s.toNat ∨
        groupOrder / 2 < s.toNat →
      k.verify digest ⟨r, s, id⟩ = false ∧
        ∀ id', recover ⟨r, s, id'⟩ digest = .error (.signature .noKey)) := by
  have hunique : k.verify digest ⟨r, s, id⟩ = true →
      ∃! id', recover ⟨r, s, id'⟩ digest = .ok k := by
    intro h
    obtain ⟨nonce, a, b, hjoins⟩ := verify_eq_true_iff.mp h
    exact ⟨idOf nonce, (recover_of_joins hjoins _).mpr rfl,
      fun id' => (recover_of_joins hjoins id').mp⟩
  refine ⟨⟨fun h => (hunique h).exists, ?_⟩, hunique, ?_⟩
  · rintro ⟨id', h⟩
    obtain ⟨nonce, a, b, hjoins, -⟩ := recover?_eq_some_iff.mp (recover_eq_ok_iff.mp h)
    exact verify_eq_true_iff.mpr ⟨nonce, a, b, hjoins.withId⟩
  · intro h
    have hfalse : ∀ (id' : Fin 4) (k' : PublicKey), k'.verify digest ⟨r, s, id'⟩ = false :=
      fun id' k' => verify_eq_false k' h
    exact ⟨hfalse id k, fun id' => recover_eq_error (hfalse id')⟩

/-- A signature by the first key has one identifier that leads back to the key; with the negative of its
`s` it is refused everywhere. -/
theorem one_id_recovers_first_key :
    let digest := Octets.ofNat 32 0xa0dc65ffca799873cbea0ac274015b9526505daaaed385155425f7337704883e
    let r := Octets.ofNat 32 0x934b1ea10a4b3c1757e2b0c017d0b6143ce3c9a7e6a4a49860d7a6ab210ee3d8
    let s := 0x2442ce9d2b916064108014783e923ec36b49743e2ffa1c4496f01a512aafd9e5
    (∃! id, recover ⟨r, Octets.ofNat 32 s, id⟩ digest = .ok PublicKey.generator) ∧
      ∀ id, recover ⟨r, Octets.ofNat 32 (groupOrder - s), id⟩ digest = .error (.signature .noKey) := by
  intro digest r s
  have hverify : PublicKey.generator.verify digest ⟨r, Octets.ofNat 32 s, 0⟩ = true := by
    decide +kernel
  have hhigh : groupOrder / 2 < (Octets.ofNat 32 (groupOrder - s)).toNat := by decide +kernel
  have hagree := verify_iff_recover r (Octets.ofNat 32 s) digest 0 PublicKey.generator
  have hrefused := verify_iff_recover r (Octets.ofNat 32 (groupOrder - s)) digest 0
    PublicKey.generator
  exact ⟨hagree.2.1 hverify,
    (hrefused.2.2 (Or.inr (Or.inr (Or.inr (Or.inr hhigh))))).2⟩

end Signature

end WalletAuth
