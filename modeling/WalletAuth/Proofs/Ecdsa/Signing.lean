import Mathlib
import WalletAuth.Proofs.Ecdsa.Recovery

/-! Signing solves the equation of a signature for `s`. Where the upper half is met, `s` and the nonce
point are both turned to their negatives, which keeps the equation and the `x` and changes the
parity. So whatever nonce is used, the signature leads back to the public half of the key. -/
namespace WalletAuth
open Curve Curve.Arithmetic
set_option autoImplicit false

namespace Signature

theorem isHigh_neg {s : Scalar} (h : isHigh s = true) : isHigh (-s) = false := by
  have hlow := of_decide_eq_true h
  have hs : s ≠ 0 := by
    rintro rfl
    exact absurd h (by decide)
  have hneg : (-s).val = groupOrder - s.val := by
    rw [Fin.val_neg, if_neg hs]
  have hlt := s.isLt
  have hodd : groupOrder % 2 = 1 := by decide
  unfold isHigh
  rw [decide_eq_false_iff_not, hneg]
  omega

theorem balances_neg {z r s : Scalar} {nonce key : Point} (h : Balances z r s nonce key) :
    Balances z r (-s) (-nonce) key := by
  unfold Balances
  rw [neg_smul_neg]
  exact h

theorem idOf_low (nonce : PublicKey) :
    idOf nonce = Fin.ofNat 4 ((if groupOrder ≤ nonce.x.val then 2 else 0) +
      if nonce.y.isOdd = false then 0 else 1) := by
  apply Fin.ext
  rw [val_idOf]
  cases nonce.y.isOdd <;> split <;> rfl

theorem idOf_opposite (nonce : PublicKey) :
    idOf nonce.opposite = Fin.ofNat 4 ((if groupOrder ≤ nonce.x.val then 2 else 0) +
      if nonce.y.isOdd = true then 0 else 1) := by
  have hx : nonce.opposite.x = nonce.x := rfl
  apply Fin.ext
  rw [val_idOf, PublicKey.isOdd_opposite, hx]
  cases nonce.y.isOdd <;> split <;> rfl

end Signature

namespace PrivateKey
open Signature

theorem times_generator (k : PrivateKey) :
    (Jacobian.times k.scalar Jacobian.generator).toAffine? = some (k.publicKey.x, k.publicKey.y) := by
  have h := Jacobian.represents_times k.scalar represents_generator
  rw [← point_publicKey] at h
  exact Jacobian.toAffine?_of_finite h

/-- The `s` that signing computes satisfies the equation. -/
theorem balances_sign (k nonce : PrivateKey) (z r : Scalar) :
    Balances z r (nonce.scalar⁻¹ * (z + r * k.scalar)) nonce.publicKey.point k.publicKey.point := by
  have hcancel : nonce.scalar⁻¹ * (z + r * k.scalar) * nonce.scalar = z + r * k.scalar := by
    rw [mul_comm, mul_inv_cancel_left₀ nonce.ne_zero]
  unfold Balances
  rw [point_publicKey, point_publicKey, smul_smul, hcancel, smul_smul, add_smul]

theorem joins_of_signWith? {k nonce : PrivateKey} {digest : Octets 32} {sig : Signature}
    (h : k.signWith? nonce digest = some sig) :
    ∃ point r s, sig.Joins digest point k.publicKey r s ∧ sig.recoveryId = idOf point := by
  simp only [signWith?, times_generator, bind, Option.bind_some, Scalar.inverse_eq] at h
  have hbal := balances_sign k nonce (scalarOf digest.toNat) (scalarOf nonce.publicKey.x.val)
  generalize nonce.scalar⁻¹ * (scalarOf digest.toNat + scalarOf nonce.publicKey.x.val * k.scalar)
    = s at h hbal
  obtain ⟨hnonzero, hsig⟩ := Option.ite_none_left_eq_some.mp h
  rw [Bool.or_eq_true, decide_eq_true_iff, decide_eq_true_iff, not_or] at hnonzero
  obtain ⟨hr, hs⟩ := hnonzero
  rw [← Option.some.inj hsig]
  have hscalars : ∀ (s' : Scalar) (hs' : s' ≠ 0) (id : Fin 4),
      scalars? ⟨Octets.ofNat 32 (scalarOf nonce.publicKey.x.val).val, Octets.ofNat 32 s'.val, id⟩ =
        some (⟨_, hr⟩, ⟨s', hs'⟩) := fun s' hs' _ =>
    scalars?_eq_some_iff.mpr ⟨(toNat_octets ⟨_, hr⟩).symm, (toNat_octets ⟨s', hs'⟩).symm⟩
  cases hhigh : isHigh s with
  | false =>
    rw [if_neg Bool.false_ne_true]
    exact ⟨nonce.publicKey, ⟨_, hr⟩, ⟨s, hs⟩, ⟨hscalars s hs _, hhigh, rfl, hbal⟩,
      (idOf_low nonce.publicKey).symm⟩
  | true =>
    have hs' : -s ≠ 0 := neg_ne_zero.mpr hs
    rw [if_pos rfl]
    refine ⟨nonce.publicKey.opposite, ⟨_, hr⟩, ⟨-s, hs'⟩,
      ⟨hscalars (-s) hs' _, isHigh_neg hhigh, rfl, ?_⟩, (idOf_opposite nonce.publicKey).symm⟩
    rw [PublicKey.point_opposite]
    exact balances_neg hbal

theorem sign_eq_ok_iff {k : PrivateKey} {digest : Octets 32} {sig : Signature} :
    k.sign digest = .ok sig ↔
      ∃ nonce, Ecdsa.nonce? k digest = some nonce ∧ k.signWith? nonce digest = some sig := by
  rw [← Option.bind_eq_some_iff]
  unfold sign
  generalize (Ecdsa.nonce? k digest).bind (fun nonce => k.signWith? nonce digest) = made
  cases made with
  | none => simp
  | some sig' => simp

theorem joins_of_sign {k : PrivateKey} {digest : Octets 32} {sig : Signature}
    (h : k.sign digest = .ok sig) :
    ∃ point r s, sig.Joins digest point k.publicKey r s ∧ sig.recoveryId = idOf point := by
  obtain ⟨nonce, -, hwith⟩ := sign_eq_ok_iff.mp h
  exact joins_of_signWith? hwith

/-- A signature leads back to the public half of the key that made it. -/
theorem recover_of_sign {k : PrivateKey} {digest : Octets 32} {sig : Signature}
    (h : k.sign digest = .ok sig) : sig.recover digest = .ok k.publicKey :=
  recover_eq_ok_iff_joins.mpr (joins_of_sign h)

theorem exists_sign {k nonce : PrivateKey} {digest : Octets 32}
    (hnonce : Ecdsa.nonce? k digest = some nonce)
    (hsign : (k.signWith? nonce digest).isSome = true) : ∃ sig, k.sign digest = .ok sig := by
  obtain ⟨sig, hsig⟩ := Option.isSome_iff_exists.mp hsign
  exact ⟨sig, sign_eq_ok_iff.mpr ⟨nonce, hnonce, hsig⟩⟩

end PrivateKey

/-! ## Nonces -/

namespace Ecdsa

theorem Generator.scalar?_succ {attempts : ℕ} {g : Generator} {nonce : PrivateKey}
    (h : g.advance.value = nonce.octets) : g.scalar? (attempts + 1) = some nonce := by
  unfold scalar?
  dsimp only
  rw [h, PrivateKey.ofOctets?_octets]

/-- The nonce from the tags that lead to it, if the first candidate is one. -/
theorem nonce?_eq_some {k nonce : PrivateKey} {digest : Octets 32}
    (key₁ value₁ key₂ value₂ : Octets 32)
    (hkey₁ : Hash.hmacSha256 (List.replicate 32 0)
      (List.replicate 32 1 ++ 0 :: (k.octets.toList ++ digest.toList)) = key₁)
    (hvalue₁ : Hash.hmacSha256 key₁.toList (List.replicate 32 1) = value₁)
    (hkey₂ : Hash.hmacSha256 key₁.toList
      (value₁.toList ++ 1 :: (k.octets.toList ++ digest.toList)) = key₂)
    (hvalue₂ : Hash.hmacSha256 key₂.toList value₁.toList = value₂)
    (hnonce : Hash.hmacSha256 key₂.toList value₂.toList = nonce.octets) :
    nonce? k digest = some nonce := by
  have hzeros : (Octets.replicate 32 0).toList = List.replicate 32 0 := rfl
  have hones : (Octets.replicate 32 1).toList = List.replicate 32 1 := rfl
  have hstart : Generator.start k digest = ⟨key₂, value₂⟩ := by
    simp only [Generator.start, Generator.mix, Generator.advance, hzeros, hones, hkey₁, hvalue₁,
      hkey₂, hvalue₂]
  unfold nonce?
  rw [hstart]
  exact Generator.scalar?_succ hnonce

end Ecdsa

end WalletAuth
