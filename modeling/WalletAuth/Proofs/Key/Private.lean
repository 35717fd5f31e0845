import Mathlib
import WalletAuth.Key.Private
import WalletAuth.Proofs.Key.Public

/-! Private keys are the scalars other than zero, and the public half of a key is that multiple of the
generator. Moving a private key by a number and moving its public half by the same number are
specified alike: both need a number below the group order, and both fail where the sum vanishes. -/
namespace WalletAuth
open Curve Curve.Arithmetic
set_option autoImplicit false

theorem Curve.scalar?_eq_some_iff {v : ℕ} {a : Scalar} : scalar? v = some a ↔ a.val = v := by
  unfold scalar?
  constructor
  · intro h
    obtain ⟨hv, ha⟩ := Option.dite_none_right_eq_some.mp h
    rw [← Option.some.inj ha]
  · rintro rfl
    exact dif_pos a.isLt

/-! ## Moved public keys -/

namespace PublicKey

theorem tweak_eq_ok_iff {t : Octets 32} {v : Scalar} : tweak t = .ok v ↔ v.val = t.toNat := by
  unfold tweak
  rw [← scalar?_eq_some_iff]
  cases scalar? t.toNat <;> simp

theorem ofJacobian?_add_times (k : PublicKey) (v : Scalar) :
    ofJacobian? (k.jacobian.add (Jacobian.times v Jacobian.generator)) = (k.point + v • base).key? :=
  ofJacobian?_eq (Jacobian.represents_add k.represents_jacobian
    (Jacobian.represents_times v represents_generator))

theorem addTweak_eq_ok_iff {k sum : PublicKey} {t : Octets 32} :
    k.addTweak t = .ok sum ↔
      ∃ v : Scalar, v.val = t.toNat ∧ sum.point = k.point + v • base := by
  unfold addTweak
  rw [bind_eq_ok_iff]
  simp only [tweak_eq_ok_iff, ofJacobian?_add_times]
  refine exists_congr fun v => and_congr_right fun _ => ?_
  rw [eq_comm (a := sum.point), ← key?_eq_some_iff]
  cases (k.point + v • base).key? <;> simp

end PublicKey

/-! ## Private keys and their public halves -/

namespace PrivateKey

theorem ofScalar?_eq_some_iff {v : Scalar} {k : PrivateKey} : ofScalar? v = some k ↔ k.scalar = v := by
  unfold ofScalar?
  constructor
  · intro h
    obtain ⟨hv, hk⟩ := Option.dite_none_right_eq_some.mp h
    rw [← Option.some.inj hk]
  · rintro rfl
    exact dif_pos k.ne_zero

theorem smul_base_ne_zero {a : Scalar} (ha : a ≠ 0) : a • base ≠ 0 :=
  smul_ne_zero ha base_ne_zero

theorem point_publicKey (k : PrivateKey) : k.publicKey.point = k.scalar • base := by
  have hkey := PublicKey.ofJacobian?_eq (Jacobian.represents_times k.scalar represents_generator)
  unfold publicKey
  rw [hkey]
  cases h : (k.scalar • base).key? with
  | none => exact absurd (PublicKey.key?_eq_none_iff.mp h) (smul_base_ne_zero k.ne_zero)
  | some p => exact (PublicKey.key?_eq_some_iff.mp h).symm

theorem addTweak_eq_ok_iff {k sum : PrivateKey} {t : Octets 32} :
    k.addTweak t = .ok sum ↔ ∃ v : Scalar, v.val = t.toNat ∧ sum.scalar = k.scalar + v := by
  unfold addTweak
  rw [bind_eq_ok_iff]
  simp only [PublicKey.tweak_eq_ok_iff]
  refine exists_congr fun v => and_congr_right fun _ => ?_
  rw [← ofScalar?_eq_some_iff]
  cases ofScalar? (k.scalar + v) <;> simp

theorem point_add_smul_base (k : PrivateKey) (v : Scalar) :
    k.publicKey.point + v • base = (k.scalar + v) • base := by
  rw [point_publicKey, add_smul]

/-- Moving the public half gives the public half of the moved key. -/
theorem addTweak_publicKey {k sum : PrivateKey} {t : Octets 32} (h : k.addTweak t = .ok sum) :
    k.publicKey.addTweak t = .ok sum.publicKey := by
  obtain ⟨v, hv, hsum⟩ := addTweak_eq_ok_iff.mp h
  refine PublicKey.addTweak_eq_ok_iff.mpr ⟨v, hv, ?_⟩
  rw [point_add_smul_base, point_publicKey, hsum]

theorem toOption_addTweak_publicKey (k : PrivateKey) (t : Octets 32) :
    (k.publicKey.addTweak t).toOption = (k.addTweak t).toOption.map publicKey := by
  cases h : k.addTweak t with
  | ok sum =>
    rw [addTweak_publicKey h]
    rfl
  | error e =>
    cases hpublic : k.publicKey.addTweak t with
    | error e' => rfl
    | ok p =>
      obtain ⟨v, hv, hp⟩ := PublicKey.addTweak_eq_ok_iff.mp hpublic
      rw [point_add_smul_base] at hp
      have hne : k.scalar + v ≠ 0 := by
        intro hzero
        rw [hzero, zero_smul] at hp
        exact p.point_ne_zero hp
      have hok : k.addTweak t = .ok ⟨k.scalar + v, hne⟩ := addTweak_eq_ok_iff.mpr ⟨v, hv, rfl⟩
      rw [hok] at h
      cases h

/-! ## Points in common -/

/-- A multiple of a public key by a private one is a public key, of which the `x` is shared. -/
theorem sharedX_eq (k : PrivateKey) (p : PublicKey) :
    ∃ common : PublicKey, common.point = k.scalar • p.point ∧
      k.sharedX p = .ok (Octets.ofNat 32 common.x.val) := by
  have hrepresents := Jacobian.represents_times k.scalar p.represents_jacobian
  have hpoint : k.scalar • p.point ≠ 0 := smul_ne_zero k.ne_zero p.point_ne_zero
  cases hkey : (k.scalar • p.point).key? with
  | none => exact absurd (PublicKey.key?_eq_none_iff.mp hkey) hpoint
  | some common =>
    have hcommon := PublicKey.key?_eq_some_iff.mp hkey
    rw [hcommon] at hrepresents
    refine ⟨common, hcommon.symm, ?_⟩
    unfold sharedX
    rw [Jacobian.toAffine?_of_finite hrepresents]

theorem exists_sharedX (k : PrivateKey) (p : PublicKey) : ∃ x, k.sharedX p = .ok x := by
  obtain ⟨common, -, hx⟩ := k.sharedX_eq p
  exact ⟨_, hx⟩

theorem exists_common (j k : PrivateKey) :
    ∃ common : PublicKey, common.point = (j.scalar * k.scalar) • base := by
  obtain ⟨common, hcommon, -⟩ := j.sharedX_eq k.publicKey
  refine ⟨common, ?_⟩
  rw [hcommon, point_publicKey, mul_smul]

theorem sharedX_publicKey {j k : PrivateKey} {common : PublicKey}
    (h : common.point = (j.scalar * k.scalar) • base) :
    j.sharedX k.publicKey = .ok (Octets.ofNat 32 common.x.val) := by
  obtain ⟨common', hcommon, hx⟩ := j.sharedX_eq k.publicKey
  have hsame : common' = common := by
    apply PublicKey.point_injective
    rw [hcommon, h, point_publicKey, mul_smul]
  rw [hx, hsame]

/-- Opposite points have opposite multiples, which have the same `x`. -/
theorem sharedX_opposite (k : PrivateKey) (p : PublicKey) : k.sharedX p.opposite = k.sharedX p := by
  obtain ⟨common, hcommon, hx⟩ := k.sharedX_eq p
  obtain ⟨common', hcommon', hx'⟩ := k.sharedX_eq p.opposite
  have hsame : common' = common.opposite := by
    apply PublicKey.point_injective
    rw [hcommon', PublicKey.point_opposite, PublicKey.point_opposite, hcommon, smul_neg]
  rw [hx, hx', hsame]
  rfl

/-- Each of two holders of private keys gets to the same `x` with the other's public key. -/
theorem sharedX_comm (j k : PrivateKey) : j.sharedX k.publicKey = k.sharedX j.publicKey := by
  obtain ⟨common, hcommon⟩ := exists_common j k
  have hcommon' : common.point = (k.scalar * j.scalar) • base := by rw [hcommon, mul_comm]
  rw [sharedX_publicKey hcommon, sharedX_publicKey hcommon']

/-! ## Octets -/

theorem ofOctets?_eq_some_iff {o : Octets 32} {k : PrivateKey} :
    ofOctets? o = some k ↔ k.scalar.val = o.toNat := by
  unfold ofOctets?
  simp only [bind, Option.bind_eq_some_iff, ofScalar?_eq_some_iff, scalar?_eq_some_iff]
  constructor
  · rintro ⟨a, ha, rfl⟩
    exact ha
  · intro h
    exact ⟨k.scalar, h, rfl⟩

theorem toNat_octets (k : PrivateKey) : k.octets.toNat = k.scalar.val := by
  have hsize : groupOrder < 256 ^ 32 := by decide
  exact Octets.toNat_ofNat (k.scalar.isLt.trans hsize)

theorem ofOctets?_octets (k : PrivateKey) : ofOctets? k.octets = some k :=
  ofOctets?_eq_some_iff.mpr k.toNat_octets.symm

theorem octets_of_ofOctets? {o : Octets 32} {k : PrivateKey} (h : ofOctets? o = some k) :
    k.octets = o := by
  apply Octets.toNat_injective
  rw [toNat_octets, ofOctets?_eq_some_iff.mp h]

theorem ofBytes_eq_ok_iff {l : Bytes} {k : PrivateKey} : ofBytes l = .ok k ↔ l = k.octets.toList := by
  unfold ofBytes
  constructor
  · intro h
    split at h
    · cases h
    · next o ho =>
      split at h
      · next k' hk =>
        cases h
        rw [octets_of_ofOctets? hk]
        exact Octets.ofList?_eq_some_iff.mp ho
      · cases h
  · rintro rfl
    simp only [Octets.ofList?_toList, ofOctets?_octets]

end PrivateKey

end WalletAuth
