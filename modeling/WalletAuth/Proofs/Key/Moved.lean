import Mathlib
import WalletAuth.Proofs.Except
import WalletAuth.Proofs.Key.Private

/-! Moving a key by a number, on the private and on the public side. Both sides refuse a number that is not
below the group order. Where the sum vanishes the private side meets the scalar zero and the public
side the point at infinity; everywhere else both sides move, and to the two halves of one key. -/
namespace WalletAuth
open Curve Curve.Arithmetic
set_option autoImplicit false

/-! ## Any public key -/

namespace PublicKey

theorem tweak_eq_error_iff {t : Octets 32} {e : KeyError} :
    tweak t = .error e ↔ groupOrder ≤ t.toNat ∧ e = .privateKey .tweakOutOfRange := by
  unfold tweak scalar?
  by_cases h : t.toNat < groupOrder
  · simp [h]
  · simp [h, Nat.le_of_not_lt h, eq_comm]

theorem addTweak_eq_error_iff {k : PublicKey} {t : Octets 32} {e : KeyError} :
    k.addTweak t = .error e ↔ groupOrder ≤ t.toNat ∧ e = .privateKey .tweakOutOfRange ∨
      ∃ v : Scalar, v.val = t.toNat ∧ k.point + v • base = 0 ∧ e = .pointAtInfinity := by
  unfold addTweak
  rw [bind_eq_error_iff, tweak_eq_error_iff]
  simp only [tweak_eq_ok_iff, ofJacobian?_add_times, ← key?_eq_none_iff]
  refine or_congr_right (exists_congr fun v => and_congr_right fun _ => ?_)
  cases (k.point + v • base).key? <;> simp [eq_comm]

end PublicKey

/-! ## Both halves of one key -/

namespace PrivateKey

variable {k : PrivateKey} {t : Octets 32} {z e : KeyError}

/-- Why a key is not moved, where `z` is the error for a sum that vanishes. -/
inductive Unmoved (k : PrivateKey) (t : Octets 32) (z : KeyError) : KeyError → Prop
  | outOfRange (h : groupOrder ≤ t.toNat) : Unmoved k t z (.privateKey .tweakOutOfRange)
  | vanishing (hlt : t.toNat < groupOrder) (hzero : (k.scalar.val + t.toNat) % groupOrder = 0) :
    Unmoved k t z z

theorem unmoved_iff : k.Unmoved t z e ↔ groupOrder ≤ t.toNat ∧ e = .privateKey .tweakOutOfRange ∨
    ∃ v : Scalar, v.val = t.toNat ∧ k.scalar + v = 0 ∧ e = z := by
  constructor
  · intro h
    cases h with
    | outOfRange h => exact Or.inl ⟨h, rfl⟩
    | vanishing hlt hzero => exact Or.inr ⟨⟨t.toNat, hlt⟩, rfl, Fin.ext hzero, rfl⟩
  · rintro (⟨h, rfl⟩ | ⟨v, hv, hzero, rfl⟩)
    · exact .outOfRange h
    · have hval := Fin.ext_iff.mp hzero
      rw [Fin.val_add, hv] at hval
      exact .vanishing (hv ▸ v.isLt) hval

theorem addTweak_eq_error_iff : k.addTweak t = .error e ↔ k.Unmoved t (.privateKey .zeroSum) e := by
  unfold addTweak
  rw [bind_eq_error_iff, PublicKey.tweak_eq_error_iff, unmoved_iff]
  simp only [PublicKey.tweak_eq_ok_iff]
  refine or_congr_right (exists_congr fun v => and_congr_right fun _ => ?_)
  unfold ofScalar?
  by_cases hzero : k.scalar + v = 0
  · simp [hzero, eq_comm]
  · simp [hzero]

theorem addTweak_publicKey_eq_error_iff :
    k.publicKey.addTweak t = .error e ↔ k.Unmoved t .pointAtInfinity e := by
  rw [PublicKey.addTweak_eq_error_iff, unmoved_iff]
  simp only [point_add_smul_base, smul_eq_zero, base_ne_zero, or_false]

theorem forall_not_unmoved_iff : (∀ e, ¬ k.Unmoved t z e) ↔
    t.toNat < groupOrder ∧ (k.scalar.val + t.toNat) % groupOrder ≠ 0 := by
  constructor
  · intro h
    have hlt : t.toNat < groupOrder := not_le.mp fun hle => h _ (.outOfRange hle)
    exact ⟨hlt, fun hzero => h _ (.vanishing hlt hzero)⟩
  · rintro ⟨hlt, hne⟩ e h
    cases h with
    | outOfRange hle => exact absurd hlt (not_lt.mpr hle)
    | vanishing _ hzero => exact hne hzero

theorem val_scalar_of_addTweak {sum : PrivateKey} (h : k.addTweak t = .ok sum) :
    sum.scalar.val = (k.scalar.val + t.toNat) % groupOrder := by
  obtain ⟨v, hv, hsum⟩ := addTweak_eq_ok_iff.mp h
  rw [hsum, ← hv]
  exact Fin.val_add k.scalar v

/-- A private key is moved by a number if its public half is, which is if the number lies below the group
order and the sum does not vanish. The moved key is the sum modulo the group order, and its public half is
the moved public half. -/
theorem halves_moved_alike (k : PrivateKey) (t : Octets 32) :
    ((∃ sum, k.addTweak t = .ok sum) ↔
      t.toNat < groupOrder ∧ (k.scalar.val + t.toNat) % groupOrder ≠ 0) ∧
    ((∃ p, k.publicKey.addTweak t = .ok p) ↔
      t.toNat < groupOrder ∧ (k.scalar.val + t.toNat) % groupOrder ≠ 0) ∧
    ∀ sum, k.addTweak t = .ok sum →
      sum.scalar.val = (k.scalar.val + t.toNat) % groupOrder ∧
        k.publicKey.addTweak t = .ok sum.publicKey := by
  refine ⟨?_, ?_, fun sum h => ⟨val_scalar_of_addTweak h, addTweak_publicKey h⟩⟩
  · simp only [exists_ok_iff, ne_eq, addTweak_eq_error_iff]
    exact forall_not_unmoved_iff
  · simp only [exists_ok_iff, ne_eq, addTweak_publicKey_eq_error_iff]
    exact forall_not_unmoved_iff

/-- The greatest key is moved by two to the first key on both sides, and by one on neither. -/
theorem greatest_key_moved_alike :
    ∃ k first : PrivateKey, k.scalar.val + 1 = groupOrder ∧ first.scalar = 1 ∧
      k.addTweak (Octets.ofNat 32 2) = .ok first ∧
      k.publicKey.addTweak (Octets.ofNat 32 2) = .ok first.publicKey ∧
      (∀ sum, k.addTweak (Octets.ofNat 32 1) ≠ .ok sum) ∧
      ∀ p, k.publicKey.addTweak (Octets.ofNat 32 1) ≠ .ok p := by
  let k : PrivateKey := ⟨-1, by decide⟩
  have hone : (k.scalar.val + (Octets.ofNat 32 1).toNat) % groupOrder = 0 := by decide
  obtain ⟨hprivate, hpublic, -⟩ := halves_moved_alike k (Octets.ofNat 32 1)
  have hmove : k.addTweak (Octets.ofNat 32 2) = .ok ⟨1, by decide⟩ :=
    addTweak_eq_ok_iff.mpr ⟨2, by decide, by decide⟩
  have htwo := ((halves_moved_alike k (Octets.ofNat 32 2)).2.2 _ hmove).2
  refine ⟨k, ⟨1, by decide⟩, by decide, rfl, hmove, htwo, fun sum h => ?_, fun p h => ?_⟩
  · exact (hprivate.mp ⟨sum, h⟩).2 hone
  · exact (hpublic.mp ⟨p, h⟩).2 hone

end PrivateKey

end WalletAuth
