import Mathlib
import WalletAuth.Contact.Pairing
import WalletAuth.Proofs.HdKey.Step
import WalletAuth.Proofs.Key.Private

/-! The secret that two roots share. A private root has a private pairing key, and the pairing key of either
root and the public half of the other's lead to one point, in whatever encoding the public half comes and
even if its opposite comes instead. No point has the `x` zero, so something is left of the octets of the
`x` when the leading zeros are dropped. -/
namespace WalletAuth
open Curve Curve.Arithmetic
set_option autoImplicit false

/-- The octets of a coordinate without leading zeros. -/
structure Curve.Coordinate.Minimal (x : Coordinate) (s : Bytes) : Prop where
  length_pos : 1 ≤ s.length
  length_le : s.length ≤ 32
  head_ne : s.head? ≠ some 0
  padded : List.replicate (32 - s.length) 0 ++ s = (Octets.ofNat 32 x.val).toList

theorem Curve.Coordinate.minimal_dropWhile {x : Coordinate} (hx : x ≠ 0) :
    x.Minimal ((Octets.ofNat 32 x.val).toList.dropWhile (· == 0)) where
  length_pos := by
    refine List.length_pos_iff.mpr (Bytes.dropWhile_ne_nil ?_)
    show Bytes.toNat (Bytes.ofNat 32 x.val) ≠ 0
    rw [PublicKey.toNat_ofNat_coordinate]
    exact fun h => hx (Fin.ext h)
  length_le := by
    refine (List.dropWhile_suffix _).length_le.trans ?_
    rw [Octets.length_toList]
  head_ne := Bytes.head?_dropWhile_ne_zero _
  padded := by
    have h := Bytes.replicate_append_dropWhile (Octets.ofNat 32 x.val).toList
    rwa [Octets.length_toList] at h

namespace Contact

open ExtendedKey (firstRoot plainRoot)

/-! ## Pairing keys of plain roots -/

/-- The pairing key of a plain root, from the two nodes on the way to it. -/
theorem exists_pairingKey_plainRoot {key : PrivateKey} (next last : Octets 32 × PrivateKey)
    (hnext : ExtendedKey.secretChild (Octets.replicate 32 0, key) 0 = some next)
    (hlast : ExtendedKey.secretChild next 0 = some last) :
    ∃ a, (plainRoot key).pairingKey = .ok a ∧ a.privateKey = .ok last.2 := by
  have hnodes : ((Octets.replicate 32 0, key) :: [next, last]).IsChain
      fun a b => ExtendedKey.secretChild a 0 = some b := by
    simp only [List.isChain_cons_cons, List.isChain_singleton]
    exact ⟨hnext, hlast, trivial⟩
  have hroom : (plainRoot key).depth.toNat + [next, last].length ≤ 255 := show 0 + 2 ≤ 255 by decide
  obtain ⟨a, ha, hkey⟩ := ExtendedKey.descend_of_isChain (by decide) hnodes rfl rfl hroom
  exact ⟨a, ha, hkey⟩

theorem firstRoot_pairingKey : ∃ a, firstRoot.pairingKey = .ok a ∧ a.privateKey = .ok
    ⟨0x7d9629d719b0429d7f6fcc44ee4e6782201d0c07731b052b60ddf90c357ffec3, by decide⟩ :=
  exists_pairingKey_plainRoot
    (Octets.ofNat 32 0x8aedbb4c67c846b9ed458f1fb89b9c7c62d695f210ab89c9c3f99989302a85c7,
      ⟨0x23f2740ea906f427c10cd03910c510f0c468e703f042a8d06c5b7721f2c15b34, by decide⟩)
    (Octets.ofNat 32 0xad745b3b3b726d506fca6eec15a4e580e9e716da89799d65d4492563ded40731,
      ⟨0x7d9629d719b0429d7f6fcc44ee4e6782201d0c07731b052b60ddf90c357ffec3, by decide⟩)
    (by decide +kernel) (by decide +kernel)

theorem secondRoot_pairingKey :
    ∃ b, (plainRoot ⟨2, by decide⟩).pairingKey = .ok b ∧ b.privateKey = .ok
      ⟨0x10056e7038db192af93b106f5962c1bc8f5123fed8e44212656105022dfa98a1, by decide⟩ :=
  exists_pairingKey_plainRoot
    (Octets.ofNat 32 0x000f25db8615dd0663b2ad400f1c6607163ace291ca8ef284b8d319b54bff905,
      ⟨0x2d69011ee7abefa0c562398c57dbfae4e334a45fbb43a63e8463cdafd026e79f, by decide⟩)
    (Octets.ofNat 32 0x4043e22a4acaddc5eaf0912db20c2846dd39302cbbc9d138807e8e7f101601fa,
      ⟨0x10056e7038db192af93b106f5962c1bc8f5123fed8e44212656105022dfa98a1, by decide⟩)
    (by decide +kernel) (by decide +kernel)

/-! ## The secret in common -/

variable {root paired : ExtendedKey} {j k : PrivateKey} {common : PublicKey}

theorem isPrivate_of_pairingKey (h : root.pairingKey = .ok paired) :
    paired.isPrivate = root.isPrivate :=
  ExtendedKey.isPrivate_of_descend h

theorem privateKey_of_pairingKey (hroot : root.isPrivate = true)
    (h : root.pairingKey = .ok paired) :
    ∃ key, paired.privateKey = .ok key ∧ paired.publicKey = key.publicKey := by
  apply ExtendedKey.exists_privateKey
  rw [isPrivate_of_pairingKey h, hroot]

theorem sharedSecret_eq {e : String} (h : root.pairingKey = .ok paired)
    (hj : paired.privateKey = .ok j)
    (he : k.publicKey.SpelledBy e ∨ k.publicKey.opposite.SpelledBy e)
    (hcommon : common.point = (j.scalar * k.scalar) • base) :
    sharedSecret root e = .ok ((Octets.ofNat 32 common.x.val).toList.dropWhile (· == 0)) := by
  have hpaired : pairingPrivateKey root = .ok j := bind_eq_ok_iff.mpr ⟨paired, h, hj⟩
  have hx := PrivateKey.sharedX_publicKey hcommon
  unfold sharedSecret
  simp only [← PublicKey.ofHex_eq_ok_iff] at he
  rcases he with he | he
  · simp only [hpaired, he, hx]
  · simp only [hpaired, he, j.sharedX_opposite, hx]

/-- A key is read from its texts alone, two holders of private keys get to one `x`, and so two private roots
get to one secret, from any text of the other's public pairing key or of its opposite. The secret is the
`x` of the product of both keys with the base, without leading zeros, and is not empty. -/
theorem pairing_secrets_agree :
    (∀ e p, PublicKey.ofHex e = .ok p ↔ p.SpelledBy e) ∧
    (∀ j k : PrivateKey, ∃ x, j.sharedX k.publicKey = .ok x ∧ k.sharedX j.publicKey = .ok x) ∧
    ∀ A B a b : ExtendedKey, A.isPrivate = true → B.isPrivate = true →
      A.pairingKey = .ok a → B.pairingKey = .ok b →
      ∃ (j k : PrivateKey) (common : PublicKey) (s : Bytes),
        a.privateKey = .ok j ∧ b.privateKey = .ok k ∧
        common.point = (j.scalar * k.scalar) • base ∧ common.x.Minimal s ∧
        ∀ eA eB, a.publicKey.SpelledBy eA ∨ a.publicKey.opposite.SpelledBy eA →
          b.publicKey.SpelledBy eB ∨ b.publicKey.opposite.SpelledBy eB →
          sharedSecret A eB = .ok s ∧ sharedSecret B eA = .ok s := by
  refine ⟨fun e p => PublicKey.ofHex_eq_ok_iff, fun j k => ?_, ?_⟩
  · obtain ⟨x, hx⟩ := j.exists_sharedX k.publicKey
    exact ⟨x, hx, j.sharedX_comm k ▸ hx⟩
  · intro A B a b hA hB ha hb
    obtain ⟨j, hj, hja⟩ := privateKey_of_pairingKey hA ha
    obtain ⟨k, hk, hkb⟩ := privateKey_of_pairingKey hB hb
    obtain ⟨common, hcommon⟩ := j.exists_common k
    have hcommon' : common.point = (k.scalar * j.scalar) • base := by rw [hcommon, mul_comm]
    refine ⟨j, k, common, _, hj, hk, hcommon,
      Coordinate.minimal_dropWhile common.on_curve.x_ne_zero, fun eA eB heA heB => ?_⟩
    rw [hja] at heA
    rw [hkb] at heB
    exact ⟨sharedSecret_eq ha hj heB hcommon, sharedSecret_eq hb hk heA hcommon'⟩

/-- The plain roots of the first two keys share a secret, though one of them is given the opposite of the other's
public pairing key, by both its coordinates. -/
theorem first_secrets_agree :
    let A := firstRoot
    let B := plainRoot ⟨2, by decide⟩
    ∃ a b s, A.pairingKey = .ok a ∧ B.pairingKey = .ok b ∧ 1 ≤ s.length ∧
      sharedSecret A b.publicKey.toHex = .ok s ∧
      sharedSecret B (Hex.encode (4 :: (Bytes.ofNat 32 a.publicKey.opposite.x.val ++
        Bytes.ofNat 32 a.publicKey.opposite.y.val))) = .ok s := by
  intro A B
  obtain ⟨a, ha, -⟩ := firstRoot_pairingKey
  obtain ⟨b, hb, -⟩ := secondRoot_pairingKey
  obtain ⟨-, -, hpair⟩ := pairing_secrets_agree
  obtain ⟨j, k, common, s, -, -, -, hminimal, hs⟩ := hpair A B a b rfl rfl ha hb
  have huncompressed : a.publicKey.opposite.SpelledBy (Hex.encode (4 ::
      (Bytes.ofNat 32 a.publicKey.opposite.x.val ++ Bytes.ofNat 32 a.publicKey.opposite.y.val))) :=
    ⟨_, Hex.decode_eq_ok_iff.mp (Hex.decode_encode _), .uncompressed⟩
  obtain ⟨hmaker, htaker⟩ := hs _ _ (Or.inr huncompressed) (Or.inl b.publicKey.spelledBy_toHex)
  exact ⟨a, b, s, ha, hb, hminimal.length_pos, hmaker, htaker⟩

end Contact

end WalletAuth
