import Mathlib
import WalletAuth.SignedMessage
import WalletAuth.Proofs.Ecdsa.Compact
import WalletAuth.Proofs.Ecdsa.Signing
import WalletAuth.Proofs.Encoding.Base64
import WalletAuth.Proofs.Except

/-! Signed messages. A text leads to one key or has one fault, whatever key it is checked against, and what
a key signs leads to its public half. -/
namespace WalletAuth
open Curve
set_option autoImplicit false

namespace SignedMessage

theorem sign_eq_ok_iff {message : Bytes} {key : PrivateKey} {o : Octets 65} :
    sign message key = .ok o ↔
      ∃ sig, key.sign (digest message) = .ok sig ∧ sig.compact true = o := by
  unfold sign
  simp only [map_eq_ok_iff, mapError_eq_ok_iff]

/-! ## Texts -/

/-- A text that leads to a key: base 64 of a header from 31 to 34, which marks a compressed key and tells
the recovery id, and of two numbers, from which the key is recovered. -/
def LeadsTo (message : Bytes) (text : String) (key : PublicKey) : Prop :=
  ∃ (header : UInt8) (id : Fin 4) (r s : Octets 32), header.toNat = 31 + id.val ∧
    text = Base64.encode (header :: (r.toList ++ s.toList)) ∧
    Signature.recover ⟨r, s, id⟩ (digest message) = .ok key

/-- What is wrong with a text that leads to no key. -/
inductive Unusable (message : Bytes) : String → Error → Prop
  | base64 {text : String} {fault : Base64.Fault} (h : Base64.decode text = .error fault) :
    Unusable message text (.base64 fault)
  | length {l : Bytes} (h : l.length ≠ 65) :
    Unusable message (Base64.encode l) (.key (.signature (.length l.length)))
  | header {header : UInt8} {body : Bytes} (hbody : body.length = 64)
    (h : header < 27 ∨ 34 < header) :
    Unusable message (Base64.encode (header :: body)) (.key (.signature (.header header)))
  | uncompressed (sig : Signature) :
    Unusable message (Base64.encode (sig.compact false).toList) .uncompressedKey
  | noKey {sig : Signature} (h : ∀ key, sig.recover (digest message) ≠ .ok key) :
    Unusable message (Base64.encode (sig.compact true).toList) (.key (.signature .noKey))

theorem leadsTo_iff {message : Bytes} {text : String} {key : PublicKey} :
    LeadsTo message text key ↔ ∃ sig : Signature,
      Base64.encode (sig.compact true).toList = text ∧ sig.recover (digest message) = .ok key := by
  constructor
  · rintro ⟨header, id, r, s, hheader, rfl, hkey⟩
    refine ⟨⟨r, s, id⟩, ?_, hkey⟩
    have hsame : UInt8.ofNat (Signature.headerBase + id.val + 4) = header := by
      apply UInt8.toNat_inj.mp
      rw [hheader, UInt8.toNat_ofNat_of_lt']
      · unfold Signature.headerBase
        omega
      · unfold Signature.headerBase
        show _ < 256
        omega
    simp only [Signature.toList_compact, if_true, hsame]
  · rintro ⟨sig, rfl, hkey⟩
    have hheader := Signature.toNat_header sig.recoveryId true
    rw [if_pos rfl] at hheader
    refine ⟨_, sig.recoveryId, sig.r, sig.s, ?_, congrArg _ (Signature.toList_compact sig true), hkey⟩
    rw [if_pos rfl, hheader]
    unfold Signature.headerBase
    omega

theorem verifyText_encode (message l : Bytes) (key : PublicKey) :
    verifyText message (Base64.encode l) key = (recover message l).map (· == key) := by
  unfold verifyText
  rw [Base64.decode_encode]
  rfl

theorem recover_of_ofCompact_error {message l : Bytes} {e : KeyError}
    (h : Signature.ofCompact l = .error e) : recover message l = .error (.key e) := by
  unfold recover
  rw [h]

theorem recover_compact_false (message : Bytes) (sig : Signature) :
    recover message (sig.compact false).toList = .error .uncompressedKey := by
  unfold recover
  rw [Signature.ofCompact_compact]

theorem recover_compact_true (message : Bytes) (sig : Signature) :
    recover message (sig.compact true).toList = (sig.recover (digest message)).mapError .key := by
  unfold recover
  rw [Signature.ofCompact_compact]
  cases h : sig.recover (digest message) <;> simp only [h] <;> rfl

theorem verifyText_of_leadsTo {message : Bytes} {text : String} {signer : PublicKey}
    (h : LeadsTo message text signer) (key : PublicKey) :
    verifyText message text key = .ok (signer == key) := by
  obtain ⟨sig, rfl, hsigner⟩ := leadsTo_iff.mp h
  rw [verifyText_encode, recover_compact_true, hsigner]
  rfl

theorem verifyText_of_unusable {message : Bytes} {text : String} {e : Error}
    (h : Unusable message text e) (key : PublicKey) : verifyText message text key = .error e := by
  cases h with
  | base64 h =>
    unfold verifyText
    rw [h]
  | length h =>
    rw [verifyText_encode, recover_of_ofCompact_error (Signature.ofCompact_of_length h)]
    rfl
  | header hbody h =>
    rw [verifyText_encode, recover_of_ofCompact_error (Signature.ofCompact_of_header hbody h)]
    rfl
  | uncompressed sig =>
    rw [verifyText_encode, recover_compact_false]
    rfl
  | noKey h =>
    rw [verifyText_encode, recover_compact_true, Signature.recover_eq_noKey h]
    rfl

/-- A text leads to a key, or something is wrong with it. -/
theorem leadsTo_or_unusable (message : Bytes) (text : String) :
    (∃ key, LeadsTo message text key) ∨ ∃ e, Unusable message text e := by
  cases hdecode : Base64.decode text with
  | error fault => exact Or.inr ⟨_, .base64 hdecode⟩
  | ok l =>
    rw [← Base64.decode_eq_ok_iff.mp hdecode]
    by_cases hlength : l.length = 65
    · obtain ⟨header, body, rfl⟩ := List.exists_cons_of_length_eq_add_one hlength
      have hbody : body.length = 64 := by
        rw [List.length_cons] at hlength
        omega
      by_cases hrange : 27 ≤ header ∧ header ≤ 34
      · obtain ⟨sig, compressed, hsig⟩ := Signature.exists_compact hbody hrange.1 hrange.2
        rw [← hsig]
        cases compressed with
        | false => exact Or.inr ⟨_, .uncompressed sig⟩
        | true =>
          by_cases hkey : ∃ key, sig.recover (digest message) = .ok key
          · obtain ⟨key, hkey⟩ := hkey
            exact Or.inl ⟨key, leadsTo_iff.mpr ⟨sig, rfl, hkey⟩⟩
          · exact Or.inr ⟨_, .noKey fun key h => hkey ⟨key, h⟩⟩
      · rw [not_and_or, UInt8.not_le, UInt8.not_le] at hrange
        exact Or.inr ⟨_, .header hbody hrange⟩
    · exact Or.inr ⟨_, .length hlength⟩

theorem verifyText_eq_ok_iff {message : Bytes} {text : String} {key : PublicKey} {b : Bool} :
    verifyText message text key = .ok b ↔ ∃ signer, LeadsTo message text signer ∧ (signer == key) = b := by
  constructor
  · intro h
    rcases leadsTo_or_unusable message text with ⟨signer, hsigner⟩ | ⟨e, he⟩
    · rw [verifyText_of_leadsTo hsigner] at h
      exact ⟨signer, hsigner, Except.ok.inj h⟩
    · rw [verifyText_of_unusable he] at h
      cases h
  · rintro ⟨signer, hsigner, rfl⟩
    exact verifyText_of_leadsTo hsigner key

theorem verifyText_eq_error_iff {message : Bytes} {text : String} {key : PublicKey} {e : Error} :
    verifyText message text key = .error e ↔ Unusable message text e :=
  eq_error_iff_of_or (leadsTo_or_unusable message text)
    (fun ⟨_, hsigner⟩ => ⟨_, verifyText_of_leadsTo hsigner key⟩)
    fun _ h => verifyText_of_unusable h key

/-! ## Signing -/

theorem leadsTo_of_signText {message : Bytes} {key : PrivateKey} {text : String}
    (h : signText message key = .ok text) : LeadsTo message text key.publicKey := by
  obtain ⟨o, ho, rfl⟩ := map_eq_ok_iff.mp h
  obtain ⟨sig, hsig, rfl⟩ := sign_eq_ok_iff.mp ho
  exact leadsTo_iff.mpr ⟨sig, rfl, PrivateKey.recover_of_sign hsig⟩

/-- A text that a key signs with is verified by its public half. -/
theorem verifyText_of_signText {message : Bytes} {key : PrivateKey} {text : String}
    (h : signText message key = .ok text) :
    verifyText message text key.publicKey = .ok true :=
  verifyText_eq_ok_iff.mpr ⟨_, leadsTo_of_signText h, PublicKey.beq_iff_eq.mpr rfl⟩

theorem exists_signText {message : Bytes} {key nonce : PrivateKey} {d : Octets 32}
    (hdigest : digest message = d) (hnonce : Ecdsa.nonce? key d = some nonce)
    (hsign : (key.signWith? nonce d).isSome = true) : ∃ text, signText message key = .ok text := by
  obtain ⟨sig, hsig⟩ := PrivateKey.exists_sign hnonce hsign
  unfold signText sign
  rw [hdigest, hsig]
  exact ⟨_, rfl⟩

end SignedMessage

/-! ## What becomes of a signature -/

namespace PrivateKey

/-- A signature is low, its recovery id tells the nonce point that balances it, it verifies under the public
half of the key that made it and leads back to it, and it passes through the form of 65 octets with either
mark. A message that a key signs is found to be signed by its public half and by no other key. -/
theorem signature_read_back (k : PrivateKey) :
    (∀ (digest : Octets 32) (sig : Signature), k.sign digest = .ok sig →
      sig.s.toNat ≤ groupOrder / 2 ∧
      (∃ (nonce : PublicKey) (r s : PrivateKey), sig.Joins digest nonce k.publicKey r s ∧
        sig.recoveryId.val = (if groupOrder ≤ nonce.x.val then 2 else 0) +
          if nonce.y.isOdd then 1 else 0) ∧
      k.publicKey.verify digest sig = true ∧
      (∀ compressed, Signature.ofCompact (sig.compact compressed).toList = .ok (sig, compressed)) ∧
      sig.recover digest = .ok k.publicKey) ∧
    ∀ (message : Bytes) (text : String), SignedMessage.signText message k = .ok text →
      SignedMessage.verifyText message text k.publicKey = .ok true ∧
      ∀ other, other ≠ k.publicKey → SignedMessage.verifyText message text other = .ok false := by
  constructor
  · intro digest sig hsign
    obtain ⟨nonce, r, s, hjoins, hid⟩ := joins_of_sign hsign
    have htold : sig.recoveryId.val = (if groupOrder ≤ nonce.x.val then 2 else 0) +
        if nonce.y.isOdd then 1 else 0 := by
      rw [hid, Signature.val_idOf]
    exact ⟨hjoins.s_le, ⟨nonce, r, s, hjoins, htold⟩,
      Signature.verify_eq_true_iff.mpr ⟨nonce, r, s, hjoins⟩, Signature.ofCompact_compact sig,
      recover_of_sign hsign⟩
  · intro message text hsign
    refine ⟨SignedMessage.verifyText_of_signText hsign, fun other hother => ?_⟩
    have hleads := SignedMessage.leadsTo_of_signText hsign
    refine SignedMessage.verifyText_eq_ok_iff.mpr ⟨_, hleads, ?_⟩
    rw [Bool.eq_false_iff, ne_eq, PublicKey.beq_iff_eq]
    exact hother.symm

/-- The first key signs the greatest digest, which exceeds the group order, and the empty message, with an
`s` that is turned to its negative. The key with the same `x` did not sign. -/
theorem first_signature_read_back :
    let k : PrivateKey := ⟨1, by decide⟩
    let digest := Octets.replicate 32 0xff
    groupOrder ≤ digest.toNat ∧
    (∃ sig, k.sign digest = .ok sig ∧ sig.s.toNat ≤ groupOrder / 2 ∧
      k.publicKey.verify digest sig = true ∧
      Signature.ofCompact (sig.compact false).toList = .ok (sig, false) ∧
      sig.recover digest = .ok k.publicKey) ∧
    ∃ text, SignedMessage.signText [] k = .ok text ∧
      SignedMessage.verifyText [] text k.publicKey = .ok true ∧
      SignedMessage.verifyText [] text k.publicKey.opposite = .ok false := by
  intro k digest
  have hnonce : Ecdsa.nonce? k digest =
      some ⟨0x1a3bf84f9a0fd1fff4655ba0ec976b542621fd87b88c3ca6770d4183cbc0e741, by decide⟩ :=
    Ecdsa.nonce?_eq_some
      (Octets.ofNat 32 0x2d795663d47dccce2fe606fc37d7e1ce537d21ee4c9c90f4278552650cf6af8f)
      (Octets.ofNat 32 0xf5d52bba758e28010aa1b49bb365726507eb60c22d4e089bea840d3c7ee4a4ea)
      (Octets.ofNat 32 0x1f0b200ef671cc37fdd16ab492e31d47a32fa681be57c4d455f563ff3b3f27ee)
      (Octets.ofNat 32 0x2244bfe4b6ab56d8b179a3e4e2e1db0741f723b09cf8c2d4e5889198f5b14798)
      (by decide +kernel) (by decide +kernel) (by decide +kernel) (by decide +kernel)
      (by decide +kernel)
  have hdigest : SignedMessage.digest [] =
      Octets.ofNat 32 0x80e795d4a4caadd7047af389d9f7f220562feb6196032e2131e10563352c4bcc := by
    decide +kernel
  have hnonce' : Ecdsa.nonce? k
      (Octets.ofNat 32 0x80e795d4a4caadd7047af389d9f7f220562feb6196032e2131e10563352c4bcc) =
      some ⟨0xd7a4218105bc8d6e053304f7573b7251704fe35ad7ff3d302c77f6614f5a2635, by decide⟩ :=
    Ecdsa.nonce?_eq_some
      (Octets.ofNat 32 0x30c3f60c31bf02216b82d36ea14fe3c2ad0ac91e5ea2c5f6a30fda70b164facc)
      (Octets.ofNat 32 0xe46158060b837572b0003bd4dfba6d78eb4b8e17dac2934be6cdc7a1257506fb)
      (Octets.ofNat 32 0x4000fbac433b6f30d483dd7096164febf1400ff4d25381646e7ffa8e263e398c)
      (Octets.ofNat 32 0xebce540337d3d80c1f3a408dc8d45eb50300c017abfe303efff71894e880c2b3)
      (by decide +kernel) (by decide +kernel) (by decide +kernel) (by decide +kernel)
      (by decide +kernel)
  obtain ⟨sig, hsig⟩ := exists_sign hnonce (by decide +kernel)
  obtain ⟨text, htext⟩ := SignedMessage.exists_signText hdigest hnonce' (by decide +kernel)
  have hback := (signature_read_back k).1 digest sig hsig
  have hmessage := (signature_read_back k).2 [] text htext
  exact ⟨by decide +kernel, ⟨sig, hsig, hback.1, hback.2.2.1, hback.2.2.2.1 false, hback.2.2.2.2⟩,
    text, htext, hmessage.1, hmessage.2 _ (PublicKey.opposite_ne _)⟩

end PrivateKey

end WalletAuth
