import Mathlib
import WalletAuth.Auth.Payload
import WalletAuth.Proofs.HdKey.Neuter
import WalletAuth.Proofs.SignedMessage

/-! What a check of a payload comes to. The checks are made one behind the other, so a payload is refused
for the first one that it fails, and whatever a payload holds, one verdict and no other is passed on
it. -/
namespace WalletAuth.Auth
set_option autoImplicit false

/-! ## The expected signer -/

/-- The key that an identity stands for under a nonce, or what is wrong with the two. An extended key stands
for the public child down a path without hardened indices, an access key for itself. -/
inductive Identity.StandsFor (nonce : String) : Identity → Except Error PublicKey → Prop
  | child {text : String} {root child : ExtendedKey} {path : List UInt32}
    (hroot : ExtendedKey.read text = .ok root) (hpath : Path.ofText nonce = .ok path)
    (hsoft : ∀ i ∈ path, i < hardenedStart) (hchild : root.neuter.descend path = .ok child) :
    StandsFor nonce (.xpub text) (.ok child.publicKey)
  | noRoot {text : String} {e : KeyError} (hroot : ExtendedKey.read text = .error e) :
    StandsFor nonce (.xpub text) (.error (.keyParse e))
  | noPath {text : String} {root : ExtendedKey} {e : KeyError}
    (hroot : ExtendedKey.read text = .ok root) (hpath : Path.ofText nonce = .error e) :
    StandsFor nonce (.xpub text) (.error (.derivation e))
  | noChild {text : String} {root : ExtendedKey} {path : List UInt32} {e : KeyError}
    (hroot : ExtendedKey.read text = .ok root) (hpath : Path.ofText nonce = .ok path)
    (hchild : root.neuter.descend path = .error e) :
    StandsFor nonce (.xpub text) (.error (.derivation e))
  | key {text : String} {key : PublicKey} (hkey : PublicKey.ofHex text = .ok key) :
    StandsFor nonce (.accessKey text) (.ok key)
  | noKey {text : String} {e : KeyError} (hkey : PublicKey.ofHex text = .error e) :
    StandsFor nonce (.accessKey text) (.error (.keyParse e))

namespace Payload

variable {p : Payload} {body : Bytes} {now maxSkew : Int64}

theorem standsFor_expectedSigner (p : Payload) : p.identity.StandsFor p.nonce p.expectedSigner := by
  unfold expectedSigner
  cases p.identity with
  | xpub text =>
    cases hroot : ExtendedKey.read text with
    | error e =>
      simp only [hroot]
      exact .noRoot hroot
    | ok root =>
      cases hpath : Path.ofText p.nonce with
      | error e =>
        simp only [hroot, ExtendedKey.descendText_of_error hpath]
        exact .noPath hroot hpath
      | ok path =>
        cases hchild : root.neuter.descend path with
        | error e =>
          simp only [hroot, ExtendedKey.descendText_of_ofText hpath, hchild]
          exact .noChild hroot hpath hchild
        | ok child =>
          simp only [hroot, ExtendedKey.descendText_of_ofText hpath, hchild]
          exact .child hroot hpath (Path.lt_of_ofText hpath) hchild
  | accessKey text =>
    cases hkey : PublicKey.ofHex text with
    | error e =>
      simp only [hkey]
      exact .noKey hkey
    | ok key =>
      simp only [hkey]
      exact .key hkey

/-- Under a nonce an identity stands for one thing only. -/
theorem expectedSigner_eq_iff {r : Except Error PublicKey} :
    p.expectedSigner = r ↔ p.identity.StandsFor p.nonce r := by
  constructor
  · rintro rfl
    exact p.standsFor_expectedSigner
  · intro h
    unfold expectedSigner
    generalize p.identity = identity at h
    cases h with
    | child hroot hpath _ hchild =>
      simp only [hroot, ExtendedKey.descendText_of_ofText hpath, hchild]
    | noRoot hroot => simp only [hroot]
    | noPath hroot hpath => simp only [hroot, ExtendedKey.descendText_of_error hpath]
    | noChild hroot hpath hchild =>
      simp only [hroot, ExtendedKey.descendText_of_ofText hpath, hchild]
    | key hkey => simp only [hkey]
    | noKey hkey => simp only [hkey]

/-! ## The clock -/

/-- Distances are compared as integers, from one end of the clock to the other. -/
theorem tooFarApart_eq_true_iff {time : Int64} :
    tooFarApart time now maxSkew = true ↔ |maxSkew.toInt| < |time.toInt - now.toInt| := by
  rw [Int.abs_eq_natAbs, Int.abs_eq_natAbs]
  unfold tooFarApart
  rw [decide_eq_true_iff]
  omega

/-- The ends of the clock lie further apart than any tolerance. -/
example : tooFarApart Int64.minValue Int64.maxValue Int64.minValue = true := by decide

theorem tooFarApart_eq_false_iff {time : Int64} :
    tooFarApart time now maxSkew = false ↔ |time.toInt - now.toInt| ≤ |maxSkew.toInt| := by
  rw [← Bool.not_eq_true, tooFarApart_eq_true_iff, not_lt]

/-! ## The verdict -/

/-- What is checked before the keys: the hash of the body and the distance of the times. -/
structure Fresh (p : Payload) (body : Bytes) (now maxSkew : Int64) : Prop where
  hash : p.bodyHash = Hex.encode (Hash.sha256 body).toList
  time : |p.time.toInt - now.toInt| ≤ |maxSkew.toInt|

/-- The verdict on a payload. Each refusal says what has passed before it and what fails. -/
inductive Verdict (p : Payload) (body : Bytes) (now maxSkew : Int64) : Except Error Unit → Prop
  | accepted {key : PublicKey} (hfresh : p.Fresh body now maxSkew)
    (hkey : p.identity.StandsFor p.nonce (.ok key))
    (hsignature : SignedMessage.LeadsTo p.signedOctets p.signature key) :
    Verdict p body now maxSkew (.ok ())
  | otherBody (hhash : p.bodyHash ≠ Hex.encode (Hash.sha256 body).toList) :
    Verdict p body now maxSkew (.error .bodyHashMismatch)
  | otherTime (hhash : p.bodyHash = Hex.encode (Hash.sha256 body).toList)
    (htime : |maxSkew.toInt| < |p.time.toInt - now.toInt|) :
    Verdict p body now maxSkew (.error (.timeSkew p.time now maxSkew))
  | noSigner {e : Error} (hfresh : p.Fresh body now maxSkew)
    (hkey : p.identity.StandsFor p.nonce (.error e)) : Verdict p body now maxSkew (.error e)
  | noSignature {key : PublicKey} {e : SignedMessage.Error} (hfresh : p.Fresh body now maxSkew)
    (hkey : p.identity.StandsFor p.nonce (.ok key))
    (hsignature : SignedMessage.Unusable p.signedOctets p.signature e) :
    Verdict p body now maxSkew (.error (.signing e))
  | otherSigner {key other : PublicKey} (hfresh : p.Fresh body now maxSkew)
    (hkey : p.identity.StandsFor p.nonce (.ok key))
    (hsignature : SignedMessage.LeadsTo p.signedOctets p.signature other) (hother : other ≠ key) :
    Verdict p body now maxSkew (.error .signatureMismatch)

/-- A fresh payload is checked against the expected signer. -/
theorem Fresh.verify_eq (h : p.Fresh body now maxSkew) :
    p.verify body now maxSkew = p.expectedSigner.bind fun key =>
      match SignedMessage.verifyText p.signedOctets p.signature key with
      | .error e => .error (.signing e)
      | .ok true => .ok ()
      | .ok false => .error .signatureMismatch := by
  have hhash : hashBody body = p.bodyHash := h.hash.symm
  unfold verify
  rw [if_neg (not_not_intro hhash), tooFarApart_eq_false_iff.mpr h.time, if_neg Bool.false_ne_true]
  cases p.expectedSigner <;> rfl

theorem verify_of_verdict {r : Except Error Unit} (h : p.Verdict body now maxSkew r) :
    p.verify body now maxSkew = r := by
  cases h with
  | accepted hfresh hkey hsignature =>
    have hverify := SignedMessage.verifyText_eq_ok_iff.mpr
      ⟨_, hsignature, PublicKey.beq_iff_eq.mpr rfl⟩
    rw [hfresh.verify_eq, expectedSigner_eq_iff.mpr hkey]
    simp only [Except.bind, hverify]
  | otherBody hhash =>
    have hother : hashBody body ≠ p.bodyHash := Ne.symm hhash
    unfold verify
    rw [if_pos hother]
  | otherTime hhash htime =>
    have hsame : hashBody body = p.bodyHash := hhash.symm
    unfold verify
    rw [if_neg (not_not_intro hsame), tooFarApart_eq_true_iff.mpr htime, if_pos rfl]
  | noSigner hfresh hkey =>
    rw [hfresh.verify_eq, expectedSigner_eq_iff.mpr hkey]
    rfl
  | noSignature hfresh hkey hsignature =>
    rw [hfresh.verify_eq, expectedSigner_eq_iff.mpr hkey]
    simp only [Except.bind, SignedMessage.verifyText_eq_error_iff.mpr hsignature]
  | otherSigner hfresh hkey hsignature hother =>
    have hdiffer := Bool.eq_false_iff.mpr (mt PublicKey.beq_iff_eq.mp hother)
    have hverify := SignedMessage.verifyText_eq_ok_iff.mpr ⟨_, hsignature, hdiffer⟩
    rw [hfresh.verify_eq, expectedSigner_eq_iff.mpr hkey]
    simp only [Except.bind, hverify]

theorem exists_verdict (p : Payload) (body : Bytes) (now maxSkew : Int64) :
    ∃ r, p.Verdict body now maxSkew r := by
  by_cases hhash : p.bodyHash = Hex.encode (Hash.sha256 body).toList
  · rcases le_or_gt |p.time.toInt - now.toInt| |maxSkew.toInt| with htime | htime
    · have hfresh : p.Fresh body now maxSkew := ⟨hhash, htime⟩
      have hexpected := p.standsFor_expectedSigner
      cases hkey : p.expectedSigner with
      | error e =>
        rw [hkey] at hexpected
        exact ⟨_, .noSigner hfresh hexpected⟩
      | ok key =>
        rw [hkey] at hexpected
        rcases SignedMessage.leadsTo_or_unusable p.signedOctets p.signature with
          ⟨signer, hsigner⟩ | ⟨e, he⟩
        · by_cases hsame : signer = key
          · exact ⟨_, .accepted hfresh hexpected (hsame ▸ hsigner)⟩
          · exact ⟨_, .otherSigner hfresh hexpected hsigner hsame⟩
        · exact ⟨_, .noSignature hfresh hexpected he⟩
    · exact ⟨_, .otherTime hhash htime⟩
  · exact ⟨_, .otherBody hhash⟩

theorem verify_eq_iff {r : Except Error Unit} :
    p.verify body now maxSkew = r ↔ p.Verdict body now maxSkew r := by
  constructor
  · rintro rfl
    obtain ⟨r, hr⟩ := p.exists_verdict body now maxSkew
    rw [verify_of_verdict hr]
    exact hr
  · exact verify_of_verdict

theorem verify_eq_ok_iff : p.verify body now maxSkew = .ok () ↔
    p.Fresh body now maxSkew ∧ ∃ key, p.identity.StandsFor p.nonce (.ok key) ∧
      SignedMessage.LeadsTo p.signedOctets p.signature key := by
  rw [verify_eq_iff]
  constructor
  · rintro (⟨hfresh, hkey, hsignature⟩)
    exact ⟨hfresh, _, hkey, hsignature⟩
  · rintro ⟨hfresh, key, hkey, hsignature⟩
    exact .accepted hfresh hkey hsignature

/-- A payload is accepted exactly if it has the hash of the body, was made close enough to the clock, and its
signature leads to the key that the identity stands for. Any other payload is refused for the first of
these that it lacks. -/
theorem verified_exactly (p : Payload) (body : Bytes) (now maxSkew : Int64) :
    (p.verify body now maxSkew = .ok () ↔
      p.bodyHash = Hex.encode (Hash.sha256 body).toList ∧
      |p.time.toInt - now.toInt| ≤ |maxSkew.toInt| ∧
      ∃ key, p.identity.StandsFor p.nonce (.ok key) ∧
        SignedMessage.LeadsTo p.signedOctets p.signature key) ∧
    ∀ r, p.verify body now maxSkew = r ↔ p.Verdict body now maxSkew r := by
  refine ⟨?_, fun r => verify_eq_iff⟩
  rw [verify_eq_ok_iff]
  constructor
  · rintro ⟨hfresh, hsigner⟩
    exact ⟨hfresh.hash, hfresh.time, hsigner⟩
  · rintro ⟨hhash, htime, hsigner⟩
    exact ⟨⟨hhash, htime⟩, hsigner⟩

end Payload

end WalletAuth.Auth
