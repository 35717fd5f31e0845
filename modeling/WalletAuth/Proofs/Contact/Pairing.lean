import Mathlib
import WalletAuth.Proofs.Contact.Retyped
import WalletAuth.Proofs.Contact.Secret

/-! Two parties agree on their codes: what is made of the secret that they share and an address is the
same secret for both, and one takes just the codes that the other makes. -/
namespace WalletAuth.Contact
set_option autoImplicit false

/-! ## The secret in common -/

theorem exists_sharedSecret_of_both {A B a b : ExtendedKey} (hA : A.isPrivate = true)
    (hB : B.isPrivate = true) (ha : A.pairingKey = .ok a) (hb : B.pairingKey = .ok b) :
    ∃ shared, sharedSecret A b.publicKey.toHex = .ok shared ∧
      sharedSecret B a.publicKey.toHex = .ok shared := by
  obtain ⟨j, hj, hja⟩ := privateKey_of_pairingKey hA ha
  obtain ⟨k, hk, hkb⟩ := privateKey_of_pairingKey hB hb
  obtain ⟨common, hcommon⟩ := j.exists_common k
  rw [hja, hkb]
  refine ⟨_, sharedSecret_eq ha hj (Or.inl k.publicKey.spelledBy_toHex) hcommon,
    sharedSecret_eq hb hk (Or.inl j.publicKey.spelledBy_toHex) ?_⟩
  rw [hcommon, mul_comm]

/-! ## Codes -/

variable {root : ExtendedKey} {pubKey paymail directing code : String} {shared : Bytes}
  {o : CodeOptions} {time : UInt64}

theorem codeFor_of_sharedSecret (h : sharedSecret root pubKey = .ok shared) :
    codeFor root ⟨pubKey, paymail⟩ o time = codeAt (directedSecret shared paymail) time o := by
  unfold codeFor
  simp only [h, bind, Except.bind]

theorem checkCodeFrom_of_sharedSecret (h : sharedSecret root pubKey = .ok shared) :
    checkCodeFrom root ⟨pubKey, paymail⟩ code directing o time =
      checkCodeAt code (directedSecret shared directing) time o := by
  unfold checkCodeFrom
  simp only [h, bind, Except.bind]

/-- A directed secret can be read, so nothing but the number of digits keeps a code from being made. -/
theorem codeAt_directedSecret :
    codeAt (directedSecret shared paymail) time o =
      if maxDigits < o.effectiveDigits then .error (.digits o.effectiveDigits)
      else .ok (counterCode (shared ++ Utf8.encode paymail) (time / o.effectivePeriod)
        o.effectiveDigits.toNat) :=
  codeAt_of_decodeSecret (decodeSecret_encode _) time o

theorem exists_codeAt_directedSecret (hdigits : o.effectiveDigits ≤ maxDigits) :
    ∃ code, codeAt (directedSecret shared paymail) time o = .ok code :=
  ⟨_, codeAt_directedSecret.trans (if_neg (UInt32.not_lt.mpr hdigits))⟩

/-- One party takes exactly the code that the other one makes in the same period, directed by the same
address, whatever address the taker has for the maker. -/
theorem pairing_codes_agree {A B a b : ExtendedKey} (hA : A.isPrivate = true)
    (hB : B.isPrivate = true) (ha : A.pairingKey = .ok a) (hb : B.pairingKey = .ok b)
    (directing paymail : String) (o : CodeOptions) {t₁ t₂ : UInt64}
    (ht : t₁ / o.effectivePeriod = t₂ / o.effectivePeriod) :
    (∀ code, checkCodeFrom B ⟨a.publicKey.toHex, paymail⟩ code directing o t₂ = .ok true ↔
      codeFor A ⟨b.publicKey.toHex, directing⟩ o t₁ = .ok code) ∧
    (∀ paymail' code, checkCodeFrom B ⟨a.publicKey.toHex, paymail'⟩ code directing o t₂ =
      checkCodeFrom B ⟨a.publicKey.toHex, paymail⟩ code directing o t₂) ∧
    (o.effectiveDigits ≤ maxDigits →
      ∃ code, codeFor A ⟨b.publicKey.toHex, directing⟩ o t₁ = .ok code) := by
  obtain ⟨shared, hmaker, htaker⟩ := exists_sharedSecret_of_both hA hB ha hb
  refine ⟨fun code => ?_, fun paymail' code => ?_, fun hdigits => ?_⟩
  · rw [checkCodeFrom_of_sharedSecret htaker, codeFor_of_sharedSecret hmaker, codeAt_congr ht,
      checkCodeAt_eq_ok_true_iff]
  · rw [checkCodeFrom_of_sharedSecret htaker, checkCodeFrom_of_sharedSecret htaker]
  · rw [codeFor_of_sharedSecret hmaker]
    exact exists_codeAt_directedSecret hdigits

/-- The plain roots of the first two keys agree from the first second of a period to the last one, with the
default period and number of digits, and on no other code than the one that is made. -/
theorem first_pair_agrees :
    let A := ExtendedKey.firstRoot
    let B := ExtendedKey.plainRoot ⟨2, by decide⟩
    let o : CodeOptions := { period := 0, digits := 0 }
    ∃ a b, A.pairingKey = .ok a ∧ B.pairingKey = .ok b ∧
      codeFor A ⟨b.publicKey.toHex, "bob@example.com"⟩ o 30 = .ok "29" ∧
      ∀ paymail,
        checkCodeFrom B ⟨a.publicKey.toHex, paymail⟩ "29" "bob@example.com" o 59 = .ok true ∧
        checkCodeFrom B ⟨a.publicKey.toHex, paymail⟩ "92" "bob@example.com" o 59 ≠ .ok true := by
  intro A B o
  obtain ⟨a, ha, hj⟩ := firstRoot_pairingKey
  obtain ⟨b, hb, hk⟩ := secondRoot_pairingKey
  have hmade : codeFor A ⟨b.publicKey.toHex, "bob@example.com"⟩ o 30 = .ok "29" := by
    let k : PrivateKey :=
      ⟨0x10056e7038db192af93b106f5962c1bc8f5123fed8e44212656105022dfa98a1, by decide⟩
    -- The private key of the common point is the product of both pairing keys.
    let common : PrivateKey :=
      ⟨0x179d83e51a324f0d7f0cdc7a183982ebb7993b089fb5580fcc2a97a35cc0cc5c, by decide⟩
    have hproduct : common.scalar =
        0x7d9629d719b0429d7f6fcc44ee4e6782201d0c07731b052b60ddf90c357ffec3 * k.scalar := by
      decide +kernel
    have hx : common.publicKey.x.val =
        0xefdfde9856456bfcd75b8e3f133e2aecbc410b088f757db22ae4f52c930b844e := by decide +kernel
    have hcommon := common.point_publicKey
    rw [hproduct] at hcommon
    have hsecret := sharedSecret_eq ha hj (Or.inl k.publicKey.spelledBy_toHex) hcommon
    rw [hx, ← ExtendedKey.publicKey_of_privateKey hk] at hsecret
    rw [codeFor_of_sharedSecret hsecret, codeAt_directedSecret]
    decide +kernel
  have hperiod : (30 : UInt64) / o.effectivePeriod = 59 / o.effectivePeriod := by decide
  have hagree := fun paymail =>
    pairing_codes_agree (A := A) (B := B) rfl rfl ha hb "bob@example.com" paymail o hperiod
  refine ⟨a, b, ha, hb, hmade, fun paymail => ⟨((hagree paymail).1 _).mpr hmade, fun hother => ?_⟩⟩
  have hsame := ((hagree paymail).1 _).mp hother
  rw [hmade] at hsame
  exact absurd (Except.ok.inj hsame) (by decide)

end WalletAuth.Contact
