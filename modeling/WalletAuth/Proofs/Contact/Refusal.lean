import Mathlib
import WalletAuth.Proofs.Contact.Pairing

/-! Why a code is neither made nor checked. The pairing key has to be derived and to be private, and the key of
the contact has to be read; a root and a contact with which this goes well always share a secret, and the
secret made of it can always be read, so that nothing but too many digits is left to fail. -/
namespace WalletAuth.Contact
set_option autoImplicit false

/-- A root and the text of a contact's key which lead to a secret. -/
structure Ready (root : ExtendedKey) (pubKey : String) : Prop where
  derives : ∃ paired, root.pairingKey = .ok paired
  isPrivate : root.isPrivate = true
  readable : ∃ other, PublicKey.ofHex pubKey = .ok other

/-- Why a root and the text of a contact's key lead to no secret. Each cause is looked for only where those
before it have been ruled out. -/
inductive Refusal (root : ExtendedKey) (pubKey : String) : Error → Prop
  | underived {e : KeyError} (hpaired : root.pairingKey = .error e) :
      Refusal root pubKey (.derivation e)
  | published {paired : ExtendedKey} (hpaired : root.pairingKey = .ok paired)
      (hroot : root.isPrivate = false) : Refusal root pubKey (.derivation .notPrivate)
  | unreadable {paired : ExtendedKey} {e : KeyError} (hpaired : root.pairingKey = .ok paired)
      (hroot : root.isPrivate = true) (hkey : PublicKey.ofHex pubKey = .error e) :
      Refusal root pubKey (.contactKey e)

variable {root : ExtendedKey} {pubKey paymail code directing : String} {contact : Contact}
  {shared : Bytes} {e : Error} {o : CodeOptions} {time : UInt64}

/-! ## The secret -/

theorem ready_or_refusal (root : ExtendedKey) (pubKey : String) :
    Ready root pubKey ∨ ∃ e, Refusal root pubKey e := by
  cases hpaired : root.pairingKey with
  | error e => exact Or.inr ⟨_, .underived hpaired⟩
  | ok paired =>
    cases hroot : root.isPrivate with
    | false => exact Or.inr ⟨_, .published hpaired hroot⟩
    | true =>
      cases hkey : PublicKey.ofHex pubKey with
      | error e => exact Or.inr ⟨_, .unreadable hpaired hroot hkey⟩
      | ok other => exact Or.inl ⟨⟨paired, hpaired⟩, hroot, other, hkey⟩

theorem exists_sharedSecret_of_ready (h : Ready root pubKey) :
    ∃ shared, sharedSecret root pubKey = .ok shared := by
  obtain ⟨⟨paired, hpaired⟩, hroot, other, hother⟩ := h
  obtain ⟨key, hkey, -⟩ := privateKey_of_pairingKey hroot hpaired
  obtain ⟨x, hx⟩ := key.exists_sharedX other
  have hlocal : pairingPrivateKey root = .ok key := bind_eq_ok_iff.mpr ⟨paired, hpaired, hkey⟩
  refine ⟨x.toList.dropWhile (· == 0), ?_⟩
  unfold sharedSecret
  simp only [hlocal, hother, hx]

theorem sharedSecret_of_refusal (h : Refusal root pubKey e) : sharedSecret root pubKey = .error e := by
  unfold sharedSecret
  cases h with
  | underived hpaired =>
    have hlocal := bind_eq_error_iff (f := ExtendedKey.privateKey).mpr (Or.inl hpaired)
    simp only [pairingPrivateKey, hlocal]
  | published hpaired hroot =>
    rw [← isPrivate_of_pairingKey hpaired] at hroot
    have hlocal : pairingPrivateKey root = .error .notPrivate :=
      bind_eq_error_iff.mpr (Or.inr ⟨_, hpaired, ExtendedKey.privateKey_of_published hroot⟩)
    simp only [hlocal]
  | unreadable hpaired hroot hkey =>
    obtain ⟨key, hprivate, -⟩ := privateKey_of_pairingKey hroot hpaired
    have hlocal : pairingPrivateKey root = .ok key := bind_eq_ok_iff.mpr ⟨_, hpaired, hprivate⟩
    simp only [hlocal, hkey]

theorem sharedSecret_eq_error_iff : sharedSecret root pubKey = .error e ↔ Refusal root pubKey e :=
  eq_error_iff_of_or (ready_or_refusal root pubKey) exists_sharedSecret_of_ready
    fun _ => sharedSecret_of_refusal

theorem exists_sharedSecret_iff : (∃ shared, sharedSecret root pubKey = .ok shared) ↔ Ready root pubKey :=
  exists_ok_iff_of_or (ready_or_refusal root pubKey) exists_sharedSecret_of_ready
    fun _ => sharedSecret_of_refusal

/-! ## The code -/

theorem codeAt_directedSecret_eq_error_iff :
    codeAt (directedSecret shared paymail) time o = .error e ↔
      maxDigits < o.effectiveDigits ∧ e = .digits o.effectiveDigits := by
  rw [codeAt_directedSecret]
  by_cases hdigits : maxDigits < o.effectiveDigits
  · simp [hdigits, eq_comm]
  · simp [hdigits]

theorem checkCodeAt_directedSecret_eq_error_iff :
    checkCodeAt code (directedSecret shared directing) time o = .error e ↔
      (Utf8.encode code).length = o.effectiveDigits.toNat ∧
        maxDigits < o.effectiveDigits ∧ e = .digits o.effectiveDigits := by
  rw [checkCodeAt_eq_error_iff, codeAt_directedSecret_eq_error_iff]

theorem codeFor_eq_error_iff :
    codeFor root contact o time = .error e ↔ Refusal root contact.pubKey e ∨
      Ready root contact.pubKey ∧ maxDigits < o.effectiveDigits ∧ e = .digits o.effectiveDigits := by
  unfold codeFor
  rw [bind_eq_error_iff, sharedSecret_eq_error_iff, ← exists_sharedSecret_iff]
  simp only [codeAt_directedSecret_eq_error_iff, exists_and_right]

theorem checkCodeFrom_eq_error_iff :
    checkCodeFrom root contact code directing o time = .error e ↔ Refusal root contact.pubKey e ∨
      Ready root contact.pubKey ∧ (Utf8.encode code).length = o.effectiveDigits.toNat ∧
        maxDigits < o.effectiveDigits ∧ e = .digits o.effectiveDigits := by
  unfold checkCodeFrom
  rw [bind_eq_error_iff, sharedSecret_eq_error_iff, ← exists_sharedSecret_iff]
  simp only [checkCodeAt_directedSecret_eq_error_iff, exists_and_right]

theorem checkCodeFrom_of_length (h : Ready root contact.pubKey)
    (hlength : (Utf8.encode code).length ≠ o.effectiveDigits.toNat) :
    checkCodeFrom root contact code directing o time = .ok false := by
  obtain ⟨shared, hshared⟩ := exists_sharedSecret_of_ready h
  rw [checkCodeFrom_of_sharedSecret hshared, checkCodeAt_of_length hlength]

/-- A root and a contact that are ready are not refused. -/
theorem Refusal.not_ready (h : Refusal root pubKey e) : ¬Ready root pubKey := by
  intro hready
  obtain ⟨shared, hshared⟩ := exists_sharedSecret_of_ready hready
  rw [sharedSecret_of_refusal h] at hshared
  cases hshared

/-- What is refused for no other cause than those of the secret and one more succeeds where there is
neither. -/
theorem exists_ok_iff_of_refusal {α : Type} {x : Except Error α} {fault : Prop} {last : Error}
    (h : ∀ e, x = .error e ↔ Refusal root pubKey e ∨ Ready root pubKey ∧ fault ∧ e = last) :
    (∃ a, x = .ok a) ↔ Ready root pubKey ∧ ¬fault := by
  rw [exists_ok_iff]
  constructor
  · intro hok
    rcases ready_or_refusal root pubKey with hready | ⟨e, hrefusal⟩
    · exact ⟨hready, fun hfault => hok last ((h last).mpr (Or.inr ⟨hready, hfault, rfl⟩))⟩
    · exact absurd ((h e).mpr (Or.inl hrefusal)) (hok e)
  · rintro ⟨hready, hfault⟩ e he
    rcases (h e).mp he with hrefusal | ⟨-, hcause, -⟩
    · exact hrefusal.not_ready hready
    · exact hfault hcause

theorem exists_codeFor_iff :
    (∃ made, codeFor root contact o time = .ok made) ↔
      Ready root contact.pubKey ∧ o.effectiveDigits ≤ maxDigits := by
  rw [exists_ok_iff_of_refusal fun e => codeFor_eq_error_iff, UInt32.not_lt]

theorem exists_checkCodeFrom_iff :
    (∃ taken, checkCodeFrom root contact code directing o time = .ok taken) ↔
      Ready root contact.pubKey ∧
        ((Utf8.encode code).length = o.effectiveDigits.toNat → o.effectiveDigits ≤ maxDigits) := by
  have hcauses : ∀ e, checkCodeFrom root contact code directing o time = .error e ↔
      Refusal root contact.pubKey e ∨ Ready root contact.pubKey ∧
        ((Utf8.encode code).length = o.effectiveDigits.toNat ∧ maxDigits < o.effectiveDigits) ∧
          e = .digits o.effectiveDigits := by
    intro e
    rw [checkCodeFrom_eq_error_iff, and_assoc]
  rw [exists_ok_iff_of_refusal hcauses, not_and, UInt32.not_lt]

/-- The causes for which a code is not made or not checked, in the order in which they are met. A secret is
never refused, and a code of the wrong length is turned down before the number of digits is looked at. -/
theorem contact_codes_refused_iff (root : ExtendedKey) (contact : Contact) (code directing : String)
    (o : CodeOptions) (time : UInt64) :
    let made := codeFor root contact o time
    let checked := checkCodeFrom root contact code directing o time
    let fits := (Utf8.encode code).length = o.effectiveDigits.toNat
    (∀ e, made = .error e ↔ Refusal root contact.pubKey e ∨
      Ready root contact.pubKey ∧ maxDigits < o.effectiveDigits ∧ e = .digits o.effectiveDigits) ∧
    ((∃ text, made = .ok text) ↔ Ready root contact.pubKey ∧ o.effectiveDigits ≤ maxDigits) ∧
    (∀ e, checked = .error e ↔ Refusal root contact.pubKey e ∨
      Ready root contact.pubKey ∧ fits ∧ maxDigits < o.effectiveDigits ∧
        e = .digits o.effectiveDigits) ∧
    (Ready root contact.pubKey → ¬fits → checked = .ok false) ∧
    ((∃ taken, checked = .ok taken) ↔
      Ready root contact.pubKey ∧ (fits → o.effectiveDigits ≤ maxDigits)) ∧
    (∀ fault, made ≠ .error (.secret fault) ∧ checked ≠ .error (.secret fault)) ∧
    ∀ (key : PrivateKey) (other : PublicKey), ∃ x, key.sharedX other = .ok x := by
  intro made checked fits
  refine ⟨fun e => codeFor_eq_error_iff, exists_codeFor_iff, fun e => checkCodeFrom_eq_error_iff,
    checkCodeFrom_of_length, exists_checkCodeFrom_iff, fun fault => ⟨?_, ?_⟩, PrivateKey.exists_sharedX⟩
  · intro h
    rcases codeFor_eq_error_iff.mp h with hrefusal | ⟨-, -, hlast⟩
    · cases hrefusal
    · cases hlast
  · intro h
    rcases checkCodeFrom_eq_error_iff.mp h with hrefusal | ⟨-, -, -, hlast⟩
    · cases hrefusal
    · cases hlast

/-- Of eleven digits no code is made, and one is checked only as far as its length. -/
theorem eleven_digits_refused :
    let A := ExtendedKey.firstRoot
    let contact : Contact := ⟨PublicKey.generator.toHex, "bob@example.com"⟩
    let o : CodeOptions := { period := 30, digits := 11 }
    codeFor A contact o 0 = .error (.digits 11) ∧
      checkCodeFrom A contact "00000000000" "alice@example.com" o 0 = .error (.digits 11) ∧
      checkCodeFrom A contact "00" "alice@example.com" o 0 = .ok false := by
  intro A contact o
  obtain ⟨a, ha, -⟩ := firstRoot_pairingKey
  have hready : Ready A contact.pubKey := ⟨⟨a, ha⟩, rfl, _, PublicKey.generator.ofHex_toHex⟩
  obtain ⟨hmade, -, hchecked, -⟩ :=
    contact_codes_refused_iff A contact "00000000000" "alice@example.com" o 0
  obtain ⟨-, -, -, hshort, -⟩ := contact_codes_refused_iff A contact "00" "alice@example.com" o 0
  exact ⟨(hmade _).mpr (Or.inr ⟨hready, by decide, rfl⟩),
    (hchecked _).mpr (Or.inr ⟨hready, by decide, by decide, rfl⟩), hshort hready (by decide)⟩

end WalletAuth.Contact
