import Mathlib
import WalletAuth.Contact.Code
import WalletAuth.Proofs.Except
import WalletAuth.Proofs.Text.Numeral

/-! Codes are checked by making them. A code has as many octets as digits, so that none is refused for its
length, and nothing but the key of the secret and the count of periods has a say in what it is. -/
namespace WalletAuth.Contact
set_option autoImplicit false

variable {code secret secret' : String} {time time' : UInt64} {o : CodeOptions} {e : Error}

/-! ## Making -/

theorem length_utf8_counterCode (key : Bytes) (count : UInt64) (digits : ℕ) :
    (Utf8.encode (counterCode key count digits)).length = digits :=
  Numeral.length_utf8_padded digits _

/-- Of a secret that can be read, nothing but the number of digits keeps a code from being made. -/
theorem codeAt_of_decodeSecret {key : Bytes} (h : decodeSecret secret = .ok key) (time : UInt64)
    (o : CodeOptions) : codeAt secret time o =
      if maxDigits < o.effectiveDigits then .error (.digits o.effectiveDigits)
      else .ok (counterCode key (time / o.effectivePeriod) o.effectiveDigits.toNat) := by
  unfold codeAt
  rw [h]
  split <;> rfl

theorem codeAt_of_decodeSecret_error (h : decodeSecret secret = .error e) (time : UInt64)
    (o : CodeOptions) : codeAt secret time o = .error e := by
  unfold codeAt
  rw [h]
  rfl

theorem codeAt_eq_ok_iff :
    codeAt secret time o = .ok code ↔ o.effectiveDigits ≤ maxDigits ∧ ∃ key,
      decodeSecret secret = .ok key ∧
      counterCode key (time / o.effectivePeriod) o.effectiveDigits.toNat = code := by
  cases hkey : decodeSecret secret with
  | error e =>
    rw [codeAt_of_decodeSecret_error hkey]
    simp only [reduceCtorEq, false_and, exists_false, and_false]
  | ok key =>
    rw [codeAt_of_decodeSecret hkey]
    by_cases hdigits : maxDigits < o.effectiveDigits
    · simp [hdigits]
    · simp [hdigits, UInt32.not_lt.mp hdigits]

theorem length_of_codeAt (h : codeAt secret time o = .ok code) :
    (Utf8.encode code).length = o.effectiveDigits.toNat := by
  obtain ⟨-, key, -, rfl⟩ := codeAt_eq_ok_iff.mp h
  exact length_utf8_counterCode _ _ _

/-- The code stays the same all through a period. -/
theorem codeAt_congr (h : time / o.effectivePeriod = time' / o.effectivePeriod) :
    codeAt secret time o = codeAt secret time' o := by
  unfold codeAt
  rw [h]

theorem codeAt_congr_secret (h : decodeSecret secret = decodeSecret secret') :
    codeAt secret time o = codeAt secret' time o := by
  unfold codeAt
  rw [h]

/-! ## Checking -/

theorem checkCodeAt_of_length (h : (Utf8.encode code).length ≠ o.effectiveDigits.toNat)
    (secret : String) : checkCodeAt code secret time o = .ok false :=
  if_pos h

theorem checkCodeAt_congr (h : codeAt secret time o = codeAt secret' time' o) :
    checkCodeAt code secret time o = checkCodeAt code secret' time' o := by
  unfold checkCodeAt
  rw [h]

theorem checkCodeAt_eq_ok_true_iff :
    checkCodeAt code secret time o = .ok true ↔ codeAt secret time o = .ok code := by
  unfold checkCodeAt
  by_cases hlength : (Utf8.encode code).length = o.effectiveDigits.toNat
  · rw [if_neg (not_not_intro hlength), map_eq_ok_iff]
    constructor
    · rintro ⟨made, hmade, hsame⟩
      rw [hmade, eq_of_beq hsame]
    · intro hmade
      exact ⟨code, hmade, beq_self_eq_true code⟩
  · rw [if_pos hlength]
    constructor
    · intro h
      cases h
    · intro hmade
      exact absurd (length_of_codeAt hmade) hlength

theorem checkCodeAt_eq_error_iff :
    checkCodeAt code secret time o = .error e ↔
      (Utf8.encode code).length = o.effectiveDigits.toNat ∧ codeAt secret time o = .error e := by
  by_cases hlength : (Utf8.encode code).length = o.effectiveDigits.toNat
  · unfold checkCodeAt
    rw [if_neg (not_not_intro hlength), map_eq_error_iff]
    simp only [hlength, true_and]
  · rw [checkCodeAt_of_length hlength]
    simp only [hlength, false_and, reduceCtorEq]

/-- What is neither taken nor fails is turned down. -/
theorem checkCodeAt_eq_ok_false_iff :
    checkCodeAt code secret time o = .ok false ↔ codeAt secret time o ≠ .ok code ∧
      ∀ e, ¬((Utf8.encode code).length = o.effectiveDigits.toNat ∧ codeAt secret time o = .error e) := by
  rw [ne_eq, ← checkCodeAt_eq_ok_true_iff]
  simp only [← checkCodeAt_eq_error_iff]
  cases checkCodeAt code secret time o with
  | error e => simp
  | ok taken => cases taken <;> simp

/-- A code is taken at a time exactly if it is the one made at that time. The check fails only where a code of
as many octets as digits cannot be made, as making it does, and all else is turned down. Neither making nor
checking tells apart two times of one period. -/
theorem checked_by_making (code secret : String) (time : UInt64) (o : CodeOptions) :
    let made := codeAt secret time o
    let checked := checkCodeAt code secret time o
    let fits := (Utf8.encode code).length = o.effectiveDigits.toNat
    (checked = .ok true ↔ made = .ok code) ∧
    (∀ e, checked = .error e ↔ fits ∧ made = .error e) ∧
    (checked = .ok false ↔ made ≠ .ok code ∧ ∀ e, ¬(fits ∧ made = .error e)) ∧
    ∀ time', time' / o.effectivePeriod = time / o.effectivePeriod →
      codeAt secret time' o = made ∧ checkCodeAt code secret time' o = checked := by
  intro made checked fits
  refine ⟨checkCodeAt_eq_ok_true_iff, fun e => checkCodeAt_eq_error_iff, checkCodeAt_eq_ok_false_iff, ?_⟩
  intro time' htime
  have hmade : codeAt secret time' o = made := codeAt_congr htime
  exact ⟨hmade, checkCodeAt_congr hmade⟩

/-- Codes of two digits, the default, for the secret `12345678901234567890`: what is made in the last second of
a period is taken in its first and not after it. Three digits are turned down even where the secret cannot be
read, and two are not. -/
theorem checked_through_a_period :
    let secret := "GEZDGNBVGY3TQOJQGEZDGNBVGY3TQOJQ"
    let o : CodeOptions := { period := 0, digits := 0 }
    codeAt secret 59 o = .ok "82" ∧ checkCodeAt "82" secret 59 o = .ok true ∧
      checkCodeAt "82" secret 30 o = .ok true ∧ checkCodeAt "82" secret 60 o = .ok false ∧
      checkCodeAt "82" "!!" 59 o = .error (.secret (.badSymbol 0)) ∧
      checkCodeAt "082" "!!" 59 o = .ok false := by
  intro secret o
  have hmade : codeAt secret 59 o = .ok "82" := by decide +kernel
  have hlater : codeAt secret 60 o = .ok "52" := by decide +kernel
  have hunread : codeAt "!!" 59 o = .error (.secret (.badSymbol 0)) := by decide +kernel
  obtain ⟨htaken, -, -, hperiod⟩ := checked_by_making "82" secret 59 o
  obtain ⟨-, -, hturned, -⟩ := checked_by_making "82" secret 60 o
  obtain ⟨-, hfails, -, -⟩ := checked_by_making "82" "!!" 59 o
  obtain ⟨-, -, hlong, -⟩ := checked_by_making "082" "!!" 59 o
  have hnow := htaken.mpr hmade
  refine ⟨hmade, hnow, (hperiod 30 (by decide)).2.trans hnow, hturned.mpr ?_,
    (hfails _).mpr ⟨by decide, hunread⟩, hlong.mpr ?_⟩
  · rw [hlater]
    exact ⟨by decide, fun e h => nomatch h.2⟩
  · rw [hunread]
    exact ⟨nofun, fun e h => absurd h.1 (by decide)⟩

end WalletAuth.Contact
