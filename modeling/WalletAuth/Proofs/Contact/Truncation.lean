import Mathlib
import WalletAuth.Proofs.Contact.Code
import WalletAuth.Proofs.Number.Octets

/-! What a code is. The periods that have passed are counted in eight octets, and the tag of the count points out a
number of 31 bits, of which the code is the last decimal figures. Every octet on the way is one that the tag
has, and up to ten figures the power of ten to reduce by is a number of 64 bits. -/
namespace WalletAuth.Contact
set_option autoImplicit false

/-! ## The number -/

/-- What a tag points out: its last half octet is the place of four octets that it has, and they are read as one
number without their first bit. -/
inductive PointsOut (tag : Octets 20) : ℕ → ℕ → Prop
  | intro {last a b c d : UInt8} (hlast : tag.toList[19]? = some last)
    (ha : tag.toList[last.toNat % 16]? = some a) (hb : tag.toList[last.toNat % 16 + 1]? = some b)
    (hc : tag.toList[last.toNat % 16 + 2]? = some c) (hd : tag.toList[last.toNat % 16 + 3]? = some d) :
    PointsOut tag (last.toNat % 16)
      (a.toNat % 2 ^ 7 * 2 ^ 24 + b.toNat * 2 ^ 16 + c.toNat * 2 ^ 8 + d.toNat)

variable {tag : Octets 20} {place number : ℕ}

theorem PointsOut.place_lt (h : PointsOut tag place number) : place + 3 < 20 := by
  cases h
  omega

theorem PointsOut.number_lt (h : PointsOut tag place number) : number < 2 ^ 31 := by
  cases h with
  | @intro last a b c d =>
    have hb := b.toNat_lt
    have hc := c.toNat_lt
    have hd := d.toNat_lt
    omega

theorem take_four_drop {l : Bytes} {i : ℕ} (h : i + 3 < l.length) :
    (l.drop i).take 4 = [l[i], l[i + 1], l[i + 2], l[i + 3]] := by
  rw [List.drop_eq_getElem_cons (by omega), List.drop_eq_getElem_cons (by omega),
    List.drop_eq_getElem_cons (by omega), List.drop_eq_getElem_cons h]
  rfl

/-- Four octets without their first bit. -/
theorem toNat_four_mod (a b c d : UInt8) : Bytes.toNat [a, b, c, d] % 0x80000000 =
    a.toNat % 2 ^ 7 * 2 ^ 24 + b.toNat * 2 ^ 16 + c.toNat * 2 ^ 8 + d.toNat := by
  have hnil : Bytes.toNat [] = 0 := rfl
  have hb := b.toNat_lt
  have hc := c.toNat_lt
  have hd := d.toNat_lt
  simp only [Bytes.toNat_cons, List.length_cons, List.length_nil, hnil]
  omega

theorem exists_pointsOut_truncate (tag : Octets 20) : ∃ place, PointsOut tag place (truncate tag) := by
  have hlength := tag.length_toList
  have hlast : tag.toList[19]? = some tag.toList[19] := List.getElem?_eq_getElem _
  have hplace : tag.toList[19].toNat % 16 + 3 < tag.toList.length := by omega
  have hnumber : truncate tag = Bytes.toNat [tag.toList[tag.toList[19].toNat % 16],
      tag.toList[tag.toList[19].toNat % 16 + 1], tag.toList[tag.toList[19].toNat % 16 + 2],
      tag.toList[tag.toList[19].toNat % 16 + 3]] % 0x80000000 := by
    rw [← take_four_drop hplace]
    unfold truncate
    rw [List.getD_eq_getElem _ _ (by omega)]
  rw [hnumber, toNat_four_mod]
  exact ⟨_, .intro hlast (List.getElem?_eq_getElem _) (List.getElem?_eq_getElem _)
    (List.getElem?_eq_getElem _) (List.getElem?_eq_getElem _)⟩

/-! ## The code -/

variable {secret : String} {key : Bytes}

/-- The power of ten that is computed is exact wherever it is a number of 64 bits. -/
theorem toNat_modulus {digits : ℕ} (h : 10 ^ digits < 2 ^ 64) :
    (modulus digits).toNat = 10 ^ digits := by
  induction digits with
  | zero => rfl
  | succ digits ih =>
    have hless : 10 ^ digits < 2 ^ 64 :=
      (Nat.pow_le_pow_right (by decide) digits.le_succ).trans_lt h
    have hten : (10 : UInt64).toNat = 10 := rfl
    show (modulus digits * 10).toNat = _
    rw [UInt64.toNat_mul, ih hless, hten, ← pow_succ, Nat.mod_eq_of_lt h]

theorem ten_pow_lt {digits : ℕ} (h : digits ≤ 10) : 10 ^ digits < 2 ^ 64 :=
  calc 10 ^ digits ≤ 10 ^ 10 := Nat.pow_le_pow_right (by decide) h
    _ < 2 ^ 64 := by decide

/-- Up to ten digits nothing is lost by counting with numbers of 64 bits. -/
theorem counterCode_eq (key : Bytes) (count : UInt64) {digits : ℕ} (h : digits ≤ 10) :
    counterCode key count digits =
      Numeral.padded digits (truncate (Hash.hmacSha1 key (Hash.word64 count)) % 10 ^ digits) := by
  obtain ⟨place, hplace⟩ := exists_pointsOut_truncate (Hash.hmacSha1 key (Hash.word64 count))
  have hsmall : truncate (Hash.hmacSha1 key (Hash.word64 count)) < UInt64.size :=
    hplace.number_lt.trans (by decide)
  unfold counterCode
  dsimp only
  rw [UInt64.toNat_mod, UInt64.toNat_ofNat_of_lt' hsmall, toNat_modulus (ten_pow_lt h)]

/-- A code writes the end of the number that the tag of the count points out. -/
theorem exists_pointsOut_counterCode (key : Bytes) (count : UInt64) {digits : ℕ} (h : digits ≤ 10) :
    ∃ place number, PointsOut (Hash.hmacSha1 key (Octets.ofNat 8 count.toNat).toList) place number ∧
      Numeral.Writes (counterCode key count digits) digits (number % 10 ^ digits) := by
  obtain ⟨place, hplace⟩ := exists_pointsOut_truncate (Hash.hmacSha1 key (Hash.word64 count))
  have hwrites := Numeral.writes_padded digits
    (truncate (Hash.hmacSha1 key (Hash.word64 count)) % 10 ^ digits)
  rw [Nat.mod_mod, ← counterCode_eq key count h] at hwrites
  rw [← Hash.word64_eq]
  exact ⟨place, _, hplace, hwrites⟩

theorem effectivePeriod_ne_zero (o : CodeOptions) : o.effectivePeriod ≠ 0 := by
  unfold CodeOptions.effectivePeriod
  split
  · decide
  · next h => exact h

/-- How the code for a secret that can be read comes about. The period is never zero. Up to ten digits the power
of ten is a number of 64 bits and computed as one. Such a code is made of the tag of the eight octets that
count the periods, which points out a number of 31 bits within its own twenty octets; the code writes what
this number leaves modulo the power of ten. Of more digits no code is made. -/
theorem code_of_count (hkey : decodeSecret secret = .ok key) (time : UInt64) (o : CodeOptions) :
    let period := o.effectivePeriod.toNat
    let digits := o.effectiveDigits.toNat
    0 < period ∧
    (digits ≤ 10 → 10 ^ digits < 2 ^ 64 ∧ (modulus digits).toNat = 10 ^ digits ∧
      ∃ (count : Octets 8) (place number : ℕ) (code : String),
        count.toNat = time.toNat / period ∧
        PointsOut (Hash.hmacSha1 key count.toList) place number ∧ place + 3 < 20 ∧ number < 2 ^ 31 ∧
        codeAt secret time o = .ok code ∧ Numeral.Writes code digits (number % 10 ^ digits)) ∧
    (10 < digits → codeAt secret time o = .error (.digits o.effectiveDigits)) := by
  intro period digits
  have hmany : maxDigits < o.effectiveDigits ↔ 10 < digits := UInt32.lt_iff_toNat_lt
  have hperiod : 0 < period := by
    apply Nat.pos_of_ne_zero
    exact fun h => effectivePeriod_ne_zero o (UInt64.toNat_inj.mp h)
  refine ⟨hperiod, fun hdigits => ⟨ten_pow_lt hdigits, toNat_modulus (ten_pow_lt hdigits), ?_⟩,
    fun hdigits => ?_⟩
  · have hcount : (Octets.ofNat 8 (time / o.effectivePeriod).toNat).toNat = time.toNat / period := by
      rw [Octets.toNat_ofNat (UInt64.toNat_lt _), UInt64.toNat_div]
    obtain ⟨place, number, hplace, hwrites⟩ :=
      exists_pointsOut_counterCode key (time / o.effectivePeriod) hdigits
    refine ⟨_, place, number, _, hcount, hplace, hplace.place_lt, hplace.number_lt, ?_, hwrites⟩
    rw [codeAt_of_decodeSecret hkey, if_neg (hmany.not.mpr (Nat.not_lt.mpr hdigits))]
  · rw [codeAt_of_decodeSecret hkey, if_pos (hmany.mpr hdigits)]

/-- Ten digits, the most there are, for the secret `12345678901234567890`. The number pointed out has nine, so that
a zero stands in front of it. Of eleven digits there is no code. -/
theorem ten_digits_of_count :
    let secret := "GEZDGNBVGY3TQOJQGEZDGNBVGY3TQOJQ"
    let key := Utf8.encode "12345678901234567890"
    decodeSecret secret = .ok key ∧
    codeAt secret 1111111109 { period := 0, digits := 10 } = .ok "0907081804" ∧
    (∃ (count : Octets 8) (place number : ℕ), count.toNat = 37037036 ∧
      PointsOut (Hash.hmacSha1 key count.toList) place number ∧
      Numeral.Writes "0907081804" 10 (number % 10 ^ 10)) ∧
    codeAt secret 1111111109 { period := 0, digits := 11 } = .error (.digits 11) := by
  intro secret key
  have hkey : decodeSecret secret = .ok key := by decide +kernel
  have hcode : codeAt secret 1111111109 { period := 0, digits := 10 } = .ok "0907081804" := by
    decide +kernel
  obtain ⟨-, hmade, -⟩ := code_of_count hkey 1111111109 { period := 0, digits := 10 }
  obtain ⟨-, -, count, place, number, code, hcount, hplace, -, -, hsame, hwrites⟩ := hmade (by decide)
  obtain rfl : "0907081804" = code := Except.ok.inj (hcode.symm.trans hsame)
  obtain ⟨-, -, hmany⟩ := code_of_count hkey 1111111109 { period := 0, digits := 11 }
  exact ⟨hkey, hcode, ⟨count, place, number, hcount, hplace, hwrites⟩, hmany (by decide)⟩

end WalletAuth.Contact
