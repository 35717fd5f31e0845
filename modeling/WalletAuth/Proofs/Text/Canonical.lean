import Mathlib
import WalletAuth.Proofs.Text.Numeral
import WalletAuth.Proofs.Text.Spelling

/-! One spelling of each number. A reader of numerals takes a plus sign, zeros in front and a zero with a
minus sign as well, but only numerals without these are written. -/
namespace WalletAuth.Numeral
set_option autoImplicit false

/-- Numerals with no sign but that of a negative number and no zero in front of other figures. -/
inductive Canonical : Bytes → Prop
  | zero : Canonical [0x30]
  | positive {b : UInt8} (hb : 0x31 ≤ b ∧ b ≤ 0x39) (rest : Bytes) : Canonical (b :: rest)
  | negative {b : UInt8} (hb : 0x31 ≤ b ∧ b ≤ 0x39) (rest : Bytes) : Canonical (0x2d :: b :: rest)

variable {v : Int64} {s : String} {l : Bytes} {n : ℕ}

/-! ## What is written -/

theorem leading_octet {d : ℕ} (hd : d < 10) (hne : d ≠ 0) :
    0x31 ≤ Char.octet (digit d) ∧ Char.octet (digit d) ≤ 0x39 := by
  have hall : ∀ d < 10, d ≠ 0 → 0x31 ≤ Char.octet (digit d) ∧ Char.octet (digit d) ≤ 0x39 := by
    decide
  exact hall d hd hne

theorem figures_of_ne_zero (hn : n ≠ 0) : figures n = Radix.digits 10 n := if_neg hn

/-- The figures of a number from one on are led by no zero. -/
theorem exists_figureOctets (hn : n ≠ 0) :
    ∃ b rest, figureOctets n = b :: rest ∧ 0x31 ≤ b ∧ b ≤ 0x39 := by
  obtain ⟨d, ds, hfigures⟩ := List.exists_cons_of_ne_nil (figures_ne_nil n)
  have hlt := lt_of_mem_figures (hfigures ▸ List.mem_cons_self : d ∈ figures n)
  rw [figures_of_ne_zero hn] at hfigures
  have hlead := leading_octet hlt (Radix.head_digits_ne_zero (by decide) hfigures)
  refine ⟨_, ds.map fun d => Char.octet (digit d), ?_, hlead⟩
  unfold figureOctets
  rw [figures_of_ne_zero hn, hfigures, List.map_cons]

theorem canonical_ofInt64 (v : Int64) : Canonical (Utf8.encode (ofInt64 v)) := by
  rw [utf8_encode_ofInt64]
  by_cases hzero : v.toInt = 0
  · rw [hzero]
    exact .zero
  · obtain ⟨b, rest, hfigures, hb⟩ := exists_figureOctets (Int.natAbs_ne_zero.mpr hzero)
    rw [hfigures]
    split
    · exact .negative hb rest
    · exact .positive hb rest

/-! ## What is read -/

theorem octet_of_decimalDigit? {b : UInt8} {d : ℕ} (h : decimalDigit? b = some d) :
    d < 10 ∧ Char.octet (digit d) = b := by
  have hall : ∀ d < 10, (Char.octet (digit d)).toNat = 0x30 + d := by decide
  unfold decimalDigit? at h
  split_ifs at h with hb
  simp only [Bool.and_eq_true, decide_eq_true_eq, UInt8.le_iff_toNat_le, UInt8.reduceToNat] at hb
  cases h
  have hlt : b.toNat - 0x30 < 10 := by omega
  exact ⟨hlt, UInt8.toNat_inj.mp ((hall _ hlt).trans (by omega))⟩

theorem map_of_mapM_decimalDigit? {ds : List ℕ} (h : l.mapM decimalDigit? = some ds) :
    (∀ d ∈ ds, d < 10) ∧ ds.map (fun d => Char.octet (digit d)) = l := by
  induction l generalizing ds with
  | nil =>
    cases h
    exact ⟨fun d hd => absurd hd List.not_mem_nil, rfl⟩
  | cons b l ih =>
    rw [List.mapM_cons] at h
    obtain ⟨d, hd, h⟩ := Option.bind_eq_some_iff.mp h
    obtain ⟨rest, hrest, h⟩ := Option.bind_eq_some_iff.mp h
    cases h
    obtain ⟨hlt, hdigit⟩ := octet_of_decimalDigit? hd
    obtain ⟨hlts, hmap⟩ := ih hrest
    exact ⟨List.forall_mem_cons.mpr ⟨hlt, hlts⟩, by rw [List.map_cons, hdigit, hmap]⟩

/-- A run of digits led by no zero is the figures of the number that it stands for. -/
theorem figureOctets_of_natural? {b : UInt8} {rest : Bytes} (hb : 0x31 ≤ b)
    (h : natural? 10 decimalDigit? (b :: rest) = some n) : figureOctets n = b :: rest ∧ n ≠ 0 := by
  obtain ⟨ds, hds, rfl⟩ := Option.map_eq_some_iff.mp h
  obtain ⟨hlt, hmap⟩ := map_of_mapM_decimalDigit? hds
  obtain ⟨d, ds, rfl⟩ : ∃ d ds', ds = d :: ds' := by
    refine List.exists_cons_of_ne_nil ?_
    rintro rfl
    cases hmap
  have hlead : (d == 0) = false := by
    rw [beq_eq_false_iff_ne]
    rintro rfl
    rw [← (List.cons_eq_cons.mp hmap).1] at hb
    exact absurd hb (by decide)
  have hdigits : Radix.digits 10 (Radix.ofDigits 10 (d :: ds)) = d :: ds := by
    rw [Radix.digits_ofDigits (by decide) hlt, List.dropWhile_cons, hlead, if_neg Bool.false_ne_true]
  have hne : Radix.ofDigits 10 (d :: ds) ≠ 0 := by
    intro hzero
    rw [hzero] at hdigits
    cases hdigits
  refine ⟨?_, hne⟩
  unfold figureOctets
  rw [figures_of_ne_zero hne, hdigits, hmap]

/-- A canonical numeral is the sign and the figures of the number that it stands for. -/
theorem Canonical.eq_of_signed? (hl : Canonical l) {i : ℤ}
    (h : signed? 10 decimalDigit? l = some i) :
    (if i < 0 then [0x2d] else []) ++ figureOctets i.natAbs = l := by
  cases hl with
  | zero =>
    have hzero : signed? 10 decimalDigit? [0x30] = some 0 := by decide
    rw [← Option.some.inj (hzero.symm.trans h)]
    rfl
  | @positive b hb rest =>
    have hplus : b ≠ 0x2b := by
      rintro rfl
      exact absurd hb (by decide)
    have hminus : b ≠ 0x2d := by
      rintro rfl
      exact absurd hb (by decide)
    rw [signed?, if_neg hplus, if_neg hminus] at h
    obtain ⟨n, hn, rfl⟩ := Option.map_eq_some_iff.mp h
    have hnonneg : ¬ Int.ofNat n < 0 := (Int.natCast_nonneg n).not_gt
    rw [if_neg hnonneg]
    exact (figureOctets_of_natural? hb.1 hn).1
  | @negative b hb rest =>
    rw [signed?, if_neg (by decide), if_pos rfl] at h
    obtain ⟨n, hn, rfl⟩ := Option.map_eq_some_iff.mp h
    obtain ⟨hfigures, hne⟩ := figureOctets_of_natural? hb.1 hn
    have hnegative : -Int.ofNat n < 0 := by
      have hpositive := Int.natCast_pos.mpr (Nat.pos_of_ne_zero hne)
      exact Int.neg_neg_of_pos hpositive
    rw [if_pos hnegative, Int.natAbs_neg]
    exact congrArg ([0x2d] ++ ·) hfigures

theorem signed?_of_int64? (h : int64? s = some v) :
    signed? 10 decimalDigit? (Utf8.encode s) = some v.toInt := by
  obtain ⟨i, hi, h⟩ := Option.bind_eq_some_iff.mp h
  simp only [Bool.and_eq_true, decide_eq_true_iff, Option.ite_none_right_eq_some,
    Option.some.injEq] at h
  obtain ⟨⟨hlow, hhigh⟩, rfl⟩ := h
  rw [hi, Int64.toInt_ofInt_of_le hlow (Int.lt_of_le_sub_one hhigh)]

/-- A numeral holds digits and signs only. -/
theorem mem_of_int64? (h : int64? s = some v) : ∀ b ∈ Utf8.encode s,
    b = Char.octet '+' ∨ b = Char.octet '-' ∨ ∃ d, decimalDigit? b = some d := by
  refine ((signed?_eq_some_iff (fun _ _ => Iff.rfl) ?_ ?_).mp (signed?_of_int64? h)).mem
  · rintro d ⟨⟩
  · rintro d ⟨⟩

/-- Of the numerals that are read as a number, the canonical one is written for it. -/
theorem ofInt64_eq_iff (h : int64? s = some v) : ofInt64 v = s ↔ Canonical (Utf8.encode s) := by
  constructor
  · rintro rfl
    exact canonical_ofInt64 v
  · intro hcanonical
    apply Utf8.encode_injective
    rw [utf8_encode_ofInt64]
    exact hcanonical.eq_of_signed? (signed?_of_int64? h)

end WalletAuth.Numeral
