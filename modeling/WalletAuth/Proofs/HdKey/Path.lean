import Mathlib
import WalletAuth.HdKey.Walk
import WalletAuth.Proofs.Encoding.Hex
import WalletAuth.Proofs.Except
import WalletAuth.Proofs.Number.Chunks
import WalletAuth.Proofs.Text.Spelling

/-! Which texts spell paths. Each piece of eight octets has to spell a number that is not negative, in
hexadecimal digits with a sign or without, and the path is what these numbers leave modulo `2³¹ - 1`. Eight
octets are too few for a number past 64 bits, and too few for a negative one to be reduced. -/
namespace WalletAuth.Path
set_option autoImplicit false

/-- The numerals that pieces have to be: hexadecimal ones with at most one sign. -/
abbrev Spells (piece : Bytes) (v : ℤ) : Prop := Numeral.SpellsSigned 16 Hex.IsDigit piece v

variable {piece : Bytes} {v : ℤ} {i : UInt32} {e : KeyError}

theorem signed?_eq_some_iff :
    Numeral.signed? 16 Hex.digitValue? piece = some v ↔ Spells piece v := by
  have hsign : ∀ b : UInt8, b.toNat < 0x30 → ∀ v, ¬ Hex.IsDigit b v :=
    fun _ hb _ h => absurd h.le_toNat (not_le.mpr hb)
  exact Numeral.signed?_eq_some_iff (fun _ _ => Hex.digitValue?_eq_some_iff)
    (hsign _ (by decide)) (hsign _ (by decide))

/-! ## One piece -/

theorem Spells.natAbs_lt (h : Spells piece v) : v.natAbs < 16 ^ piece.length :=
  Numeral.SpellsSigned.natAbs_lt (fun _ _ hd => hd.lt) (by decide) h

theorem index_of_nonneg (h : Spells piece v) (hv : 0 ≤ v) :
    index piece = .ok (UInt32.ofNat (v % modulus).toNat) := by
  have hreduced : v.tmod modulus = v % modulus := Int.tmod_eq_emod_of_nonneg hv
  have hsign : ¬ v % modulus < 0 := not_lt.mpr (Int.emod_nonneg v (by decide))
  unfold index
  rw [signed?_eq_some_iff.mpr h]
  dsimp only
  rw [hreduced, if_neg hsign]

/-- The sign leaves seven digits at most, and what they spell lies below the modulus. -/
theorem index_of_neg (hlength : piece.length ≤ chunkLength) (h : Spells piece v) (hv : v < 0) :
    index piece = .error (.pathIndex v) := by
  obtain ⟨figures, n, rfl, rfl, hfigures⟩ := h.exists_of_neg hv
  have hseven : figures.length ≤ 7 := Nat.le_of_succ_le_succ hlength
  have hsmall : n < 16 ^ 7 :=
    (hfigures.lt fun _ _ hd => hd.lt).trans_le (Nat.pow_le_pow_right (by decide) hseven)
  have hreduced : (-(n : ℤ)).tmod modulus = -(n : ℤ) := by
    have hmodulus : (n : ℤ) < modulus := by
      unfold modulus
      omega
    rw [Int.neg_tmod, Int.tmod_eq_of_lt (Int.natCast_nonneg n) hmodulus]
  unfold index
  rw [signed?_eq_some_iff.mpr h]
  dsimp only
  rw [hreduced, if_pos hv]

theorem index_of_no_number (h : ∀ v, ¬ Spells piece v) : index piece = .error (.pathChunk piece) := by
  have hnone : Numeral.signed? 16 Hex.digitValue? piece = none := by
    rw [Option.eq_none_iff_forall_ne_some]
    exact fun v hv => h v (signed?_eq_some_iff.mp hv)
  unfold index
  rw [hnone]

theorem toNat_ofNat_emod (v : ℤ) :
    ((UInt32.ofNat (v % modulus).toNat).toNat : ℤ) = v % (2 ^ 31 - 1) := by
  have hmodulus : modulus = 2 ^ 31 - 1 := by decide
  have hlow := Int.emod_nonneg v (show modulus ≠ 0 by decide)
  have hhigh := Int.emod_lt_of_pos v (show 0 < modulus by decide)
  rw [hmodulus] at hlow hhigh ⊢
  rw [UInt32.toNat_ofNat_of_lt' (by rw [UInt32.size]; omega), Int.toNat_of_nonneg hlow]

theorem index_eq_ok_iff (hlength : piece.length ≤ chunkLength) :
    index piece = .ok i ↔ ∃ v, Spells piece v ∧ 0 ≤ v ∧ (i.toNat : ℤ) = v % (2 ^ 31 - 1) := by
  constructor
  · intro h
    by_cases hspells : ∃ v, Spells piece v
    · obtain ⟨v, hspells⟩ := hspells
      rcases lt_or_ge v 0 with hv | hv
      · rw [index_of_neg hlength hspells hv] at h
        cases h
      · rw [index_of_nonneg hspells hv] at h
        cases h
        exact ⟨v, hspells, hv, toNat_ofNat_emod v⟩
    · rw [index_of_no_number (not_exists.mp hspells)] at h
      cases h
  · rintro ⟨v, hspells, hv, hi⟩
    rw [index_of_nonneg hspells hv]
    refine congrArg Except.ok (UInt32.toNat_inj.mp ?_)
    rw [← toNat_ofNat_emod v] at hi
    exact (Int.ofNat_inj.mp hi).symm

theorem index_eq_error_iff (hlength : piece.length ≤ chunkLength) :
    index piece = .error e ↔ (∃ v, 0 < v ∧ Spells piece (-v) ∧ e = .pathIndex (-v)) ∨
      (∀ v, ¬ Spells piece v) ∧ e = .pathChunk piece := by
  constructor
  · intro h
    by_cases hspells : ∃ v, Spells piece v
    · obtain ⟨v, hspells⟩ := hspells
      rcases lt_or_ge v 0 with hv | hv
      · rw [index_of_neg hlength hspells hv] at h
        cases h
        refine Or.inl ⟨-v, Int.neg_pos.mpr hv, ?_⟩
        rw [neg_neg]
        exact ⟨hspells, rfl⟩
      · rw [index_of_nonneg hspells hv] at h
        cases h
    · have hnone := not_exists.mp hspells
      rw [index_of_no_number hnone] at h
      cases h
      exact Or.inr ⟨hnone, rfl⟩
  · rintro (⟨v, hv, hspells, rfl⟩ | ⟨hnone, rfl⟩)
    · exact index_of_neg hlength hspells (Int.neg_neg_of_pos hv)
    · exact index_of_no_number hnone

theorem toNat_lt_of_index (h : index piece = .ok i) : i.toNat < 2 ^ 31 - 1 := by
  unfold index at h
  split at h
  · cases h
  · next v hv =>
    have hmod : v.tmod modulus < 0x7fffffff := Int.tmod_lt_of_pos v (by decide)
    simp only at h
    split at h
    · cases h
    · next hneg =>
      cases h
      rw [UInt32.toNat_ofNat_of_lt' (by rw [UInt32.size]; omega)]
      omega

/-! ## All pieces -/

/-- The pieces that a text is cut into. A cut may fall inside a character. -/
def pieces (s : String) : List Bytes :=
  (List.range (((Utf8.encode s).length + 7) / 8)).map fun j => ((Utf8.encode s).drop (8 * j)).take 8

theorem chunks_eq_pieces (s : String) : chunks chunkLength (Utf8.encode s) = pieces s :=
  chunks_eq_map_range (by decide) _

theorem length_pieces (s : String) : (pieces s).length = ((Utf8.encode s).length + 7) / 8 := by
  rw [pieces, List.length_map, List.length_range]

theorem length_le_of_mem_pieces {s : String} (h : piece ∈ pieces s) : piece.length ≤ chunkLength := by
  rw [← chunks_eq_pieces] at h
  exact (ne_nil_and_length_le_of_mem_chunks (by decide) _ piece h).2

theorem ofText_eq (s : String) : ofText s = (pieces s).mapM index := by
  unfold ofText
  rw [chunks_eq_pieces]

theorem ofText_eq_ok_iff {s : String} {path : List UInt32} :
    ofText s = .ok path ↔ List.Forall₂ (fun piece i => ∃ v, Spells piece v ∧ 0 ≤ v ∧
      (i.toNat : ℤ) = v % (2 ^ 31 - 1)) (pieces s) path := by
  rw [ofText_eq]
  exact mapM_eq_ok_iff_of_mem fun piece hpiece i => index_eq_ok_iff (length_le_of_mem_pieces hpiece)

theorem exists_index_iff (hlength : piece.length ≤ chunkLength) :
    (∃ i, index piece = .ok i) ↔ ∃ v, Spells piece v ∧ 0 ≤ v := by
  constructor
  · rintro ⟨i, hi⟩
    obtain ⟨v, hspells, hv, -⟩ := (index_eq_ok_iff hlength).mp hi
    exact ⟨v, hspells, hv⟩
  · rintro ⟨v, hspells, hv⟩
    exact ⟨_, index_of_nonneg hspells hv⟩

theorem toNat_lt_of_ofText {s : String} {path : List UInt32} (h : ofText s = .ok path) :
    ∀ i ∈ path, i.toNat < 2 ^ 31 - 1 :=
  forall_of_mapM (fun _ _ => toNat_lt_of_index) h

/-- No text leads to a hardened index. -/
theorem lt_of_ofText {s : String} {path : List UInt32} (h : ofText s = .ok path) :
    ∀ i ∈ path, i < hardenedStart := by
  intro i hi
  have hlt := toNat_lt_of_ofText h i hi
  have hstart : hardenedStart.toNat = 2 ^ 31 := rfl
  rw [UInt32.lt_iff_toNat_lt]
  omega

theorem ofText_eq_error_iff {s : String} :
    ofText s = .error e ↔ ∃ before piece after, pieces s = before ++ piece :: after ∧
      (∀ earlier ∈ before, ∃ v, Spells earlier v ∧ 0 ≤ v) ∧
      ((∃ v, 0 < v ∧ Spells piece (-v) ∧ e = .pathIndex (-v)) ∨
        (∀ v, ¬ Spells piece v) ∧ e = .pathChunk piece) := by
  rw [ofText_eq, mapM_eq_error_iff]
  refine exists_congr fun before => exists_congr fun piece => exists_congr fun after =>
    and_congr_right fun hpieces => ?_
  have hmem : ∀ other ∈ before ++ piece :: after, other.length ≤ chunkLength := by
    intro other hother
    rw [← hpieces] at hother
    exact length_le_of_mem_pieces hother
  refine and_congr (forall₂_congr fun earlier hearlier => ?_) ?_
  · exact exists_index_iff (hmem earlier (List.mem_append_left _ hearlier))
  · exact index_eq_error_iff (hmem piece (List.mem_append_right _ List.mem_cons_self))

/-- Neither a piece nor a beginning of one, which a reader goes through, spells a number past 64 bits. -/
theorem Spells.mem_int64 (h : Spells piece v) (hlength : piece.length ≤ chunkLength) :
    Int64.minValue.toInt ≤ v ∧ v ≤ Int64.maxValue.toInt := by
  have hmin : Int64.minValue.toInt = -2 ^ 63 := rfl
  have hmax : Int64.maxValue.toInt = 2 ^ 63 - 1 := rfl
  have hbound : v.natAbs < 16 ^ 8 :=
    h.natAbs_lt.trans_le (Nat.pow_le_pow_right (by decide) hlength)
  omega

/-- A text spells a path exactly if each piece of eight octets is a numeral that is not negative, and then the
indices are what the numbers leave modulo `2³¹ - 1`. Otherwise the first piece that is no such numeral
decides the error. No number read on the way leaves the range of 64 bits. -/
theorem text_spells_path (s : String) :
    (∀ path, ofText s = .ok path ↔ List.Forall₂ (fun piece i => ∃ v, Spells piece v ∧ 0 ≤ v ∧
      (i.toNat : ℤ) = v % (2 ^ 31 - 1)) (pieces s) path) ∧
    ((∃ path, ofText s = .ok path) ↔ ∀ piece ∈ pieces s, ∃ v, Spells piece v ∧ 0 ≤ v) ∧
    (∀ path, ofText s = .ok path → path.length = ((Utf8.encode s).length + 7) / 8 ∧
      ∀ i ∈ path, i.toNat < 2 ^ 31 - 1) ∧
    (∀ e, ofText s = .error e ↔ ∃ before piece after, pieces s = before ++ piece :: after ∧
      (∀ earlier ∈ before, ∃ v, Spells earlier v ∧ 0 ≤ v) ∧
      ((∃ v, 0 < v ∧ Spells piece (-v) ∧ e = .pathIndex (-v)) ∨
        (∀ v, ¬ Spells piece v) ∧ e = .pathChunk piece)) ∧
    ∀ piece ∈ pieces s, ∀ l, l <+: piece → ∀ v, Spells l v →
      Int64.minValue.toInt ≤ v ∧ v ≤ Int64.maxValue.toInt := by
  refine ⟨fun _ => ofText_eq_ok_iff, ?_, fun path h => ⟨?_, toNat_lt_of_ofText h⟩,
    fun _ => ofText_eq_error_iff, ?_⟩
  · constructor
    · rintro ⟨path, h⟩ piece hpiece
      rw [ofText_eq] at h
      obtain ⟨i, -, hi⟩ := exists_of_mem_of_mapM h hpiece
      exact (exists_index_iff (length_le_of_mem_pieces hpiece)).mp ⟨i, hi⟩
    · intro h
      rw [ofText_eq]
      exact exists_mapM fun piece hpiece =>
        (exists_index_iff (length_le_of_mem_pieces hpiece)).mpr (h piece hpiece)
  · rw [← length_pieces, (ofText_eq_ok_iff.mp h).length_eq]
  · intro piece hpiece l hl v hspells
    exact hspells.mem_int64 (hl.length_le.trans (length_le_of_mem_pieces hpiece))

/-- Three pieces with and without signs: a negative zero, the modulus itself, and a short last piece. -/
theorem signed_pieces_spell_path :
    let s := "-00000007fffffff+A"
    let last := "+A".toList.map Char.octet
    ofText s = .ok [0, 0, 10] ∧ ([0, 0, 10] : List UInt32).length = ((Utf8.encode s).length + 7) / 8 ∧
      last ∈ pieces s ∧ Spells last 10 ∧ (∃ v, Spells last v ∧ 0 ≤ v) ∧
      Int64.minValue.toInt ≤ 10 ∧ 10 ≤ Int64.maxValue.toInt := by
  intro s last
  have hpath : ofText s = .ok [0, 0, 10] := by decide +kernel
  have hlast : last ∈ pieces s := by decide +kernel
  have hspells : Spells last 10 := .plus (.digit (by decide +kernel))
  obtain ⟨-, hall, hlength, -, hrange⟩ := text_spells_path s
  exact ⟨hpath, (hlength _ hpath).1, hlast, hspells, hall.mp ⟨_, hpath⟩ last hlast,
    hrange last hlast last (List.prefix_refl last) 10 hspells⟩

end WalletAuth.Path
