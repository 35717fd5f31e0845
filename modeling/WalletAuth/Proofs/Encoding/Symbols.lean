import Mathlib
import WalletAuth.Proofs.Number.Chunks
import WalletAuth.Proofs.Number.Octets
import WalletAuth.Proofs.Text.Plain

/-! Octets regrouped into digits of fewer bits and written with the symbols of an alphabet, as base 32 and
base 64 do. Regrouping loses nothing, a symbol is the place of a digit in the alphabet, and marks of
padding fill a group up. -/
namespace WalletAuth
set_option autoImplicit false

universe u

/-! ## Digits of fewer bits

The bits that fill up the last digit are fewer than an octet has, so they are told from the octets by the
number of digits alone. Digits that join to octets are the ones that the octets are regrouped into. -/

namespace BitGroup

theorem length_split (bits : ℕ) (l : Bytes) :
    (split bits l).length = digitCount bits l.length :=
  Radix.length_toDigits _ _ _

theorem lt_of_mem_split {bits d : ℕ} {l : Bytes} (hd : d ∈ split bits l) : d < 1 <<< bits := by
  have hbase : 0 < 1 <<< bits := by
    rw [Nat.one_shiftLeft]
    exact Nat.two_pow_pos bits
  exact Radix.lt_of_mem_toDigits hbase hd

/-- The digits hold the octets and fewer than `bits` bits more. -/
theorem digitCount_mul {bits : ℕ} (hbits : 0 < bits) (n : ℕ) :
    ∃ fill < bits, digitCount bits n * bits = n * 8 + fill := by
  have hdiv := Nat.div_add_mod (n * 8 + bits - 1) bits
  have hmod := Nat.mod_lt (n * 8 + bits - 1) hbits
  refine ⟨bits - 1 - (n * 8 + bits - 1) % bits, by omega, ?_⟩
  unfold digitCount
  rw [Nat.mul_comm]
  omega

theorem join?_split {bits : ℕ} (hpos : 0 < bits) (hle : bits ≤ 8) (l : Bytes) :
    join? bits (split bits l) = some l := by
  obtain ⟨fill, hfill, hcount⟩ := digitCount_mul hpos l.length
  have hspare : spareBits bits (digitCount bits l.length) = fill := by
    unfold spareBits
    omega
  have hlength : digitCount bits l.length * bits / 8 = l.length := by omega
  have hvalue : Radix.ofDigits (1 <<< bits) (split bits l) = Bytes.toNat l <<< fill := by
    have hlt : Bytes.toNat l < 2 ^ (l.length * 8) := by
      have h := Bytes.toNat_lt l
      rwa [show (256 : ℕ) = 2 ^ 8 from rfl, ← pow_mul, Nat.mul_comm] at h
    have hfits : Bytes.toNat l <<< fill < (1 <<< bits) ^ digitCount bits l.length := by
      rw [Nat.one_shiftLeft, ← pow_mul, Nat.mul_comm, hcount, pow_add, Nat.shiftLeft_eq]
      exact Nat.mul_lt_mul_of_pos_right hlt (Nat.two_pow_pos fill)
    unfold split
    dsimp only
    rw [Radix.ofDigits_toDigits, hcount, Nat.add_sub_cancel_left, Nat.mod_eq_of_lt hfits]
  unfold join?
  dsimp only
  rw [length_split, hspare, hlength, hvalue, Nat.shiftLeft_shiftRight, Nat.one_shiftLeft,
    Nat.shiftLeft_eq, Nat.mul_mod_left, if_pos rfl, Bytes.ofNat_toNat]

theorem length_of_join? {bits : ℕ} {ds : List ℕ} {l : Bytes} (h : join? bits ds = some l) :
    l.length = ds.length * bits / 8 := by
  unfold join? at h
  obtain ⟨-, hl⟩ := Option.ite_none_right_eq_some.mp h
  rw [← Option.some.inj hl, Bytes.length_ofNat]

/-- Digits that leave less than a whole digit over are the digits of the octets they join to. -/
theorem split_of_join? {bits : ℕ} {ds : List ℕ} {l : Bytes} (hds : ∀ d ∈ ds, d < 1 <<< bits)
    (hspare : spareBits bits ds.length < bits) (h : join? bits ds = some l) :
    split bits l = ds := by
  have hlength := length_of_join? h
  have hwhole : l.length * 8 + spareBits bits ds.length = ds.length * bits := by
    unfold spareBits
    omega
  have hcount : digitCount bits l.length = ds.length := by
    unfold digitCount
    refine Nat.div_eq_of_lt_le ?_ ?_
    · omega
    · rw [Nat.succ_mul]
      omega
  unfold join? at h
  obtain ⟨hzero, hl⟩ := Option.ite_none_right_eq_some.mp h
  have hl := Option.some.inj hl
  have hvalue : Bytes.toNat l <<< spareBits bits ds.length = Radix.ofDigits (1 <<< bits) ds := by
    have hdvd : 2 ^ spareBits bits ds.length ∣ Radix.ofDigits (1 <<< bits) ds := by
      rw [← Nat.one_shiftLeft]
      exact Nat.dvd_of_mod_eq_zero hzero
    have hsize : (1 <<< bits) ^ ds.length = 2 ^ spareBits bits ds.length * 256 ^ l.length := by
      rw [Nat.one_shiftLeft, ← pow_mul, Nat.mul_comm, ← hwhole, pow_add, Nat.mul_comm,
        show (256 : ℕ) = 2 ^ 8 from rfl, ← pow_mul, Nat.mul_comm 8]
    have hlt : Radix.ofDigits (1 <<< bits) ds / 2 ^ spareBits bits ds.length < 256 ^ l.length := by
      apply Nat.div_lt_of_lt_mul
      rw [← hsize]
      exact Radix.ofDigits_lt hds
    rw [← hl, Bytes.toNat_ofNat, ← hlength, Nat.shiftRight_eq_div_pow, Nat.mod_eq_of_lt hlt,
      Nat.shiftLeft_eq, Nat.div_mul_cancel hdvd]
  unfold split
  dsimp only
  rw [hcount, show ds.length * bits - l.length * 8 = spareBits bits ds.length by omega, hvalue,
    Radix.toDigits_ofDigits hds]

end BitGroup

/-! ## Alphabets -/

namespace Alphabet

variable {α : Type u} [BEq α] [LawfulBEq α]

theorem idxOf?_eq_some_iff_getD {l : List α} (hl : l.Nodup) (d : α) {a : α} {i : ℕ} :
    l.idxOf? a = some i ↔ i < l.length ∧ l.getD i d = a := by
  rw [List.idxOf?_eq_some_iff]
  constructor
  · rintro ⟨hi, hget, -⟩
    exact ⟨hi, by rw [List.getD_eq_getElem l d hi, hget]⟩
  · rintro ⟨hi, hget⟩
    rw [List.getD_eq_getElem l d hi] at hget
    refine ⟨hi, hget, fun j hj hsame => ?_⟩
    exact hj.ne ((hl.getElem_inj_iff).mp (hsame.trans hget.symm))

end Alphabet

namespace Symbols

/-- Alphabets for digits of `bits` bits, which leave out the mark of padding. -/
structure Complete (alphabet : List Char) (bits : ℕ) : Prop where
  count : alphabet.length = 1 <<< bits
  nodup : alphabet.Nodup
  plain : ∀ c ∈ alphabet, Char.IsPlain c
  unmarked : '=' ∉ alphabet

def octet (alphabet : List Char) (v : ℕ) : UInt8 := Char.octet (alphabet.getD v 'A')

def padding : UInt8 := 0x3d

variable {alphabet : List Char} {bits full : ℕ}

namespace Complete

theorem getD_mem (h : Complete alphabet bits) {v : ℕ} (hv : v < 1 <<< bits) :
    alphabet.getD v 'A' ∈ alphabet := by
  rw [← h.count] at hv
  rw [List.getD_eq_getElem alphabet 'A' hv]
  exact List.getElem_mem hv

theorem idxOf?_eq_some_iff (h : Complete alphabet bits) {b : UInt8} {v : ℕ} :
    alphabet.idxOf? (Char.ofNat b.toNat) = some v ↔ v < 1 <<< bits ∧ octet alphabet v = b := by
  rw [Alphabet.idxOf?_eq_some_iff_getD h.nodup 'A', h.count]
  refine and_congr_right fun hv => ?_
  unfold octet
  constructor
  · intro hsymbol
    rw [hsymbol, Char.octet_ofNat]
  · rintro rfl
    exact ((h.plain _ (h.getD_mem hv)).ofNat_octet).symm

theorem octet_ne_padding (h : Complete alphabet bits) {v : ℕ} (hv : v < 1 <<< bits) :
    octet alphabet v ≠ padding := by
  intro heq
  have hmem := h.getD_mem hv
  have hsymbol := (h.plain _ hmem).ofNat_octet
  unfold octet at heq
  rw [heq] at hsymbol
  rw [← hsymbol] at hmem
  exact h.unmarked hmem

end Complete

/-! ## Groups -/

/-- The symbols of a group of octets, filled up with padding to `full` symbols. -/
def group (alphabet : List Char) (bits full : ℕ) (l : Bytes) : List Char :=
  let symbols := (BitGroup.split bits l).map (alphabet.getD · 'A')
  symbols ++ List.replicate (full - symbols.length) '='

def groupOctets (alphabet : List Char) (bits full : ℕ) (l : Bytes) : Bytes :=
  (BitGroup.split bits l).map (octet alphabet) ++
    List.replicate (full - (BitGroup.split bits l).length) padding

theorem map_octet_group (l : Bytes) :
    (group alphabet bits full l).map Char.octet = groupOctets alphabet bits full l := by
  unfold group groupOctets
  simp only [List.map_append, List.map_map, List.map_replicate, List.length_map]
  rfl

theorem length_groupOctets {l : Bytes} (h : BitGroup.digitCount bits l.length ≤ full) :
    (groupOctets alphabet bits full l).length = full := by
  unfold groupOctets
  rw [List.length_append, List.length_map, List.length_replicate, BitGroup.length_split]
  omega

/-- A group that the digits fill has no padding. -/
theorem groupOctets_eq_map {l : Bytes} (h : BitGroup.digitCount bits l.length = full) :
    groupOctets alphabet bits full l = (BitGroup.split bits l).map (octet alphabet) := by
  unfold groupOctets
  rw [BitGroup.length_split, h, Nat.sub_self, List.replicate_zero, List.append_nil]

/-- A group holds symbols and padding. -/
theorem mem_group (h : Complete alphabet bits) {l : Bytes} {c : Char}
    (hc : c ∈ group alphabet bits full l) : c ∈ alphabet ∨ c = '=' := by
  rcases List.mem_append.mp hc with hsymbol | hpadding
  · obtain ⟨v, hv, rfl⟩ := List.mem_map.mp hsymbol
    exact Or.inl (h.getD_mem (BitGroup.lt_of_mem_split hv))
  · exact Or.inr (List.eq_of_mem_replicate hpadding)

/-- No symbol is the mark of padding, so a group has as many marks as it lacks symbols. -/
theorem count_group (h : Complete alphabet bits) (l : Bytes) :
    (group alphabet bits full l).count '=' = full - BitGroup.digitCount bits l.length := by
  have hsymbols : ((BitGroup.split bits l).map (alphabet.getD · 'A')).count '=' = 0 := by
    rw [List.count_eq_zero]
    intro hmem
    obtain ⟨v, hv, hmark⟩ := List.mem_map.mp hmem
    exact h.unmarked (hmark ▸ h.getD_mem (BitGroup.lt_of_mem_split hv))
  unfold group
  rw [List.count_append, hsymbols, List.count_replicate_self, List.length_map, BitGroup.length_split,
    Nat.zero_add]

/-! ## Texts -/

theorem mem_flatMap_group (h : Complete alphabet bits) {pieces : List Bytes} {c : Char}
    (hc : c ∈ pieces.flatMap (group alphabet bits full)) : c ∈ alphabet ∨ c = '=' := by
  obtain ⟨piece, -, hpiece⟩ := List.mem_flatMap.mp hc
  exact mem_group h hpiece

theorem isPlain_of_mem_flatMap (h : Complete alphabet bits) {pieces : List Bytes} :
    ∀ c ∈ pieces.flatMap (group alphabet bits full), Char.IsPlain c := by
  intro c hc
  rcases mem_flatMap_group h hc with hsymbol | rfl
  · exact h.plain c hsymbol
  · decide

theorem utf8_encode_flatMap (h : Complete alphabet bits) (pieces : List Bytes) :
    Utf8.encode (String.ofList (pieces.flatMap (group alphabet bits full))) =
      (pieces.map (groupOctets alphabet bits full)).flatten := by
  rw [Utf8.encode_ofList (isPlain_of_mem_flatMap h), List.map_flatMap, ← List.flatMap_def]
  simp only [map_octet_group]

end Symbols

end WalletAuth
