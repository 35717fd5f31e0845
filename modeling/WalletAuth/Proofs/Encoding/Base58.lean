import Mathlib
import WalletAuth.Encoding.Base58
import WalletAuth.Proofs.Encoding.Symbols
import WalletAuth.Proofs.Except
import WalletAuth.Proofs.Number.Octets
import WalletAuth.Proofs.Text.Plain

/-! Text in base 58 is a bijection. Reading accepts exactly the texts that are written, plain and with a
checksum, so octets have one text and a text spells one octet string. -/
namespace WalletAuth.Base58
set_option autoImplicit false

/-! ## Digits -/

theorem length_alphabet : alphabet.length = 58 := by decide

/-- The digits stand in the order of their codes. -/
theorem nodup_alphabet : alphabet.Nodup := by
  have hsorted : alphabet.IsChain (· < ·) := by decide
  exact hsorted.pairwise.imp fun h => h.ne

theorem digit_mem {v : ℕ} (hv : v < 58) : digit v ∈ alphabet := by
  rw [← length_alphabet] at hv
  unfold digit
  rw [List.getD_eq_getElem alphabet '1' hv]
  exact List.getElem_mem hv

theorem toNat_digit {v : ℕ} (hv : v < 58) : 0x31 ≤ (digit v).toNat ∧ (digit v).toNat ≤ 0x7a := by
  have hall : alphabet.all (fun c => 0x31 ≤ c.toNat && c.toNat ≤ 0x7a) = true := by decide
  simpa using List.all_eq_true.mp hall (digit v) (digit_mem hv)

theorem value?_eq_some_iff {c : Char} {v : ℕ} : value? c = some v ↔ v < 58 ∧ digit v = c := by
  have h := Alphabet.idxOf?_eq_some_iff_getD nodup_alphabet '1' (a := c) (i := v)
  rwa [length_alphabet] at h

theorem isPlain_digit {v : ℕ} (hv : v < 58) : Char.IsPlain (digit v) := by
  have hrange := toNat_digit hv
  unfold Char.IsPlain
  omega

theorem readDigits_map_digit {ds : List ℕ} (hds : ∀ d ∈ ds, d < 58) (place : ℕ) :
    readDigits place (ds.map digit) = .ok ds := by
  induction ds generalizing place with
  | nil => rfl
  | cons d ds ih =>
    have hd := hds d List.mem_cons_self
    have hascii : ¬ 0x7f < (digit d).toNat := by
      have hle := (isPlain_digit hd).toNat_le
      omega
    rw [List.map_cons, readDigits, if_neg hascii,
      value?_eq_some_iff.mpr ⟨hd, rfl⟩, ih fun e he => hds e (List.mem_cons_of_mem d he)]
    rfl

theorem map_digit_of_readDigits {place : ℕ} {l : List Char} {ds : List ℕ}
    (h : readDigits place l = .ok ds) : (∀ d ∈ ds, d < 58) ∧ ds.map digit = l := by
  induction l generalizing place ds with
  | nil =>
    cases h
    exact ⟨fun d hd => absurd hd List.not_mem_nil, rfl⟩
  | cons c l ih =>
    rw [readDigits] at h
    split at h
    · cases h
    · cases hc : value? c with
      | none =>
        rw [hc] at h
        cases h
      | some v =>
        rw [hc] at h
        obtain ⟨hv, hdigit⟩ := value?_eq_some_iff.mp hc
        obtain ⟨rest, hrest, rfl⟩ := map_eq_ok_iff.mp h
        obtain ⟨hlt, hmap⟩ := ih hrest
        exact ⟨List.forall_mem_cons.mpr ⟨hv, hlt⟩, by rw [List.map_cons, hdigit, hmap]⟩

/-! ## Octets -/

theorem decode_encode (l : Bytes) : decode (encode l) = .ok l := by
  have hbytes := Bytes.lt_of_mem_map_toNat (l := l)
  have hread : readDigits 0 ((Radix.rebase 256 58 (l.map UInt8.toNat)).map digit) =
      .ok (Radix.rebase 256 58 (l.map UInt8.toNat)) :=
    readDigits_map_digit (fun d hd => Radix.lt_of_mem_rebase (by decide) hd) 0
  unfold decode encode
  rw [String.toList_ofList, hread]
  simp only [Except.map]
  rw [Radix.rebase_rebase (by decide) (by decide) hbytes, Bytes.map_ofNat_map_toNat]

theorem isPlain_of_mem_encode {l : Bytes} : ∀ c ∈ (encode l).toList, Char.IsPlain c := by
  intro c hc
  unfold encode at hc
  rw [String.toList_ofList] at hc
  obtain ⟨d, hd, rfl⟩ := List.mem_map.mp hc
  exact isPlain_digit (Radix.lt_of_mem_rebase (by decide) hd)

theorem utf8_encode (l : Bytes) : Utf8.encode (encode l) =
    (Radix.rebase 256 58 (l.map UInt8.toNat)).map fun d => Char.octet (digit d) := by
  have hplain := isPlain_of_mem_encode (l := l)
  unfold encode at hplain ⊢
  rw [String.toList_ofList] at hplain
  rw [Utf8.encode_ofList hplain, List.map_map]
  rfl

/-- Zero and the letters that look like it are no digits. -/
theorem octet_digit_ne_zero {v : ℕ} (hv : v < 58) : Char.octet (digit v) ≠ 0x30 := by
  intro h
  have hcode := (isPlain_digit hv).toNat_octet
  rw [h] at hcode
  have hrange := (toNat_digit hv).1
  rw [← hcode] at hrange
  exact absurd hrange (by decide)

theorem ne_zero_of_mem_encode {l : Bytes} {b : UInt8} (hb : b ∈ Utf8.encode (encode l)) :
    b ≠ 0x30 := by
  rw [utf8_encode] at hb
  obtain ⟨d, hd, rfl⟩ := List.mem_map.mp hb
  exact octet_digit_ne_zero (Radix.lt_of_mem_rebase (by decide) hd)

/-- Without leading zeros the length of a text is the count of digits. -/
theorem length_utf8_encode {b : UInt8} {l : Bytes} {k : ℕ} (hb : b ≠ 0)
    (hlow : 58 ^ k ≤ Bytes.toNat (b :: l)) (hhigh : Bytes.toNat (b :: l) < 58 ^ (k + 1)) :
    (Utf8.encode (encode (b :: l))).length = k + 1 := by
  have hlead : (b.toNat == 0) = false := by
    rw [beq_eq_false_iff_ne]
    exact fun h => hb (UInt8.toNat_inj.mp h)
  have hnone : ((b :: l).map UInt8.toNat).takeWhile (· == 0) = [] := by
    rw [List.map_cons, List.takeWhile_cons, hlead, if_neg Bool.false_ne_true]
  rw [utf8_encode, List.length_map, Radix.rebase, hnone, List.nil_append]
  exact Radix.length_digits (by decide) hlow hhigh

theorem encode_of_decode {s : String} {l : Bytes} (h : decode s = .ok l) : encode l = s := by
  obtain ⟨ds, hread, rfl⟩ := map_eq_ok_iff.mp h
  obtain ⟨hlt, hmap⟩ := map_digit_of_readDigits hread
  unfold encode
  rw [Bytes.map_toNat_map_ofNat fun d hd => Radix.lt_of_mem_rebase (by decide) hd,
    Radix.rebase_rebase (by decide) (by decide) hlt, hmap, String.ofList_toList]

/-- A text spells the octets it is the text of. -/
theorem decode_eq_ok_iff {s : String} {l : Bytes} : decode s = .ok l ↔ encode l = s := by
  constructor
  · exact encode_of_decode
  · rintro rfl
    exact decode_encode l

/-! ## With a checksum -/

theorem length_checksum (l : Bytes) : (checksum l).length = 4 := by
  unfold checksum
  rw [List.length_take, Octets.length_toList]
  rfl

theorem checked_eq_ok_iff {l payload : Bytes} :
    checked l = .ok payload ↔ payload ++ checksum payload = l := by
  constructor
  · intro h
    unfold checked at h
    split at h
    · cases h
    · dsimp only at h
      split at h
      · next hsum =>
        cases h
        rw [← hsum, List.take_append_drop]
      · cases h
  · rintro rfl
    have hlen : (payload ++ checksum payload).length - 4 = payload.length := by
      rw [List.length_append, length_checksum]
      omega
    have hle : ¬ (payload ++ checksum payload).length < 4 := by
      rw [List.length_append, length_checksum]
      omega
    rw [checked, if_neg hle]
    simp only [hlen, List.take_left, List.drop_left, if_true]

/-- A text with a checksum carries the octets it is the text of. -/
theorem checkDecode_eq_ok_iff {s : String} {payload : Bytes} :
    checkDecode s = .ok payload ↔ checkEncode payload = s := by
  unfold checkDecode checkEncode
  rw [bind_eq_ok_iff]
  constructor
  · rintro ⟨l, hl, hpayload⟩
    rw [checked_eq_ok_iff.mp hpayload, decode_eq_ok_iff.mp hl]
  · rintro rfl
    exact ⟨_, decode_encode _, checked_eq_ok_iff.mpr rfl⟩

theorem checkEncode_ne_empty (l : Bytes) : checkEncode l ≠ "" := by
  intro h
  have hempty : decode "" = .ok [] := decode_eq_ok_iff.mpr rfl
  rw [decode_eq_ok_iff.mpr h] at hempty
  have hlen := congrArg List.length (Except.ok.inj hempty)
  rw [List.length_append, length_checksum, List.length_nil] at hlen
  omega

end WalletAuth.Base58
