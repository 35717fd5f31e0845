import Mathlib
import WalletAuth.Proofs.Encoding.Base58

/-! What texts in base 58 stand for, and which of them carry a checksum that fits. Every text over the
alphabet stands for octets, leading ones for leading zero octets, and none but these. -/
namespace WalletAuth.Base58
set_option autoImplicit false

/-! ## The notation -/

/-- As many ones lead a text as zero octets lead what it stands for, and the digits and the octets behind
them are of one number. -/
inductive Spells : String → Bytes → Prop
  | mk (zeros : ℕ) {ds : List ℕ} {l : Bytes} (hds : ∀ d ∈ ds, d < 58) (hlead : ds.head? ≠ some 0)
    (hl : l.head? ≠ some 0) (hnumber : Radix.ofDigits 58 ds = Bytes.toNat l) :
    Spells (String.ofList (List.replicate zeros '1' ++ ds.map digit)) (List.replicate zeros 0 ++ l)

theorem head?_map_toNat {l : Bytes} (hl : l.head? ≠ some 0) :
    (l.map UInt8.toNat).head? ≠ some 0 := by
  intro h
  rw [List.head?_map] at h
  obtain ⟨b, hb, hzero⟩ := Option.map_eq_some_iff.mp h
  have hb0 : b = 0 := UInt8.toNat_inj.mp hzero
  exact hl (hb0 ▸ hb)

theorem map_toNat_replicate_append (zeros : ℕ) (l : Bytes) :
    (List.replicate zeros 0 ++ l).map UInt8.toNat = List.replicate zeros 0 ++ l.map UInt8.toNat := by
  rw [List.map_append, List.map_replicate]
  rfl

theorem spells_encode (l : Bytes) : Spells (encode l) l := by
  have hsplit := Bytes.replicate_append_dropWhile l
  generalize l.length - (l.dropWhile (· == 0)).length = zeros at hsplit
  have hhead := Bytes.head?_dropWhile_ne_zero l
  generalize l.dropWhile (· == 0) = rest at hsplit hhead
  subst hsplit
  have hlead : (Radix.digits 58 (Bytes.toNat rest)).head? ≠ some 0 := by
    intro h
    cases hdigits : Radix.digits 58 (Bytes.toNat rest) with
    | nil =>
      rw [hdigits] at h
      cases h
    | cons d ds =>
      rw [hdigits] at h
      exact Radix.head_digits_ne_zero (by decide) hdigits (Option.some.inj h)
  have htext : encode (List.replicate zeros 0 ++ rest) = String.ofList
      (List.replicate zeros '1' ++ (Radix.digits 58 (Bytes.toNat rest)).map digit) := by
    unfold encode
    rw [map_toNat_replicate_append, Radix.rebase_replicate_append 58 (head?_map_toNat hhead),
      List.map_append, List.map_replicate]
    rfl
  rw [htext]
  exact .mk zeros (fun d hd => Radix.lt_of_mem_digits (by decide) hd) hlead hhead
    (Radix.ofDigits_digits (by decide) _)

theorem decode_of_spells {s : String} {l : Bytes} (h : Spells s l) : decode s = .ok l := by
  cases h with
  | @mk zeros ds rest hds hlead hl hnumber =>
    have hdigits : List.replicate zeros '1' ++ ds.map digit =
        (List.replicate zeros 0 ++ ds).map digit := by
      rw [List.map_append, List.map_replicate]
      rfl
    have hlt : ∀ d ∈ List.replicate zeros 0 ++ ds, d < 58 := by
      intro d hd
      rcases List.mem_append.mp hd with hd | hd
      · rw [List.eq_of_mem_replicate hd]
        decide
      · exact hds d hd
    have hrest : Radix.digits 256 (Bytes.toNat rest) = rest.map UInt8.toNat :=
      Radix.digits_ofDigits_of_head (by decide) Bytes.lt_of_mem_map_toNat (head?_map_toNat hl)
    have hoctets : Radix.rebase 58 256 (List.replicate zeros 0 ++ ds) =
        (List.replicate zeros 0 ++ rest).map UInt8.toNat := by
      rw [Radix.rebase_replicate_append 256 hlead, hnumber, hrest, map_toNat_replicate_append]
    unfold decode
    rw [String.toList_ofList, hdigits, readDigits_map_digit hlt]
    simp only [Except.map]
    rw [hoctets, Bytes.map_ofNat_map_toNat]

/-- A text is read as the octets that it stands for. -/
theorem decode_eq_ok_iff_spells {s : String} {l : Bytes} : decode s = .ok l ↔ Spells s l := by
  constructor
  · intro h
    rw [← decode_eq_ok_iff.mp h]
    exact spells_encode l
  · exact decode_of_spells

theorem exists_digit {c : Char} (hc : c ∈ alphabet) : ∃ v < 58, digit v = c := by
  obtain ⟨v, hv, rfl⟩ := List.getElem_of_mem hc
  exact ⟨v, length_alphabet ▸ hv, List.getD_eq_getElem alphabet '1' hv⟩

theorem exists_digits {l : List Char} (hl : ∀ c ∈ l, c ∈ alphabet) :
    ∃ ds : List ℕ, (∀ d ∈ ds, d < 58) ∧ ds.map digit = l := by
  induction l with
  | nil => exact ⟨[], fun d hd => absurd hd List.not_mem_nil, rfl⟩
  | cons c l ih =>
    obtain ⟨v, hv, rfl⟩ := exists_digit (hl c List.mem_cons_self)
    obtain ⟨ds, hds, rfl⟩ := ih fun e he => hl e (List.mem_cons_of_mem _ he)
    exact ⟨v :: ds, List.forall_mem_cons.mpr ⟨hv, hds⟩, rfl⟩

theorem exists_spells {s : String} (hs : ∀ c ∈ s.toList, c ∈ alphabet) : ∃ l, Spells s l := by
  obtain ⟨ds, hds, hmap⟩ := exists_digits hs
  have hread : decode s = .ok ((Radix.rebase 58 256 ds).map UInt8.ofNat) := by
    unfold decode
    rw [← hmap, readDigits_map_digit hds]
    rfl
  exact ⟨_, decode_eq_ok_iff_spells.mp hread⟩

/-! ## The checksum -/

/-- Octets are refused that leave no room for a checksum or end in another one. -/
theorem checked_eq_error_iff {l : Bytes} {fault : Fault} : checked l = .error fault ↔
    fault = .tooShort ∧ l.length < 4 ∨ fault = .checksum ∧ 4 ≤ l.length ∧
      l.drop (l.length - 4) ≠ (Hash.sha256d (l.take (l.length - 4))).toList.take 4 := by
  unfold checked
  split
  · next hshort =>
    have hnot : ¬ 4 ≤ l.length := not_le.mpr hshort
    simp [hshort, hnot, eq_comm]
  · next hlong =>
    have hle : 4 ≤ l.length := not_lt.mp hlong
    show (if l.drop (l.length - 4) = (Hash.sha256d (l.take (l.length - 4))).toList.take 4 then
      (.ok (l.take (l.length - 4)) : Except Fault Bytes) else .error .checksum) = _ ↔ _
    split
    · next hsum => simp [hlong, hsum]
    · next hsum => simp [hlong, hle, hsum, eq_comm]

theorem checkDecode_of_spells {s : String} {l : Bytes} (h : Spells s l) : checkDecode s = checked l := by
  unfold checkDecode
  rw [decode_of_spells h]
  rfl

/-- Octets of any length come back from the text that carries them with their checksum, and no other text
carries them. A text over the alphabet is refused only for want of a checksum that fits. -/
theorem checksummed_texts_exact :
    (∀ d : Bytes, Spells (checkEncode d) (d ++ (Hash.sha256d d).toList.take 4) ∧
      checkDecode (checkEncode d) = .ok d) ∧
    (∀ (s : String) (d : Bytes), checkDecode s = .ok d → checkEncode d = s) ∧
    ∀ s : String, (∀ c ∈ s.toList, c ∈ alphabet) → ∃ l, Spells s l ∧
      ∀ fault, checkDecode s = .error fault ↔
        fault = .tooShort ∧ l.length < 4 ∨ fault = .checksum ∧ 4 ≤ l.length ∧
          l.drop (l.length - 4) ≠ (Hash.sha256d (l.take (l.length - 4))).toList.take 4 := by
  refine ⟨fun d => ⟨spells_encode _, checkDecode_eq_ok_iff.mpr rfl⟩,
    fun s d h => checkDecode_eq_ok_iff.mp h, fun s hs => ?_⟩
  obtain ⟨l, hl⟩ := exists_spells hs
  refine ⟨l, hl, fun fault => ?_⟩
  rw [checkDecode_of_spells hl, checked_eq_error_iff]

/-- Two zero octets are carried by `112edB6q` alone; three ones leave no room for a checksum, and four
ones are a checksum of nothing that does not fit. -/
theorem two_zeros_exact :
    checkDecode "112edB6q" = .ok [0, 0] ∧ checkEncode [0, 0] = "112edB6q" ∧
      checkDecode "111" = .error .tooShort ∧ checkDecode "1111" = .error .checksum := by
  have hread : checkDecode "112edB6q" = .ok [0, 0] := by decide +kernel
  have hone : '1' ∈ alphabet := by decide +kernel
  obtain ⟨l, hl, hrefused⟩ := checksummed_texts_exact.2.2 "111" (by simp [hone])
  obtain ⟨l', hl', hrefused'⟩ := checksummed_texts_exact.2.2 "1111" (by simp [hone])
  have hthree : decode "111" = .ok [0, 0, 0] := by decide +kernel
  have hfour : decode "1111" = .ok [0, 0, 0, 0] := by decide +kernel
  obtain rfl := Except.ok.inj ((decode_of_spells hl).symm.trans hthree)
  obtain rfl := Except.ok.inj ((decode_of_spells hl').symm.trans hfour)
  exact ⟨hread, checksummed_texts_exact.2.1 _ _ hread, (hrefused .tooShort).mpr (by decide),
    (hrefused' .checksum).mpr (Or.inr ⟨rfl, by decide, by decide +kernel⟩)⟩

end WalletAuth.Base58
