import Mathlib
import WalletAuth.Hash.Blocks
import WalletAuth.Proofs.Number.Radix

/-! Octet strings and the numbers they stand for: strings of one length and the numbers below a power
of 256 correspond one to one, and a string in two parts is known from its parts. -/
namespace WalletAuth
set_option autoImplicit false

namespace Bytes

theorem lt_of_mem_map_toNat {l : Bytes} : ∀ d ∈ l.map UInt8.toNat, d < 256 := by
  intro d hd
  obtain ⟨b, -, rfl⟩ := List.mem_map.mp hd
  exact b.toNat_lt

theorem map_ofNat_map_toNat (l : Bytes) : (l.map UInt8.toNat).map UInt8.ofNat = l := by
  simp [Function.comp_def]

theorem map_toNat_map_ofNat {ds : List ℕ} (h : ∀ d ∈ ds, d < 256) :
    (ds.map UInt8.ofNat).map UInt8.toNat = ds := by
  rw [List.map_map]
  refine (List.map_congr_left fun d hd => ?_).trans (List.map_id ds)
  exact UInt8.toNat_ofNat_of_lt' (h d hd)

theorem toNat_cons (b : UInt8) (l : Bytes) :
    toNat (b :: l) = b.toNat * 256 ^ l.length + toNat l := by
  unfold toNat
  rw [List.map_cons, Radix.ofDigits_cons, List.length_map]

theorem toNat_lt (l : Bytes) : toNat l < 256 ^ l.length := by
  have h := Radix.ofDigits_lt (lt_of_mem_map_toNat (l := l))
  rwa [List.length_map] at h

theorem toNat_ofNat (width v : ℕ) : toNat (ofNat width v) = v % 256 ^ width := by
  unfold toNat ofNat
  rw [map_toNat_map_ofNat fun d hd => Radix.lt_of_mem_toDigits (by decide) hd,
    Radix.ofDigits_toDigits]

theorem ofNat_toNat (l : Bytes) : ofNat l.length (toNat l) = l := by
  have h := Radix.toDigits_ofDigits (lt_of_mem_map_toNat (l := l))
  rw [List.length_map] at h
  unfold toNat ofNat
  rw [h, map_ofNat_map_toNat]

/-! ## Leading zeros -/

/-- Nothing but zeros stands before what is left. -/
theorem replicate_append_dropWhile (l : Bytes) :
    List.replicate (l.length - (l.dropWhile (· == 0)).length) 0 ++ l.dropWhile (· == 0) = l := by
  have hsplit := List.takeWhile_append_dropWhile (p := fun b : UInt8 => b == 0) (l := l)
  have hlength : (l.takeWhile (· == 0)).length = l.length - (l.dropWhile (· == 0)).length := by
    have h := congrArg List.length hsplit
    rw [List.length_append] at h
    omega
  have hzeros : l.takeWhile (· == 0) = List.replicate (l.takeWhile (· == 0)).length 0 := by
    refine List.eq_replicate_of_mem fun b hb => ?_
    have hb : (b == 0) = true := List.mem_takeWhile_imp (p := fun b : UInt8 => b == 0) hb
    exact eq_of_beq hb
  rw [hlength] at hzeros
  rw [← hzeros]
  exact hsplit

theorem head?_dropWhile_ne_zero (l : Bytes) : (l.dropWhile (· == 0)).head? ≠ some 0 := by
  intro h
  have hnot := List.head?_dropWhile_not (fun b : UInt8 => b == 0) l
  rw [h] at hnot
  cases hnot

theorem toNat_replicate_zero (n : ℕ) : toNat (List.replicate n 0) = 0 := by
  induction n with
  | zero => rfl
  | succ n ih => rw [List.replicate_succ, toNat_cons, ih, UInt8.toNat_zero, zero_mul]

theorem dropWhile_ne_nil {l : Bytes} (h : toNat l ≠ 0) : l.dropWhile (· == 0) ≠ [] := by
  intro hnil
  have hl := replicate_append_dropWhile l
  rw [hnil, List.append_nil] at hl
  rw [← hl, toNat_replicate_zero] at h
  exact h rfl

end Bytes

/-! ## Strings of one length -/

namespace Octets

variable {n m : ℕ}

theorem ofList?_of_length {l : Bytes} (h : l.length = n) : ofList? n l = some ⟨l, h⟩ := dif_pos h

theorem toList_ne_nil (hn : n ≠ 0) (o : Octets n) : o.toList ≠ [] := by
  intro h
  have hlength := o.length_toList
  rw [h] at hlength
  exact hn hlength.symm

theorem toNat_lt (o : Octets n) : o.toNat < 256 ^ n := by
  have h := Bytes.toNat_lt o.toList
  rwa [o.length_toList] at h

theorem toNat_ofNat {v : ℕ} (h : v < 256 ^ n) : (ofNat n v).toNat = v := by
  unfold toNat ofNat
  rw [Bytes.toNat_ofNat, Nat.mod_eq_of_lt h]

@[simp] theorem ofNat_toNat (o : Octets n) : ofNat n o.toNat = o := by
  ext1
  have h := Bytes.ofNat_toNat o.toList
  rwa [o.length_toList] at h

theorem toNat_injective : Function.Injective (toNat : Octets n → ℕ) := by
  intro a b h
  rw [← ofNat_toNat a, h, ofNat_toNat]

/-! ## Two parts -/

@[simp] theorem toList_append (a : Octets n) (b : Octets m) :
    (a.append b).toList = a.toList ++ b.toList := rfl

@[simp] theorem front_append (a : Octets n) (b : Octets m) : (a.append b).front = a := by
  ext1
  exact List.take_left' a.length_toList

@[simp] theorem back_append (a : Octets n) (b : Octets m) : (a.append b).back = b := by
  ext1
  exact List.drop_left' a.length_toList

end Octets

/-! ## Words -/

namespace Hash

theorem word32_eq (w : UInt32) : word32 w = (Octets.ofNat 4 w.toNat).toList := by
  have hoctet : ∀ (v : UInt32) (d : ℕ), v.toNat % 256 = d % 256 → v.toUInt8 = UInt8.ofNat d := by
    intro v d h
    apply UInt8.toNat.inj
    simpa using h
  simp only [Octets.ofNat, Bytes.ofNat, Radix.toDigits_succ, Radix.toDigits_zero, List.nil_append,
    List.cons_append, List.map_cons, List.map_nil, word32]
  congr 1
  · exact hoctet _ _ (by simp [Nat.shiftRight_eq_div_pow, Nat.div_div_eq_div_mul])
  congr 1
  · exact hoctet _ _ (by simp [Nat.shiftRight_eq_div_pow, Nat.div_div_eq_div_mul])
  congr 1
  · exact hoctet _ _ (by simp [Nat.shiftRight_eq_div_pow])
  congr 1
  exact hoctet _ _ (by simp)

theorem word64_eq (w : UInt64) : word64 w = (Octets.ofNat 8 w.toNat).toList := by
  have hhigh : (w >>> 32).toUInt32.toNat = w.toNat / 256 ^ 4 := by
    have hshift : (w >>> 32).toNat = w.toNat / 256 ^ 4 := by
      rw [UInt64.toNat_shiftRight, Nat.shiftRight_eq_div_pow]
      rfl
    have hlt : w.toNat / 256 ^ 4 < 2 ^ 32 := Nat.div_lt_of_lt_mul w.toNat_lt
    rw [UInt64.toNat_toUInt32, hshift, Nat.mod_eq_of_lt hlt]
  have hlow : w.toUInt32.toNat = w.toNat % 256 ^ 4 := UInt64.toNat_toUInt32 w
  unfold word64
  rw [word32_eq, word32_eq, hhigh, hlow]
  simp only [Octets.ofNat, Bytes.ofNat]
  rw [Radix.toDigits_mod (by decide), ← List.map_append, ← Radix.toDigits_add]

end Hash

end WalletAuth
