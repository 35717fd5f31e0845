import Mathlib
import WalletAuth.Encoding.Hex
import WalletAuth.Proofs.Except
import WalletAuth.Proofs.Text.Plain

/-! Hexadecimal text spells octets by two digits each, in either case, and reading accepts exactly such text. So
text is read as the octets it was written for, the octets tell its length, and a small first octet tells
how it begins. -/
namespace WalletAuth.Hex
set_option autoImplicit false

/-! ## Digits -/

/-- The digits of a number below 16, a letter in either case. -/
def IsDigit (b : UInt8) (v : ℕ) : Prop :=
  "0123456789abcdef".toList[v]? = some (Char.ofNat b.toNat) ∨
    "0123456789ABCDEF".toList[v]? = some (Char.ofNat b.toNat)

instance (b : UInt8) (v : ℕ) : Decidable (IsDigit b v) := by unfold IsDigit; infer_instance

/-- The code of a digit, where a letter stands `letters` places behind its number. -/
def code (letters v : ℕ) : ℕ := if v < 10 then 0x30 + v else letters + v

theorem getElem?_eq_ofNat_iff {l : List Char} {letters v : ℕ} {b : UInt8}
    (hl : ∀ v < l.length, (code letters v).isValidChar ∧
      l[v]? = some (Char.ofNat (code letters v))) :
    l[v]? = some (Char.ofNat b.toNat) ↔ v < l.length ∧ b.toNat = code letters v := by
  constructor
  · intro h
    have hv : v < l.length := (List.getElem?_eq_some_iff.mp h).1
    obtain ⟨hvalid, hget⟩ := hl v hv
    rw [hget] at h
    have hvalid' : b.toNat.isValidChar := Or.inl (b.toNat_lt.trans (by decide))
    have hcode := congrArg Char.toNat (Option.some.inj h)
    rw [Char.toNat_ofNat, if_pos hvalid, Char.toNat_ofNat, if_pos hvalid'] at hcode
    exact ⟨hv, hcode.symm⟩
  · rintro ⟨hv, hb⟩
    rw [hb]
    exact (hl v hv).2

theorem isDigit_iff {b : UInt8} {v : ℕ} :
    IsDigit b v ↔ v < 16 ∧ (b.toNat = code 0x57 v ∨ b.toNat = code 0x37 v) := by
  have hlower : "0123456789abcdef".toList[v]? = some (Char.ofNat b.toNat) ↔
      v < 16 ∧ b.toNat = code 0x57 v := getElem?_eq_ofNat_iff (by decide)
  have hupper : "0123456789ABCDEF".toList[v]? = some (Char.ofNat b.toNat) ↔
      v < 16 ∧ b.toNat = code 0x37 v := getElem?_eq_ofNat_iff (by decide)
  unfold IsDigit
  rw [hlower, hupper, and_or_left]

theorem IsDigit.lt {b : UInt8} {v : ℕ} (h : IsDigit b v) : v < 16 := (isDigit_iff.mp h).1

theorem IsDigit.toNat_of_lt {b : UInt8} {v : ℕ} (h : IsDigit b v) (hv : v < 10) :
    b.toNat = 0x30 + v := by
  have hcode := (isDigit_iff.mp h).2
  unfold code at hcode
  rwa [if_pos hv, if_pos hv, or_self] at hcode

theorem IsDigit.le_toNat {b : UInt8} {v : ℕ} (h : IsDigit b v) : 0x30 ≤ b.toNat := by
  have hcode := (isDigit_iff.mp h).2
  unfold code at hcode
  split_ifs at hcode <;> omega

theorem digitValue?_eq_some_iff {b : UInt8} {v : ℕ} : digitValue? b = some v ↔ IsDigit b v := by
  rw [isDigit_iff]
  unfold digitValue? code
  simp only [UInt8.le_iff_toNat_le, Bool.and_eq_true, decide_eq_true_eq, UInt8.reduceToNat]
  split_ifs <;> simp only [Option.some.injEq, false_iff] <;> omega

theorem isPlain_digit {v : ℕ} (hv : v < 16) : Char.IsPlain (Quoted.digit v) := by
  have hall : ∀ v < 16, Char.IsPlain (Quoted.digit v) := by decide
  exact hall v hv

theorem isDigit_digit {v : ℕ} (hv : v < 16) : IsDigit (Char.octet (Quoted.digit v)) v := by
  have hall : ∀ v < 16, (Char.octet (Quoted.digit v)).toNat = code 0x57 v := by decide
  exact isDigit_iff.mpr ⟨hv, Or.inl (hall v hv)⟩

/-! ## Two digits for each octet -/

inductive Spells : Bytes → Bytes → Prop
  | nil : Spells [] []
  | cons {a b : UInt8} {high low : ℕ} {s l : Bytes} (ha : IsDigit a high) (hb : IsDigit b low)
    (h : Spells s l) : Spells (a :: b :: s) (UInt8.ofNat (high * 16 + low) :: l)

theorem Spells.length {s l : Bytes} (h : Spells s l) : s.length = 2 * l.length := by
  induction h with
  | nil => rfl
  | cons _ _ _ ih =>
    rw [List.length_cons, List.length_cons, List.length_cons, ih]
    omega

theorem div_lt (b : UInt8) : b.toNat / 16 < 16 := by
  have hb := b.toNat_lt
  omega

theorem mod_lt (b : UInt8) : b.toNat % 16 < 16 := Nat.mod_lt _ (by decide)

theorem spells_flatMap (l : Bytes) : Spells (l.flatMap fun b => (ofOctet b).map Char.octet) l := by
  induction l with
  | nil => exact .nil
  | cons b l ih =>
    have h := Spells.cons (isDigit_digit (div_lt b)) (isDigit_digit (mod_lt b)) ih
    rwa [Nat.div_add_mod', UInt8.ofNat_toNat] at h

/-! ## Writing -/

theorem isPlain_of_mem_ofOctet {b : UInt8} : ∀ c ∈ ofOctet b, Char.IsPlain c := by
  intro c hc
  rcases List.mem_pair.mp hc with rfl | rfl
  · exact isPlain_digit (div_lt b)
  · exact isPlain_digit (mod_lt b)

theorem isPlain_of_mem_encode {l : Bytes} : ∀ c ∈ (encode l).toList, Char.IsPlain c := by
  intro c hc
  unfold encode at hc
  rw [String.toList_ofList] at hc
  obtain ⟨b, -, hb⟩ := List.mem_flatMap.mp hc
  exact isPlain_of_mem_ofOctet c hb

theorem utf8_encode (l : Bytes) :
    Utf8.encode (encode l) = l.flatMap fun b => (ofOctet b).map Char.octet := by
  have hplain := isPlain_of_mem_encode (l := l)
  unfold encode at hplain ⊢
  rw [String.toList_ofList] at hplain
  rw [Utf8.encode_ofList hplain, List.map_flatMap]

theorem length_utf8_encode (l : Bytes) : (Utf8.encode (encode l)).length = 2 * l.length := by
  rw [utf8_encode]
  exact (spells_flatMap l).length

/-! ## Reading -/

theorem readDigit_eq_ok_iff {place : ℕ} {b : UInt8} {v : ℕ} :
    readDigit place b = .ok v ↔ IsDigit b v := by
  unfold readDigit
  rw [← digitValue?_eq_some_iff]
  cases digitValue? b <;> simp

theorem readPairs_of_spells {s l : Bytes} (h : Spells s l) (place : ℕ) :
    readPairs place s = .ok l := by
  induction h generalizing place with
  | nil => rfl
  | cons ha hb _ ih =>
    rw [readPairs, readDigit_eq_ok_iff.mpr ha, readDigit_eq_ok_iff.mpr hb]
    simp only [bind, Except.bind, ih, pure, Except.pure]

theorem spells_of_readPairs {place : ℕ} {s l : Bytes} (heven : s.length % 2 = 0)
    (h : readPairs place s = .ok l) : Spells s l := by
  induction s using List.twoStepInduction generalizing place l with
  | nil =>
    cases h
    exact .nil
  | singleton b => exact absurd heven Nat.one_ne_zero
  | cons_cons a b rest ih _ =>
    rw [readPairs] at h
    obtain ⟨high, hhigh, h⟩ := bind_eq_ok_iff.mp h
    obtain ⟨low, hlow, h⟩ := bind_eq_ok_iff.mp h
    obtain ⟨octets, hoctets, h⟩ := bind_eq_ok_iff.mp h
    cases h
    rw [List.length_cons, List.length_cons] at heven
    exact .cons (readDigit_eq_ok_iff.mp hhigh) (readDigit_eq_ok_iff.mp hlow)
      (ih (by omega) hoctets)

theorem decode_eq_ok_iff {s : String} {l : Bytes} : decode s = .ok l ↔ Spells (Utf8.encode s) l := by
  unfold decode
  dsimp only
  split
  · next hodd =>
    refine iff_of_false (by simp) fun h => ?_
    rw [h.length, Nat.mul_mod_right] at hodd
    cases hodd
  · next heven =>
    exact ⟨spells_of_readPairs (Nat.mod_two_ne_one.mp heven), fun h => readPairs_of_spells h 0⟩

theorem decode_encode (l : Bytes) : decode (encode l) = .ok l := by
  rw [decode_eq_ok_iff, utf8_encode]
  exact spells_flatMap l

theorem encode_injective : Function.Injective encode := injective_of_read decode decode_encode

theorem encode_ne_empty {l : Bytes} (hl : l ≠ []) : encode l ≠ "" := encode_injective.ne hl

/-- The text of octets is twice as long, and a first octet below ten is spelled by its figures. -/
theorem utf8_encode_of_decode_cons {s : String} {b : UInt8} {l : Bytes} (hb : b.toNat < 10)
    (h : decode s = .ok (b :: l)) : (Utf8.encode s).length = 2 * (l.length + 1) ∧
      ∃ rest, Utf8.encode s = 0x30 :: UInt8.ofNat (0x30 + b.toNat) :: rest := by
  have hspells := decode_eq_ok_iff.mp h
  refine ⟨hspells.length, ?_⟩
  generalize Utf8.encode s = octets at hspells
  cases hspells with
  | @cons x y high low rest _ hx hy _ =>
    have hhigh := hx.lt
    have hlow := hy.lt
    have hvalue : (UInt8.ofNat (high * 16 + low)).toNat = high * 16 + low :=
      UInt8.toNat_ofNat_of_lt' (by show _ < 256; omega)
    rw [hvalue] at hb ⊢
    have hhigh0 : high = 0 := by omega
    subst hhigh0
    rw [Nat.zero_mul, Nat.zero_add] at hb ⊢
    refine ⟨rest, ?_⟩
    rw [← hy.toNat_of_lt hb, UInt8.ofNat_toNat,
      UInt8.toNat_inj.mp ((hx.toNat_of_lt (by decide)).trans (rfl : _ = (0x30 : UInt8).toNat))]

end WalletAuth.Hex
