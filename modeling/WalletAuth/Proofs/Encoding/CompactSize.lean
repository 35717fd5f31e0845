import Mathlib
import WalletAuth.Encoding.CompactSize
import WalletAuth.Proofs.Number.Octets

/-! Written numbers and framed pieces are told apart from whatever follows them. The reader takes every
form of a number, of which the written one is the shortest, and a piece behind its length is read back
whole. -/
namespace WalletAuth.CompactSize
set_option autoImplicit false

variable {v : UInt64} {l rest form : Bytes} {n : ℕ}

/-! ## Octets with the least significant first -/

@[simp] theorem length_littleEndian (n : ℕ) (v : UInt64) : (littleEndian n v).length = n := by
  simp [littleEndian]

theorem take?_eq_some_iff (hn : n ≤ 8) :
    take? n l = some (v, rest) ↔ v.toNat < 256 ^ n ∧ l = littleEndian n v ++ rest := by
  constructor
  · intro h
    obtain ⟨hlength, h⟩ := Option.ite_none_right_eq_some.mp h
    obtain ⟨hv, hrest⟩ := Prod.mk.inj (Option.some.inj h)
    have hfront : (l.take n).reverse.length = n := by
      rw [List.length_reverse, List.length_take_of_le hlength]
    have hlt : Bytes.toNat (l.take n).reverse < 256 ^ n := by
      have h := Bytes.toNat_lt (l.take n).reverse
      rwa [hfront] at h
    have hword : 256 ^ n ≤ 2 ^ 64 := Nat.pow_le_pow_right (by decide) hn
    have hvalue : v.toNat = Bytes.toNat (l.take n).reverse := by
      rw [← hv, UInt64.toNat_ofNat_of_lt' (hlt.trans_le hword)]
    have hoctets : littleEndian n v = l.take n := by
      have h := Bytes.ofNat_toNat (l.take n).reverse
      rw [hfront] at h
      unfold littleEndian
      rw [hvalue, h, List.reverse_reverse]
    rw [hvalue, hoctets, ← hrest]
    exact ⟨hlt, (List.take_append_drop n l).symm⟩
  · rintro ⟨hv, rfl⟩
    have hlength := length_littleEndian n v
    have hvalue : Bytes.toNat (littleEndian n v).reverse = v.toNat := by
      unfold littleEndian
      rw [List.reverse_reverse, Bytes.toNat_ofNat, Nat.mod_eq_of_lt hv]
    unfold take?
    rw [if_pos (by simp), List.take_left' hlength, List.drop_left' hlength, hvalue,
      UInt64.ofNat_toNat]

/-! ## The forms of a number -/

/-- The octets that announce a number of two, four or eight octets. -/
inductive Announces : UInt8 → ℕ → Prop
  | two : Announces 0xfd 2
  | four : Announces 0xfe 4
  | eight : Announces 0xff 8

theorem Announces.le_eight {marker : UInt8} (h : Announces marker n) : n ≤ 8 := by
  cases h <;> decide

theorem Announces.unique {a b : UInt8} (ha : Announces a n) (hb : Announces b n) : a = b := by
  cases ha <;> cases hb <;> rfl

theorem exists_announces {b : UInt8} (hb : ¬ b < 0xfd) : ∃ n, Announces b n := by
  have hlt := b.toNat_lt
  have hge : 0xfd ≤ b.toNat := UInt8.le_iff_toNat_le.mp (UInt8.not_lt.mp hb)
  have hvalue : b.toNat = 0xfd ∨ b.toNat = 0xfe ∨ b.toNat = 0xff := by omega
  rcases hvalue with h | h | h
  · exact ⟨2, (UInt8.toNat.inj h : b = 0xfd) ▸ .two⟩
  · exact ⟨4, (UInt8.toNat.inj h : b = 0xfe) ▸ .four⟩
  · exact ⟨8, (UInt8.toNat.inj h : b = 0xff) ▸ .eight⟩

theorem decode?_of_lt {b : UInt8} (hb : b < 0xfd) (rest : Bytes) :
    decode? (b :: rest) = some (b.toUInt64, rest) := if_pos hb

theorem decode?_of_announces {marker : UInt8} (h : Announces marker n) (rest : Bytes) :
    decode? (marker :: rest) = take? n rest := by
  cases h <;> rfl

/-- The forms of a number: the number itself as one octet, or any announced count of octets that it fits
in. -/
inductive Holds (v : UInt64) : Bytes → Prop
  | bare (h : v < 0xfd) : Holds v [v.toUInt8]
  | announced {marker : UInt8} {n : ℕ} (hmarker : Announces marker n) (h : v.toNat < 256 ^ n) :
    Holds v (marker :: littleEndian n v)

theorem decode?_eq_some_iff :
    decode? l = some (v, rest) ↔ ∃ form, Holds v form ∧ l = form ++ rest := by
  constructor
  · intro h
    cases l with
    | nil => cases h
    | cons b tail =>
      by_cases hb : b < 0xfd
      · rw [decode?_of_lt hb] at h
        obtain ⟨rfl, rfl⟩ := Prod.mk.inj (Option.some.inj h)
        have hbare : Holds b.toUInt64 [b.toUInt64.toUInt8] := .bare (UInt8.toUInt64_lt.mpr hb)
        rw [UInt8.toUInt8_toUInt64] at hbare
        exact ⟨[b], hbare, rfl⟩
      · obtain ⟨n, hn⟩ := exists_announces hb
        rw [decode?_of_announces hn, take?_eq_some_iff hn.le_eight] at h
        obtain ⟨hv, rfl⟩ := h
        exact ⟨_, .announced hn hv, rfl⟩
  · rintro ⟨form, hform, rfl⟩
    cases hform with
    | bare h =>
      have hvalue : v.toUInt8.toUInt64 = v := by
        have hlt : v.toNat < 0xfd := UInt64.lt_iff_toNat_lt.mp h
        apply UInt64.toNat.inj
        rw [UInt8.toNat_toUInt64, UInt64.toNat_toUInt8, Nat.mod_eq_of_lt (hlt.trans (by decide))]
      have hb : v.toUInt8 < 0xfd := by
        rw [← UInt8.toUInt64_lt, hvalue]
        exact h
      rw [List.singleton_append, decode?_of_lt hb, hvalue]
    | announced hmarker h =>
      rw [List.cons_append, decode?_of_announces hmarker]
      exact (take?_eq_some_iff hmarker.le_eight).mpr ⟨h, rfl⟩

theorem holds_encode (v : UInt64) : Holds v (encode v) := by
  unfold encode
  split
  · next h => exact .bare h
  split
  · next h => exact .announced .two (Nat.lt_succ_of_le (UInt64.le_iff_toNat_le.mp h))
  split
  · next h => exact .announced .four (Nat.lt_succ_of_le (UInt64.le_iff_toNat_le.mp h))
  · exact .announced .eight v.toNat_lt

theorem decode?_encode (v : UInt64) (rest : Bytes) :
    decode? (encode v ++ rest) = some (v, rest) :=
  decode?_eq_some_iff.mpr ⟨_, holds_encode v, rfl⟩

/-! ## The shortest form -/

theorem length_encode (v : UInt64) : (encode v).length = width v := by
  unfold encode width
  split
  · rfl
  split
  · rw [List.length_cons, length_littleEndian]
  split
  · rw [List.length_cons, length_littleEndian]
  · rw [List.length_cons, length_littleEndian]

theorem Holds.width_le (h : Holds v form) : width v ≤ form.length := by
  cases h with
  | bare h =>
    unfold width
    rw [if_pos h]
    exact le_rfl
  | announced hmarker h =>
    rw [List.length_cons, length_littleEndian]
    unfold width
    cases hmarker with
    | two =>
      have hshort : v ≤ 0xffff := UInt64.le_iff_toNat_le.mpr (Nat.le_of_lt_succ h)
      rw [if_pos hshort]
      split <;> decide
    | four =>
      have hmiddle : v ≤ 0xffffffff := UInt64.le_iff_toNat_le.mpr (Nat.le_of_lt_succ h)
      rw [if_pos hmiddle]
      split
      · decide
      · split <;> decide
    | eight =>
      split
      · decide
      split
      · decide
      · split <;> decide

/-- No number has two forms of one length. -/
theorem Holds.eq_of_length {form' : Bytes} (h : Holds v form) (h' : Holds v form')
    (hlength : form.length = form'.length) : form = form' := by
  cases h with
  | bare _ =>
    cases h' with
    | bare _ => rfl
    | announced hmarker _ => cases hmarker <;> cases hlength
  | announced hmarker _ =>
    cases h' with
    | bare _ => cases hmarker <;> cases hlength
    | announced hmarker' _ =>
      rw [List.length_cons, List.length_cons, length_littleEndian, length_littleEndian] at hlength
      obtain rfl := Nat.succ.inj hlength
      rw [hmarker.unique hmarker']

theorem eq_encode_or_lt_of_decode? (h : decode? l = some (v, rest)) :
    l = encode v ++ rest ∨ width v + rest.length < l.length := by
  obtain ⟨form, hform, rfl⟩ := decode?_eq_some_iff.mp h
  rcases hform.width_le.eq_or_lt with hshortest | hlonger
  · rw [← length_encode] at hshortest
    rw [(holds_encode v).eq_of_length hform hshortest]
    exact Or.inl rfl
  · rw [List.length_append]
    exact Or.inr (Nat.add_lt_add_right hlonger _)

/-! ## Framed pieces -/

/-- Reads a length and the piece that is as long, and leaves the octets after them. -/
def unframe? (l : Bytes) : Option (Bytes × Bytes) := do
  let (length, rest) ← decode? l
  if length.toNat ≤ rest.length then some (rest.take length.toNat, rest.drop length.toNat) else none

theorem decode?_frame_append (piece rest : Bytes) :
    decode? (frame piece ++ rest) = some (UInt64.ofNat piece.length, piece ++ rest) := by
  unfold frame ofLength
  rw [List.append_assoc, decode?_encode]

theorem unframe?_frame_append {piece : Bytes} (h : piece.length < UInt64.size) (rest : Bytes) :
    unframe? (frame piece ++ rest) = some (piece, rest) := by
  have hlength : (UInt64.ofNat piece.length).toNat = piece.length := UInt64.toNat_ofNat_of_lt' h
  unfold unframe?
  simp only [decode?_frame_append, bind, Option.bind_some, hlength]
  rw [if_pos (by simp), List.take_left' rfl, List.drop_left' rfl]

/-- The length ends where the piece begins, even if the piece is too long for its length to be written. -/
theorem frame_injective : Function.Injective frame := by
  intro a b h
  have ha := decode?_frame_append a []
  rw [h, decode?_frame_append b []] at ha
  have hpiece := (Prod.mk.inj (Option.some.inj ha)).2
  rw [List.append_nil, List.append_nil] at hpiece
  exact hpiece.symm

end WalletAuth.CompactSize
