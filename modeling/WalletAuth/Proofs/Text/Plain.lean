import Mathlib
import WalletAuth.Text.Utf8

/-! Plain texts: those of ASCII characters from the blank to the tilde, and of tabs. Each character is one
octet, and the octets give the characters back. All encoded texts are of this kind. -/
namespace WalletAuth
set_option autoImplicit false

def Char.octet (c : Char) : UInt8 := UInt8.ofNat c.toNat

def Char.IsPlain (c : Char) : Prop := c.toNat = 0x09 ∨ 0x20 ≤ c.toNat ∧ c.toNat ≤ 0x7e

instance (c : Char) : Decidable (Char.IsPlain c) :=
  inferInstanceAs (Decidable (c.toNat = 0x09 ∨ 0x20 ≤ c.toNat ∧ c.toNat ≤ 0x7e))

theorem Char.octet_ofNat (b : UInt8) : octet (Char.ofNat b.toNat) = b := by
  have hvalid : b.toNat.isValidChar := Or.inl (b.toNat_lt.trans (by decide))
  unfold octet
  rw [Char.toNat_ofNat, if_pos hvalid, UInt8.ofNat_toNat]

namespace Char.IsPlain

theorem toNat_le {c : Char} (h : IsPlain c) : c.toNat ≤ 0x7e := by
  unfold IsPlain at h
  omega

theorem toNat_octet {c : Char} (h : IsPlain c) : (octet c).toNat = c.toNat :=
  UInt8.toNat_ofNat_of_lt' (h.toNat_le.trans_lt (by decide))

theorem ofNat_octet {c : Char} (h : IsPlain c) : Char.ofNat (octet c).toNat = c := by
  rw [h.toNat_octet, Char.ofNat_toNat]

theorem utf8EncodeChar {c : Char} (h : IsPlain c) : String.utf8EncodeChar c = [octet c] := by
  have hascii : c.val.toNat ≤ 0x7f := h.toNat_le.trans (by decide)
  unfold String.utf8EncodeChar
  rw [if_pos hascii]
  rfl

end Char.IsPlain

/-! ## The octets of a text -/

theorem Utf8.encode_eq (s : String) : encode s = s.toByteArray.data.toList := by
  rw [← String.utf8Encode_toList, List.utf8Encode]
  simp [encode, List.data_toByteArray]

theorem Utf8.encode_injective : Function.Injective encode := by
  intro s t h
  rw [encode_eq, encode_eq] at h
  exact String.toByteArray_inj.mp (ByteArray.ext (Array.toList_inj.mp h))

theorem Utf8.encode_append (s t : String) : encode (s ++ t) = encode s ++ encode t := by
  unfold encode
  rw [String.toList_append, List.flatMap_append]

theorem Utf8.encode_ofList {l : List Char} (h : ∀ c ∈ l, Char.IsPlain c) :
    encode (String.ofList l) = l.map Char.octet := by
  unfold encode
  rw [String.toList_ofList]
  induction l with
  | nil => rfl
  | cons c l ih =>
    rw [List.flatMap_cons, (h c List.mem_cons_self).utf8EncodeChar,
      ih fun d hd => h d (List.mem_cons_of_mem c hd)]
    rfl

end WalletAuth
