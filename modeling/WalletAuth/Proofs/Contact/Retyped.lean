import Mathlib
import WalletAuth.Contact.Pairing
import WalletAuth.Proofs.Contact.Code
import WalletAuth.Proofs.Encoding.Base32

/-! Secrets typed again. A text in base 32 that comes with white space around it, with letters in the other case
or without all of its padding is cleaned up into the text that it was, because padding never makes up a whole
group. So it is the same key and leads to the same codes. -/
namespace WalletAuth
set_option autoImplicit false

/-! ## White space -/

theorem dropWhile_isBlank_append {blank l : List Char} (hblank : ∀ c ∈ blank, isBlank c = true)
    (hl : ∀ c ∈ l, isBlank c = false) : (blank ++ l).dropWhile isBlank = l := by
  rw [List.dropWhile_append_of_pos hblank, List.dropWhile_eq_self_iff]
  intro hpos
  simp [hl _ (List.getElem_mem hpos)]

theorem trimBlanks_append {before l after : List Char} (hbefore : ∀ c ∈ before, isBlank c = true)
    (hl : ∀ c ∈ l, isBlank c = false) (hafter : ∀ c ∈ after, isBlank c = true) :
    trimBlanks (before ++ l ++ after) = l := by
  have hfront : (before ++ l ++ after).dropWhile isBlank = (l ++ after).dropWhile isBlank := by
    rw [List.append_assoc, List.dropWhile_append_of_pos hbefore]
  have hback : ((l ++ after).reverse.dropWhile isBlank).reverse = l := by
    rw [List.reverse_append, dropWhile_isBlank_append, List.reverse_reverse]
    · exact fun c hc => hafter c (List.mem_reverse.mp hc)
    · exact fun c hc => hl c (List.mem_reverse.mp hc)
  unfold trimBlanks
  rw [hfront]
  cases l with
  | nil =>
    rw [List.nil_append, List.dropWhile_eq_nil_iff.mpr hafter]
    rfl
  | cons c l =>
    have hc := hl c List.mem_cons_self
    rw [List.cons_append, List.dropWhile_cons_of_neg (by simp [hc]), ← List.cons_append, hback]

namespace Contact

/-! ## The same secret -/

/-- The character itself or, of an ASCII letter, the one in the other case. -/
def Recased (c d : Char) : Prop := d ∈ [c, c.toLower, c.toUpper]

instance (c d : Char) : Decidable (Recased c d) :=
  inferInstanceAs (Decidable (d ∈ [c, c.toLower, c.toUpper]))

/-- What may have become of a text in base 32 when it is typed again: some of the padding at its end is left
out, letters are in either case, and there is white space around it. -/
inductive Retyped (text again : String) : Prop
  | intro (kept : List Char) (missing : ℕ) (before typed after : List Char)
    (htext : text.toList = kept ++ List.replicate missing '=')
    (htyped : List.Forall₂ Recased kept typed)
    (hbefore : ∀ c ∈ before, isBlank c = true) (hafter : ∀ c ∈ after, isBlank c = true)
    (hagain : again.toList = before ++ typed ++ after)

theorem Retyped.refl (text : String) : Retyped text text := by
  have htyped : List.Forall₂ Recased text.toList text.toList :=
    List.forall₂_same.mpr fun c _ => List.mem_cons_self
  have hblank : ∀ c ∈ ([] : List Char), isBlank c = true := List.forall_mem_nil _
  exact .intro text.toList 0 [] text.toList [] (List.append_nil _).symm htyped hblank hblank
    (List.append_nil _).symm

variable {l : Bytes} {text : String} {kept typed : List Char}

theorem upperAscii_of_recased {c d : Char} (hc : c ∈ Base32.alphabet ∨ c = '=') (h : Recased c d) :
    Char.IsPlain d ∧ isBlank d = false ∧ upperAscii (Char.octet d) = Char.octet c := by
  have hall : ('=' :: Base32.alphabet).all (fun c => [c, c.toLower, c.toUpper].all fun d =>
      decide (Char.IsPlain d ∧ isBlank d = false ∧ upperAscii (Char.octet d) = Char.octet c)) = true := by
    decide
  rw [List.all_eq_true] at hall
  have hcase := List.all_eq_true.mp (hall c (List.mem_cons.mpr hc.symm)) d h
  exact of_decide_eq_true hcase

theorem map_upperAscii_of_recased (hkept : ∀ c ∈ kept, c ∈ Base32.alphabet ∨ c = '=')
    (h : List.Forall₂ Recased kept typed) :
    (∀ d ∈ typed, isBlank d = false) ∧
      (Utf8.encode (String.ofList typed)).map upperAscii = kept.map Char.octet := by
  have hall : (∀ d ∈ typed, Char.IsPlain d ∧ isBlank d = false) ∧
      typed.map (fun d => upperAscii (Char.octet d)) = kept.map Char.octet := by
    induction h with
    | nil => exact ⟨List.forall_mem_nil _, rfl⟩
    | @cons c d kept typed hcase _ ih =>
      obtain ⟨hplain, hblank, hupper⟩ := upperAscii_of_recased (hkept c List.mem_cons_self) hcase
      obtain ⟨hrest, hmap⟩ := ih fun c' hc' => hkept c' (List.mem_cons_of_mem c hc')
      rw [List.forall_mem_cons, List.map_cons, List.map_cons, hupper, hmap]
      exact ⟨⟨⟨hplain, hblank⟩, hrest⟩, rfl⟩
  refine ⟨fun d hd => (hall.1 d hd).2, ?_⟩
  rw [Utf8.encode_ofList fun d hd => (hall.1 d hd).1, List.map_map]
  exact hall.2

/-- Less padding than a group has symbols can be missing, so that the length tells how much. -/
theorem missing_eq {missing : ℕ}
    (htext : (Base32.encode l).toList = kept ++ List.replicate missing '=') :
    (8 - kept.length % 8) % 8 = missing := by
  have hwhole := Base32.length_utf8_encode l
  have hfew := Base32.count_padding_le l
  rw [Base32.utf8_encode_eq_map, htext, List.length_map, List.length_append,
    List.length_replicate] at hwhole
  rw [htext, List.count_append, List.count_replicate_self] at hfew
  omega

/-- Clean-up brings back the text in base 32, its padding included. -/
theorem normalizeSecret_of_retyped (h : Retyped (Base32.encode l) text) :
    normalizeSecret text = Utf8.encode (Base32.encode l) := by
  obtain ⟨kept, missing, before, typed, after, htext, htyped, hbefore, hafter, hagain⟩ := h
  have hkept : ∀ c ∈ kept, c ∈ Base32.alphabet ∨ c = '=' := by
    intro c hc
    apply Base32.mem_encode
    rw [htext]
    exact List.mem_append_left _ hc
  obtain ⟨hblank, hupper⟩ := map_upperAscii_of_recased hkept htyped
  have hoctets : Utf8.encode (Base32.encode l) =
      kept.map Char.octet ++ List.replicate missing Base32.padding := by
    rw [Base32.utf8_encode_eq_map, htext, List.map_append, List.map_replicate]
    rfl
  unfold normalizeSecret
  rw [hagain, trimBlanks_append hbefore hblank hafter]
  simp only [hupper, List.length_map, missing_eq htext]
  exact hoctets.symm

theorem decodeSecret_of_retyped (h : Retyped (Base32.encode l) text) : decodeSecret text = .ok l := by
  unfold decodeSecret
  rw [normalizeSecret_of_retyped h, Base32.decode_encode]

theorem decodeSecret_encode (l : Bytes) : decodeSecret (Base32.encode l) = .ok l :=
  decodeSecret_of_retyped (.refl _)

/-! ## Directed secrets -/

variable {shared : Bytes} {paymail paymail' : String}

theorem directedSecret_injective (h : directedSecret shared paymail = directedSecret shared paymail') :
    paymail = paymail' := by
  have hread := decodeSecret_encode (shared ++ Utf8.encode paymail)
  unfold directedSecret at h
  rw [h, decodeSecret_encode, Except.ok.injEq, List.append_cancel_left_eq] at hread
  exact (Utf8.encode_injective hread).symm

/-- A directed secret is read as the octets of the secret followed by those of the address, however it is typed
again, and leads to the same codes then. No two addresses direct one secret alike. -/
theorem directed_secret_retyped (shared : Bytes) (paymail : String) :
    let secret := directedSecret shared paymail
    decodeSecret secret = .ok (shared ++ Utf8.encode paymail) ∧
    (∀ again, Retyped secret again →
      decodeSecret again = .ok (shared ++ Utf8.encode paymail) ∧
      ∀ time o, codeAt again time o = codeAt secret time o ∧
        ∀ code, checkCodeAt code again time o = checkCodeAt code secret time o) ∧
    ∀ paymail', directedSecret shared paymail' = secret → paymail' = paymail := by
  intro secret
  have hsecret : decodeSecret secret = .ok (shared ++ Utf8.encode paymail) := decodeSecret_encode _
  refine ⟨hsecret, fun again hagain => ?_, fun paymail' h => directedSecret_injective h⟩
  have hkey := decodeSecret_of_retyped hagain
  refine ⟨hkey, fun time o => ?_⟩
  have hmade : codeAt again time o = codeAt secret time o :=
    codeAt_congr_secret (hkey.trans hsecret.symm)
  exact ⟨hmade, fun code => checkCodeAt_congr hmade⟩

/-- The octets of `foobar`, as a secret of two octets directed by four characters: between an em space and a
line feed, in both cases, and with two of the six marks of padding. -/
theorem foobar_retyped :
    let secret := directedSecret (Utf8.encode "fo") "obar"
    let again := "\u2003mZxW6yTbOi==\n"
    secret = "MZXW6YTBOI======" ∧ Retyped secret again ∧
      decodeSecret again = .ok (Utf8.encode "foobar") ∧
      codeAt again 59 {} = codeAt secret 59 {} ∧
      ∀ paymail, directedSecret (Utf8.encode "fo") paymail = secret → paymail = "obar" := by
  intro secret again
  have hsecret : secret = "MZXW6YTBOI======" := by decide +kernel
  have hagain : Retyped secret again := by
    rw [hsecret]
    exact .intro "MZXW6YTBOI==".toList 4 ['\u2003'] "mZxW6yTbOi==".toList ['\n'] (by decide +kernel)
      (by decide +kernel) (List.forall_mem_singleton.mpr (by decide))
      (List.forall_mem_singleton.mpr (by decide)) (by decide +kernel)
  obtain ⟨-, hretyped, hdirected⟩ := directed_secret_retyped (Utf8.encode "fo") "obar"
  obtain ⟨hkey, hcodes⟩ := hretyped again hagain
  have hoctets : Utf8.encode "fo" ++ Utf8.encode "obar" = Utf8.encode "foobar" := by decide +kernel
  exact ⟨hsecret, hagain, hoctets ▸ hkey, (hcodes 59 {}).1, hdirected⟩

end Contact

end WalletAuth
