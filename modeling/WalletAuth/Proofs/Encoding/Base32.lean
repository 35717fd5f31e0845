import Mathlib
import WalletAuth.Encoding.Base32
import WalletAuth.Proofs.Encoding.Symbols
import WalletAuth.Proofs.Except

/-! Octets written in base 32 are read back. Every group is written with eight symbols, so cutting the text
into eights finds the groups again. Taking the padding off a group leaves the symbols of its digits,
and as many symbols as octets have are never of a length that is refused. -/
namespace WalletAuth.Base32
set_option autoImplicit false

theorem complete : Symbols.Complete alphabet 5 where
  count := by decide
  nodup := by decide
  plain := by
    have hall : alphabet.all (fun c => decide (Char.IsPlain c)) = true := by decide
    simpa using hall
  unmarked := by decide

def symbolOctet : ℕ → UInt8 := Symbols.octet alphabet

def groupOctets : Bytes → Bytes := Symbols.groupOctets alphabet 5 8

/-! ## Groups -/

theorem lt_of_mem_split {v : ℕ} {l : Bytes} (h : v ∈ BitGroup.split 5 l) : v < 32 :=
  BitGroup.lt_of_mem_split h

theorem length_groupOctets {l : Bytes} (h : l.length ≤ 5) : (groupOctets l).length = 8 := by
  apply Symbols.length_groupOctets
  unfold BitGroup.digitCount
  omega

theorem readSymbols_map {vs : List ℕ} (hvs : ∀ v ∈ vs, v < 32) (place : ℕ) :
    readSymbols place (vs.map symbolOctet) = .ok vs := by
  induction vs generalizing place with
  | nil => rfl
  | cons v vs ih =>
    have hv : value? (symbolOctet v) = some v :=
      complete.idxOf?_eq_some_iff.mpr ⟨hvs v List.mem_cons_self, rfl⟩
    rw [List.map_cons, readSymbols, hv, ih fun w hw => hvs w (List.mem_cons_of_mem v hw)]
    rfl

theorem stripPadding_append {body : Bytes} (hbody : ∀ b ∈ body, b ≠ padding) (k : ℕ) :
    stripPadding (body ++ List.replicate k padding) = body := by
  have hpadding : ∀ b ∈ List.replicate k padding, (b == padding) = true := by
    intro b hb
    rw [List.eq_of_mem_replicate hb, beq_self_eq_true]
  have hlast : (body.reverse.dropWhile (· == padding)) = body.reverse := by
    rw [List.dropWhile_eq_self_iff]
    intro hpos
    have hmem : body.reverse[0] ∈ body := List.mem_reverse.mp (List.getElem_mem hpos)
    simpa using hbody _ hmem
  unfold stripPadding
  rw [List.reverse_append, List.reverse_replicate, List.dropWhile_append_of_pos hpadding, hlast,
    List.reverse_reverse]

theorem stripPadding_groupOctets (l : Bytes) :
    stripPadding (groupOctets l) = (BitGroup.split 5 l).map symbolOctet := by
  apply stripPadding_append
  intro b hb
  obtain ⟨v, hv, rfl⟩ := List.mem_map.mp hb
  exact complete.octet_ne_padding (BitGroup.lt_of_mem_split hv)

theorem readGroup_groupOctets {l : Bytes} (hl : l ≠ []) (hle : l.length ≤ 5) (place : ℕ) :
    readGroup place (groupOctets l) = .ok l := by
  have hpos : 0 < l.length := List.length_pos_iff.mpr hl
  have hsymbols : readSymbols place ((BitGroup.split 5 l).map symbolOctet) =
      .ok (BitGroup.split 5 l) := readSymbols_map (fun v hv => lt_of_mem_split hv) place
  have hjoin : BitGroup.join? 5 (BitGroup.split 5 l) = some l :=
    BitGroup.join?_split (by decide) (by decide) l
  have hcount : [0, 1, 3, 6].contains ((BitGroup.split 5 l).map symbolOctet).length = false := by
    rw [List.length_map, BitGroup.length_split]
    unfold BitGroup.digitCount
    -- One to five octets have 2, 4, 5, 7 or 8 symbols, which leaves out the lengths that are refused.
    rcases (by omega : l.length = 1 ∨ l.length = 2 ∨ l.length = 3 ∨ l.length = 4 ∨ l.length = 5)
      with h | h | h | h | h <;> rw [h] <;> rfl
  unfold readGroup
  simp only [stripPadding_groupOctets, hcount, hsymbols, hjoin, bind, Except.bind]
  rfl

/-! ## Texts -/

theorem readGroups_map {pieces : List Bytes} (hpieces : ∀ piece ∈ pieces, piece ≠ [] ∧ piece.length ≤ 5)
    (place : ℕ) : readGroups place (pieces.map groupOctets) = .ok pieces.flatten := by
  induction pieces generalizing place with
  | nil => rfl
  | cons piece pieces ih =>
    obtain ⟨hne, hle⟩ := hpieces piece List.mem_cons_self
    have hrest := ih (fun p hp => hpieces p (List.mem_cons_of_mem piece hp)) (place + 8)
    rw [List.map_cons, readGroups, readGroup_groupOctets hne hle, hrest]
    rfl

theorem encode_eq (l : Bytes) :
    encode l = String.ofList ((chunks 5 l).flatMap (Symbols.group alphabet 5 8)) := rfl

theorem mem_encode {l : Bytes} {c : Char} (hc : c ∈ (encode l).toList) : c ∈ alphabet ∨ c = '=' := by
  rw [encode_eq, String.toList_ofList] at hc
  exact Symbols.mem_flatMap_group complete hc

theorem utf8_encode_eq_map (l : Bytes) : Utf8.encode (encode l) = (encode l).toList.map Char.octet := by
  rw [← Utf8.encode_ofList, String.ofList_toList]
  rw [encode_eq, String.toList_ofList]
  exact Symbols.isPlain_of_mem_flatMap complete

theorem utf8_encode (l : Bytes) :
    Utf8.encode (encode l) = ((chunks 5 l).map groupOctets).flatten := by
  rw [encode_eq, Symbols.utf8_encode_flatMap complete]
  rfl

theorem length_of_mem_groups {l group : Bytes} (h : group ∈ (chunks 5 l).map groupOctets) :
    group.length = 8 := by
  obtain ⟨piece, hpiece, rfl⟩ := List.mem_map.mp h
  exact length_groupOctets (ne_nil_and_length_le_of_mem_chunks (by decide) l piece hpiece).2

theorem length_utf8_encode (l : Bytes) : (Utf8.encode (encode l)).length % 8 = 0 := by
  rw [utf8_encode, List.length_flatten, List.map_congr_left fun _ => length_of_mem_groups,
    List.map_const', List.sum_replicate, smul_eq_mul, Nat.mul_mod_left]

/-- Padding is found in the last group alone, where two symbols at least stand before it. -/
theorem count_padding_le (l : Bytes) : (encode l).toList.count '=' ≤ 6 := by
  rw [encode_eq, String.toList_ofList]
  induction l using chunks_induction (by decide : 0 < 5) with
  | nil => exact Nat.zero_le 6
  | last l hl hle =>
    have hpos := List.length_pos_iff.mpr hl
    rw [List.flatMap_singleton, Symbols.count_group complete]
    unfold BitGroup.digitCount
    omega
  | full piece rest hpiece hrest ih =>
    have hnone : 8 - BitGroup.digitCount 5 piece.length = 0 := by rw [hpiece]; rfl
    rw [List.flatMap_cons, List.count_append, Symbols.count_group complete, hnone, Nat.zero_add]
    exact ih

theorem decode_encode (l : Bytes) : decode (Utf8.encode (encode l)) = .ok l := by
  have hpieces := ne_nil_and_length_le_of_mem_chunks (by decide : 0 < 5) l
  unfold decode
  rw [utf8_encode, chunks_flatten (by decide) fun _ => length_of_mem_groups,
    readGroups_map hpieces, flatten_chunks (by decide)]

end WalletAuth.Base32
