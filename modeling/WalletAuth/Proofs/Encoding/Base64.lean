import Mathlib
import WalletAuth.Encoding.Base64
import WalletAuth.Proofs.Encoding.Symbols
import WalletAuth.Proofs.Except

/-! Text in base 64 is a bijection. Every group is written with four symbols, so cutting the text into fours
finds the groups again; only the last one may have padding. A group that is read is the one that is
written for the octets, since its symbols leave no bits over and its padding fills it up. -/
namespace WalletAuth.Base64
set_option autoImplicit false

/-! ## Symbols -/

theorem complete : Symbols.Complete alphabet 6 where
  count := by decide
  nodup := by decide
  plain := by
    have hall : alphabet.all (fun c => decide (Char.IsPlain c)) = true := by decide
    simpa using hall
  unmarked := by decide

def symbolOctet : ℕ → UInt8 := Symbols.octet alphabet

theorem value?_eq_some_iff {b : UInt8} {v : ℕ} : value? b = some v ↔ v < 64 ∧ symbolOctet v = b :=
  complete.idxOf?_eq_some_iff

theorem symbolOctet_ne_padding {v : ℕ} (hv : v < 64) : symbolOctet v ≠ padding :=
  complete.octet_ne_padding hv

/-! ## Groups -/

def groupOctets : Bytes → Bytes := Symbols.groupOctets alphabet 6 4

theorem lt_of_mem_split {v : ℕ} {l : Bytes} (h : v ∈ BitGroup.split 6 l) : v < 64 :=
  BitGroup.lt_of_mem_split h

theorem length_groupOctets {l : Bytes} (h : l.length ≤ 3) : (groupOctets l).length = 4 := by
  apply Symbols.length_groupOctets
  unfold BitGroup.digitCount
  omega

theorem readSymbols_map {vs : List ℕ} (hvs : ∀ v ∈ vs, v < 64) (place : ℕ) :
    readSymbols place (vs.map symbolOctet) = .ok vs := by
  induction vs generalizing place with
  | nil => rfl
  | cons v vs ih =>
    rw [List.map_cons, readSymbols,
      value?_eq_some_iff.mpr ⟨hvs v List.mem_cons_self, rfl⟩,
      ih fun w hw => hvs w (List.mem_cons_of_mem v hw)]
    rfl

/-- Padding after two symbols at least ends the group. -/
theorem scanLast_go {vs : List ℕ} (hvs : ∀ v ∈ vs, v < 64) (place : ℕ) {i k : ℕ}
    (hk : k = 0 ∨ 2 ≤ i + vs.length) :
    scanLast.go place i (vs.map symbolOctet ++ List.replicate k padding) = .ok vs := by
  induction vs generalizing i with
  | nil =>
    cases k with
    | zero => rfl
    | succ k =>
      have hi : ¬ i < 2 := by
        rw [List.length_nil] at hk
        omega
      have hrest : (List.replicate k padding).any (· != padding) = false := by
        simp
      rw [List.map_nil, List.nil_append, List.replicate_succ, scanLast.go, if_pos rfl, hrest]
      simp [hi]
  | cons v vs ih =>
    have hv := hvs v List.mem_cons_self
    have hk' : k = 0 ∨ 2 ≤ i + 1 + vs.length := by
      rw [List.length_cons] at hk
      omega
    rw [List.map_cons, List.cons_append, scanLast.go, if_neg (symbolOctet_ne_padding hv),
      value?_eq_some_iff.mpr ⟨hv, rfl⟩, ih (fun w hw => hvs w (List.mem_cons_of_mem v hw)) hk']
    rfl

theorem readLast_groupOctets {l : Bytes} (hl : l ≠ []) (hle : l.length ≤ 3) (place : ℕ) :
    readLast place (groupOctets l) = .ok l := by
  have hpos : 0 < l.length := List.length_pos_iff.mpr hl
  have htwo : 2 ≤ (BitGroup.split 6 l).length := by
    rw [BitGroup.length_split]
    unfold BitGroup.digitCount
    omega
  have hscan : scanLast place (groupOctets l) = .ok (BitGroup.split 6 l) :=
    scanLast_go (fun v hv => lt_of_mem_split hv) place (Or.inr (by omega))
  have hjoin : BitGroup.join? 6 (BitGroup.split 6 l) = some l :=
    BitGroup.join?_split (by decide) (by decide) l
  unfold readLast
  rw [hscan, length_groupOctets hle]
  simp only [bind, Except.bind, hjoin]
  rw [if_neg (by omega)]
  rfl

/-! ## Texts -/

/-- A group with another one behind it is read as a full one. -/
theorem readGroups_cons {groups : List Bytes} (h : groups ≠ []) (place : ℕ) (group : Bytes) :
    readGroups place (group :: groups) = do
      let symbols ← readSymbols place group
      let octets ← readGroups (place + 4) groups
      return ((BitGroup.join? 6 symbols).getD []) ++ octets := by
  cases groups with
  | nil => exact absurd rfl h
  | cons next groups =>
    rw [readGroups]
    exact List.cons_ne_nil _ _

theorem readGroups_map (l : Bytes) (place : ℕ) :
    readGroups place ((chunks 3 l).map groupOctets) = .ok l := by
  induction l using chunks_induction (by decide : 0 < 3) generalizing place with
  | nil => rfl
  | last l hl hle => exact readLast_groupOctets hl hle place
  | full piece rest hpiece hrest ih =>
    have hgroup : groupOctets piece = (BitGroup.split 6 piece).map symbolOctet := by
      apply Symbols.groupOctets_eq_map
      rw [hpiece]
      rfl
    have hjoin : BitGroup.join? 6 (BitGroup.split 6 piece) = some piece :=
      BitGroup.join?_split (by decide) (by decide) _
    have hmore : (chunks 3 rest).map groupOctets ≠ [] :=
      mt List.map_eq_nil_iff.mp (chunks_ne_nil (by decide) hrest)
    rw [List.map_cons, hgroup, readGroups_cons hmore,
      readSymbols_map (fun v hv => lt_of_mem_split hv), ih]
    simp only [bind, Except.bind, hjoin]
    rfl

theorem encode_eq (l : Bytes) :
    encode l = String.ofList ((chunks 3 l).flatMap (Symbols.group alphabet 6 4)) := rfl

theorem isPlain_of_mem_encode {l : Bytes} : ∀ c ∈ (encode l).toList, Char.IsPlain c := by
  rw [encode_eq, String.toList_ofList]
  exact Symbols.isPlain_of_mem_flatMap complete

theorem utf8_encode (l : Bytes) :
    Utf8.encode (encode l) = ((chunks 3 l).map groupOctets).flatten := by
  rw [encode_eq, Symbols.utf8_encode_flatMap complete]
  rfl

theorem length_of_mem_groups {l group : Bytes} (h : group ∈ (chunks 3 l).map groupOctets) :
    group.length = 4 := by
  obtain ⟨piece, hpiece, rfl⟩ := List.mem_map.mp h
  exact length_groupOctets (ne_nil_and_length_le_of_mem_chunks (by decide) l piece hpiece).2

/-- Three octets that are begun take four symbols. -/
theorem length_utf8_encode (l : Bytes) :
    (Utf8.encode (encode l)).length = (l.length + 2) / 3 * 4 := by
  have hcount : (chunks 3 l).length = (l.length + 2) / 3 := by
    rw [chunks_eq_map_range (by decide), List.length_map, List.length_range]
  rw [utf8_encode, List.length_flatten, List.map_congr_left fun _ => length_of_mem_groups,
    List.map_const', List.sum_replicate, List.length_map, hcount, smul_eq_mul]

theorem decode_encode (l : Bytes) : decode (encode l) = .ok l := by
  have hlength : ((chunks 3 l).map groupOctets).flatten.length % 4 ≠ 1 := by
    rw [← utf8_encode, length_utf8_encode, Nat.mul_mod_left]
    decide
  have hstray : strayLast? ((chunks 3 l).map groupOctets).flatten = none := if_neg hlength
  unfold decode
  rw [utf8_encode]
  simp only [hstray]
  rw [chunks_flatten (by decide) fun _ => length_of_mem_groups, readGroups_map]

theorem encode_injective : Function.Injective encode := injective_of_read decode decode_encode

theorem encode_ne_empty {l : Bytes} (hl : l ≠ []) : encode l ≠ "" := encode_injective.ne hl

/-- A last group that is not full is padded. -/
theorem padding_mem_utf8_encode {l : Bytes} (h : ¬ 3 ∣ l.length) :
    padding ∈ Utf8.encode (encode l) := by
  rw [utf8_encode]
  induction l using chunks_induction (by decide : 0 < 3) with
  | nil => exact absurd (dvd_zero 3) h
  | last l hl hle =>
    have hshort : 0 < 4 - (BitGroup.split 6 l).length := by
      have hne : l.length ≠ 3 := fun hthree => h (hthree ▸ dvd_rfl)
      rw [BitGroup.length_split]
      unfold BitGroup.digitCount
      omega
    rw [List.map_singleton, List.flatten_singleton]
    exact List.mem_append_right _ (List.mem_replicate.mpr ⟨hshort.ne', rfl⟩)
  | full piece rest hpiece hrest ih =>
    have hmore : ¬ 3 ∣ rest.length := by
      rw [List.length_append, hpiece, Nat.dvd_add_right dvd_rfl] at h
      exact h
    rw [List.map_cons, List.flatten_cons]
    exact List.mem_append_right _ (ih hmore)

/-! ## Only what is written is read -/

theorem map_of_readSymbols {place : ℕ} {l : Bytes} {vs : List ℕ}
    (h : readSymbols place l = .ok vs) : (∀ v ∈ vs, v < 64) ∧ vs.map symbolOctet = l := by
  induction l generalizing place vs with
  | nil =>
    cases h
    exact ⟨fun v hv => absurd hv List.not_mem_nil, rfl⟩
  | cons b l ih =>
    rw [readSymbols] at h
    cases hb : value? b with
    | none =>
      rw [hb] at h
      cases h
    | some v =>
      rw [hb] at h
      obtain ⟨hv, hsymbol⟩ := value?_eq_some_iff.mp hb
      obtain ⟨rest, hrest, rfl⟩ := map_eq_ok_iff.mp h
      obtain ⟨hlt, hmap⟩ := ih hrest
      exact ⟨List.forall_mem_cons.mpr ⟨hv, hlt⟩, by rw [List.map_cons, hsymbol, hmap]⟩

/-- A last group is symbols and padding behind them. -/
theorem map_of_scanLast_go {place i : ℕ} {l : Bytes} {vs : List ℕ}
    (h : scanLast.go place i l = .ok vs) :
    (∀ v ∈ vs, v < 64) ∧ ∃ k, vs.map symbolOctet ++ List.replicate k padding = l := by
  induction l generalizing i vs with
  | nil =>
    cases h
    exact ⟨fun v hv => absurd hv List.not_mem_nil, 0, rfl⟩
  | cons b l ih =>
    rw [scanLast.go] at h
    split at h
    · next hpadding =>
      split at h
      · cases h
      · next hrest =>
        cases h
        rw [Bool.or_eq_true, not_or, Bool.not_eq_true (l.any _), List.any_eq_false] at hrest
        refine ⟨fun v hv => absurd hv List.not_mem_nil, l.length + 1, ?_⟩
        rw [List.map_nil, List.nil_append, List.replicate_succ, hpadding]
        congr 1
        refine (List.eq_replicate_of_mem fun c hc => ?_).symm
        simpa using hrest.2 c hc
    · cases hb : value? b with
      | none =>
        rw [hb] at h
        cases h
      | some v =>
        rw [hb] at h
        obtain ⟨hv, hsymbol⟩ := value?_eq_some_iff.mp hb
        obtain ⟨rest, hrest, rfl⟩ := map_eq_ok_iff.mp h
        obtain ⟨hlt, k, hmap⟩ := ih hrest
        refine ⟨List.forall_mem_cons.mpr ⟨hv, hlt⟩, k, ?_⟩
        rw [List.map_cons, List.cons_append, hsymbol, hmap]

/-- Symbols that join to octets and fill a group with padding are the group of the octets. -/
theorem groupOctets_of_join? {vs : List ℕ} {l : Bytes} (hvs : ∀ v ∈ vs, v < 64)
    (htwo : 2 ≤ vs.length) (hfour : vs.length ≤ 4) (h : BitGroup.join? 6 vs = some l) :
    groupOctets l = vs.map symbolOctet ++ List.replicate (4 - vs.length) padding := by
  have hspare : BitGroup.spareBits 6 vs.length < 6 := by
    unfold BitGroup.spareBits
    omega
  have hsplit : BitGroup.split 6 l = vs := BitGroup.split_of_join? hvs hspare h
  unfold groupOctets Symbols.groupOctets
  rw [hsplit]
  rfl

theorem groupOctets_of_readLast {place : ℕ} {last l : Bytes} (hlast : last.length ≤ 4)
    (h : readLast place last = .ok l) : groupOctets l = last ∧ l ≠ [] ∧ l.length ≤ 3 := by
  obtain ⟨vs, hscan, h⟩ := bind_eq_ok_iff.mp h
  obtain ⟨hlt, k, hsymbols⟩ := map_of_scanLast_go hscan
  have hlength := congrArg List.length hsymbols
  rw [List.length_append, List.length_map, List.length_replicate] at hlength
  dsimp only at h
  split at h
  · cases h
  · next htwo =>
    split at h
    · cases h
    · next hfull =>
      cases hjoin : BitGroup.join? 6 vs with
      | none =>
        simp only [hjoin] at h
        cases h
      | some octets =>
        simp only [hjoin] at h
        cases h
        have hcount := BitGroup.length_of_join? hjoin
        have hk : 4 - vs.length = k := by omega
        refine ⟨?_, ?_, by omega⟩
        · rw [groupOctets_of_join? hlt (by omega) (by omega) hjoin, hk, hsymbols]
        · apply List.ne_nil_of_length_pos
          omega

theorem exists_join?_of_length_four {vs : List ℕ} (h : vs.length = 4) :
    ∃ l, BitGroup.join? 6 vs = some l := by
  have hspare : BitGroup.spareBits 6 vs.length = 0 := by
    rw [h]
    rfl
  unfold BitGroup.join?
  dsimp only
  rw [hspare, Nat.shiftLeft_zero, Nat.mod_one, if_pos rfl]
  exact ⟨_, rfl⟩

/-- Octets that are read as groups are the groups of what they are read as. -/
theorem flatten_of_readGroups {place : ℕ} {o l : Bytes}
    (h : readGroups place (chunks 4 o) = .ok l) :
    ((chunks 3 l).map groupOctets).flatten = o := by
  induction o using chunks_induction (by decide : 0 < 4) generalizing place l with
  | nil =>
    cases h
    rfl
  | last o ho hle =>
    obtain ⟨hgroup, hl, hlength⟩ := groupOctets_of_readLast hle h
    rw [chunks_of_length_le (by decide) hl hlength, List.map_singleton, List.flatten_singleton,
      hgroup]
  | full piece rest hpiece hrest ih =>
    rw [readGroups_cons (chunks_ne_nil (by decide) hrest)] at h
    obtain ⟨vs, hread, h⟩ := bind_eq_ok_iff.mp h
    obtain ⟨octets, hoctets, h⟩ := bind_eq_ok_iff.mp h
    obtain ⟨hlt, hsymbols⟩ := map_of_readSymbols hread
    have hfour : vs.length = 4 := by
      rw [← hpiece, ← hsymbols, List.length_map]
    obtain ⟨three, hjoin⟩ := exists_join?_of_length_four hfour
    have hlength := BitGroup.length_of_join? hjoin
    have hgroup := groupOctets_of_join? hlt (by omega) (by omega) hjoin
    rw [hfour, Nat.sub_self, List.replicate_zero, List.append_nil, hsymbols] at hgroup
    rw [hfour] at hlength
    rw [hjoin, Option.getD_some] at h
    rw [← Except.ok.inj h, chunks_append (by decide) hlength, List.map_cons, List.flatten_cons,
      hgroup, ih hoctets]

theorem encode_of_decode {s : String} {l : Bytes} (h : decode s = .ok l) : encode l = s := by
  unfold decode at h
  dsimp only at h
  split at h
  · cases h
  · apply Utf8.encode_injective
    rw [utf8_encode, flatten_of_readGroups h]

/-- A text spells the octets it is the text of. -/
theorem decode_eq_ok_iff {s : String} {l : Bytes} : decode s = .ok l ↔ encode l = s := by
  constructor
  · exact encode_of_decode
  · rintro rfl
    exact decode_encode l

end WalletAuth.Base64
