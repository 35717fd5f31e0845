import Mathlib
import WalletAuth.Text.Numeral
import WalletAuth.Proofs.Number.Radix
import WalletAuth.Proofs.Text.Plain

/-! The decimal numeral of a number of 64 bits is read as the number, up to the least one, whose size is
no number of 64 bits. -/
namespace WalletAuth.Numeral
set_option autoImplicit false

def figures (v : ℕ) : List ℕ := if v = 0 then [0] else Radix.digits 10 v

theorem ofNat_eq (v : ℕ) : ofNat v = String.ofList ((figures v).map digit) := by
  unfold ofNat figures
  split <;> rfl

theorem lt_of_mem_figures {v d : ℕ} (hd : d ∈ figures v) : d < 10 := by
  unfold figures at hd
  split at hd
  · rw [List.mem_singleton.mp hd]
    decide
  · exact Radix.lt_of_mem_digits (by decide) hd

theorem ofDigits_figures (v : ℕ) : Radix.ofDigits 10 (figures v) = v := by
  unfold figures
  split
  · next hv =>
    rw [hv]
    rfl
  · exact Radix.ofDigits_digits (by decide) v

theorem figures_ne_nil (v : ℕ) : figures v ≠ [] := by
  intro h
  have hv := ofDigits_figures v
  rw [h, Radix.ofDigits_nil] at hv
  rw [← hv] at h
  exact absurd h (by decide)

theorem isPlain_digit {v : ℕ} (hv : v < 10) : Char.IsPlain (digit v) := by
  have hall : ∀ v < 10, Char.IsPlain (digit v) := by decide
  exact hall v hv

theorem decimalDigit?_digit {v : ℕ} (hv : v < 10) :
    decimalDigit? (Char.octet (digit v)) = some v := by
  have hall : ∀ v < 10, decimalDigit? (Char.octet (digit v)) = some v := by decide
  exact hall v hv

theorem length_utf8_padded (width v : ℕ) : (Utf8.encode (padded width v)).length = width := by
  have hplain : ∀ c ∈ (Radix.toDigits 10 width v).map digit, Char.IsPlain c := by
    intro c hc
    obtain ⟨d, hd, rfl⟩ := List.mem_map.mp hc
    exact isPlain_digit (Radix.lt_of_mem_toDigits (by decide) hd)
  unfold padded
  rw [Utf8.encode_ofList hplain, List.length_map, List.length_map, Radix.length_toDigits]

/-- A text writes a number in `width` decimal figures, with zeros in front where it has fewer. -/
structure Writes (s : String) (width v : ℕ) : Prop where
  length : s.toList.length = width
  isDigit : ∀ c ∈ s.toList, c.isDigit = true
  value : Nat.ofDigits 10 (s.toList.reverse.map fun c => c.toNat - '0'.toNat) = v

theorem isDigit_digit {v : ℕ} (hv : v < 10) : (digit v).isDigit = true := by
  have hall : ∀ v < 10, (digit v).isDigit = true := by decide
  exact hall v hv

theorem toNat_digit {v : ℕ} (hv : v < 10) : (digit v).toNat - '0'.toNat = v := by
  have hall : ∀ v < 10, (digit v).toNat - '0'.toNat = v := by decide
  exact hall v hv

/-- Of a number with more figures the last ones are written. -/
theorem writes_padded (width v : ℕ) : Writes (padded width v) width (v % 10 ^ width) := by
  have hlist : (padded width v).toList = (Radix.toDigits 10 width v).map digit := String.toList_ofList
  have hlt : ∀ d ∈ Radix.toDigits 10 width v, d < 10 :=
    fun d hd => Radix.lt_of_mem_toDigits (by decide) hd
  refine ⟨?_, ?_, ?_⟩
  · rw [hlist, List.length_map, Radix.length_toDigits]
  · intro c hc
    rw [hlist] at hc
    obtain ⟨d, hd, rfl⟩ := List.mem_map.mp hc
    exact isDigit_digit (hlt d hd)
  · have hfigures : (Radix.toDigits 10 width v).map ((fun c => c.toNat - '0'.toNat) ∘ digit) =
        Radix.toDigits 10 width v :=
      (List.map_congr_left fun d hd => toNat_digit (hlt d hd)).trans (List.map_id _)
    rw [hlist, List.map_reverse, List.map_map, hfigures, ← Radix.ofDigits_eq, Radix.ofDigits_toDigits]

/-! ## Reading -/

theorem mapM_digits {ds : List ℕ} (hds : ∀ d ∈ ds, d < 10) :
    (ds.map fun d => Char.octet (digit d)).mapM decimalDigit? = some ds := by
  induction ds with
  | nil => rfl
  | cons d ds ih =>
    rw [List.map_cons, List.mapM_cons, decimalDigit?_digit (hds d List.mem_cons_self),
      ih fun e he => hds e (List.mem_cons_of_mem d he)]
    rfl

/-- The figures of a number as octets. -/
def figureOctets (v : ℕ) : Bytes := (figures v).map fun d => Char.octet (digit d)

theorem natural?_figures (v : ℕ) : natural? 10 decimalDigit? (figureOctets v) = some v := by
  unfold natural? figureOctets
  rw [mapM_digits fun d hd => lt_of_mem_figures hd, List.isEmpty_map,
    List.isEmpty_eq_false_iff.mpr (figures_ne_nil v), Option.map_some, ofDigits_figures]
  rfl

theorem signed?_figures (v : ℕ) : signed? 10 decimalDigit? (figureOctets v) = some (v : ℤ) := by
  have hvalue := natural?_figures v
  unfold figureOctets at hvalue ⊢
  have hlt : ∀ d ∈ figures v, d < 10 := fun d hd => lt_of_mem_figures hd
  cases hfigures : figures v with
  | nil => exact absurd hfigures (figures_ne_nil v)
  | cons d ds =>
    rw [hfigures] at hvalue hlt
    have hd := decimalDigit?_digit (hlt d List.mem_cons_self)
    rw [List.map_cons] at hvalue ⊢
    have hplus : Char.octet (digit d) ≠ 0x2b := by
      intro h
      rw [h] at hd
      cases hd
    have hminus : Char.octet (digit d) ≠ 0x2d := by
      intro h
      rw [h] at hd
      cases hd
    rw [signed?, if_neg hplus, if_neg hminus, hvalue]
    rfl

/-! ## Numbers of 64 bits -/

def characters (v : Int64) : List Char :=
  (if v < 0 then ['-'] else []) ++ (figures v.toInt.natAbs).map digit

theorem ofInt64_eq (v : Int64) : ofInt64 v = String.ofList (characters v) := by
  unfold ofInt64 characters
  rw [ofNat_eq]
  split
  · rw [String.ofList_append]
  · rfl

theorem isPlain_of_mem_characters {v : Int64} : ∀ c ∈ characters v, Char.IsPlain c := by
  intro c hc
  rcases List.mem_append.mp hc with hsign | hdigit
  · split at hsign
    · rw [List.mem_singleton.mp hsign]
      decide
    · cases hsign
  · obtain ⟨d, hd, rfl⟩ := List.mem_map.mp hdigit
    exact isPlain_digit (lt_of_mem_figures hd)

theorem isPlain_of_mem_ofInt64 {v : Int64} : ∀ c ∈ (ofInt64 v).toList, Char.IsPlain c := by
  rw [ofInt64_eq, String.toList_ofList]
  exact isPlain_of_mem_characters

theorem ofInt64_ne_empty (v : Int64) : ofInt64 v ≠ "" := by
  intro h
  have hlist := congrArg String.toList h
  rw [ofInt64_eq, String.toList_ofList] at hlist
  have hfigures := (List.append_eq_nil_iff.mp hlist).2
  exact figures_ne_nil _ (List.map_eq_nil_iff.mp hfigures)

theorem utf8_encode_ofInt64 (v : Int64) : Utf8.encode (ofInt64 v) =
    (if v.toInt < 0 then [0x2d] else []) ++ figureOctets v.toInt.natAbs := by
  have hsign : v < 0 ↔ v.toInt < 0 := by
    rw [Int64.lt_iff_toInt_lt, Int64.toInt_zero]
  have hminus : [Char.octet '-'] = ([0x2d] : Bytes) := rfl
  rw [ofInt64_eq, Utf8.encode_ofList isPlain_of_mem_characters]
  unfold characters figureOctets
  simp only [hsign]
  rw [List.map_append, List.map_map, apply_ite (List.map Char.octet), List.map_singleton, hminus]
  rfl

theorem signed?_ofInt64 (v : Int64) :
    signed? 10 decimalDigit? (Utf8.encode (ofInt64 v)) = some v.toInt := by
  rw [utf8_encode_ofInt64]
  split
  · next hv =>
    rw [List.singleton_append, signed?, if_neg (by decide), if_pos rfl, natural?_figures,
      Option.map_some, Option.some.injEq]
    show -(v.toInt.natAbs : ℤ) = v.toInt
    omega
  · next hv =>
    rw [List.nil_append, signed?_figures, Option.some.injEq]
    omega

/-- A sign and nineteen figures at most. -/
theorem length_utf8_ofInt64_le (v : Int64) : (Utf8.encode (ofInt64 v)).length ≤ 20 := by
  have hsize : v.toInt.natAbs < 10 ^ 19 := by
    have hlow := v.le_toInt
    have hhigh := v.toInt_lt
    omega
  have hfigures : (figureOctets v.toInt.natAbs).length ≤ 19 := by
    unfold figureOctets figures
    rw [List.length_map]
    split
    · decide
    · exact (Radix.length_digits_le_iff (by decide)).mpr hsize
  have hsign : (if v.toInt < 0 then ([0x2d] : Bytes) else []).length ≤ 1 := by
    split <;> decide
  rw [utf8_encode_ofInt64, List.length_append]
  omega

theorem int64?_ofInt64 (v : Int64) : int64? (ofInt64 v) = some v := by
  have hrange : (decide (Int64.minValue.toInt ≤ v.toInt) &&
      decide (v.toInt ≤ Int64.maxValue.toInt)) = true := by
    rw [Bool.and_eq_true, decide_eq_true_iff, decide_eq_true_iff]
    exact ⟨v.minValue_le_toInt, v.toInt_le⟩
  unfold int64?
  rw [signed?_ofInt64]
  simp only [bind, Option.bind_some, hrange, if_true, Int64.ofInt_toInt]

theorem ofInt64_injective : Function.Injective ofInt64 := by
  intro v w h
  have hread := int64?_ofInt64 v
  rw [h, int64?_ofInt64 w] at hread
  exact (Option.some.inj hread).symm

/-! ## Ends of numerals -/

theorem eq_of_map_digit {ds es : List ℕ} (hds : ∀ d ∈ ds, d < 10) (hes : ∀ d ∈ es, d < 10)
    (h : ds.map digit = es.map digit) : ds = es := by
  have hoctets := congrArg (List.map Char.octet) h
  rw [List.map_map, List.map_map] at hoctets
  have hread := mapM_digits hds
  rw [show (fun d => Char.octet (digit d)) = Char.octet ∘ digit from rfl, hoctets] at hread
  exact Option.some.inj (hread.symm.trans (mapM_digits hes))

/-- A number whose figures end in those of a shorter one is more than twice that one, since its first figure
is no zero. -/
theorem two_mul_lt_of_figures {v w : ℕ} {ds : List ℕ} (hds : ds ≠ [])
    (h : figures v = ds ++ figures w) : 2 * w < v := by
  obtain ⟨d, ds, rfl⟩ := List.exists_cons_of_ne_nil hds
  have hpositive : v ≠ 0 := by
    rintro rfl
    have hlength := congrArg List.length h
    have hfigures := List.length_pos_iff.mpr (figures_ne_nil w)
    rw [List.length_append, List.length_cons] at hlength
    have hone : (figures 0).length = 1 := rfl
    omega
  have hdigits : Radix.digits 10 v = d :: (ds ++ figures w) := by
    rw [← List.cons_append, ← h]
    exact (if_neg hpositive).symm
  have hd := Radix.head_digits_ne_zero (by decide) hdigits
  have hlead : 1 ≤ Radix.ofDigits 10 (d :: ds) := by
    rw [Radix.ofDigits_cons]
    have hpow := Nat.pow_pos (n := ds.length) (show 0 < 10 by decide)
    have hprod := Nat.mul_pos (Nat.pos_of_ne_zero hd) hpow
    omega
  have hlast : w < 10 ^ (figures w).length := by
    have hlt := Radix.ofDigits_lt (b := 10) (l := figures w) fun e he => lt_of_mem_figures he
    rwa [ofDigits_figures] at hlt
  have hvalue : v = Radix.ofDigits 10 (d :: ds) * 10 ^ (figures w).length + w := by
    rw [← ofDigits_figures v, h, Radix.ofDigits_append, ofDigits_figures]
  have hshift := Nat.mul_le_mul_right (10 ^ (figures w).length) hlead
  omega

/-- The same for numbers of 64 bits, of which only those from zero on are figures alone. -/
theorem two_mul_lt_of_characters {v w : Int64} {l : List Char} (hl : l ≠ [])
    (h : characters v = l ++ characters w) (hv : 0 ≤ v.toInt) : 2 * w.toInt < v.toInt := by
  have hsign : ∀ {u : Int64}, 0 ≤ u.toInt → characters u = (figures u.toInt.natAbs).map digit := by
    intro u hu
    have hnot : ¬ u < 0 := by
      rw [Int64.lt_iff_toInt_lt, Int64.toInt_zero]
      omega
    unfold characters
    rw [if_neg hnot, List.nil_append]
  rcases lt_or_ge w.toInt 0 with hw | hw
  · omega
  · rw [hsign hv, hsign hw] at h
    obtain ⟨ds, es, hfigures, rfl, hes⟩ := List.map_eq_append_iff.mp h
    have hmem : ∀ d ∈ es, d < 10 := by
      intro d hd
      exact lt_of_mem_figures (hfigures ▸ List.mem_append_right ds hd)
    rw [eq_of_map_digit hmem (fun d hd => lt_of_mem_figures hd) hes] at hfigures
    have hlt := two_mul_lt_of_figures (fun hnil => hl (by rw [hnil]; rfl)) hfigures
    omega

/-- Texts that end in numerals are equal if their numerals are, or one numeral has given its first
characters away. -/
theorem append_ofInt64_cases {s s' : String} {v v' : Int64} (h : s ++ ofInt64 v = s' ++ ofInt64 v') :
    s = s' ∧ v = v' ∨ ∃ l ≠ [],
      s'.toList = s.toList ++ l ∧ characters v = l ++ characters v' ∨
        s.toList = s'.toList ++ l ∧ characters v' = l ++ characters v := by
  have hsame : s = s' → v = v' := by
    rintro rfl
    exact ofInt64_injective (String.append_right_inj s |>.mp h)
  have hchars := congrArg String.toList h
  rw [String.toList_append, String.toList_append, ofInt64_eq, ofInt64_eq, String.toList_ofList,
    String.toList_ofList] at hchars
  rcases List.append_eq_append_iff.mp hchars with ⟨l, hs, hv⟩ | ⟨l, hs, hv⟩
  · by_cases hl : l = []
    · rw [hl, List.append_nil] at hs
      have htext := String.toList_inj.mp hs.symm
      exact Or.inl ⟨htext, hsame htext⟩
    · exact Or.inr ⟨l, hl, Or.inl ⟨hs, hv⟩⟩
  · by_cases hl : l = []
    · rw [hl, List.append_nil] at hs
      have htext := String.toList_inj.mp hs
      exact Or.inl ⟨htext, hsame htext⟩
    · exact Or.inr ⟨l, hl, Or.inr ⟨hs, hv⟩⟩

end WalletAuth.Numeral
