import Mathlib
import WalletAuth.Http.Headers
import WalletAuth.Proofs.Text.Plain

/-! Header fields carry plain texts unchanged: a plain text is a value that reads as the text, and fields
that are set one after the other under different names keep one value each. -/
namespace WalletAuth.Http
set_option autoImplicit false

/-! ## Values -/

theorem isReadable_octet {c : Char} (h : Char.IsPlain c) : isReadable (Char.octet c) = true := by
  unfold isReadable
  rw [Bool.or_eq_true, Bool.and_eq_true, decide_eq_true_iff, decide_eq_true_iff, beq_iff_eq,
    UInt8.le_iff_toNat_le, UInt8.le_iff_toNat_le, ← UInt8.toNat_inj, h.toNat_octet]
  exact h

theorem isPlain_ofNat {b : UInt8} (h : isReadable b = true) : Char.IsPlain (Char.ofNat b.toNat) := by
  have hvalid : b.toNat.isValidChar := Or.inl (b.toNat_lt.trans (by decide))
  unfold isReadable at h
  rw [Bool.or_eq_true, Bool.and_eq_true, decide_eq_true_iff, decide_eq_true_iff, beq_iff_eq,
    UInt8.le_iff_toNat_le, UInt8.le_iff_toNat_le, ← UInt8.toNat_inj] at h
  unfold Char.IsPlain
  rw [Char.toNat_ofNat, if_pos hvalid]
  exact h

theorem isValueOctet_of_isReadable {b : UInt8} (h : isReadable b = true) :
    isValueOctet b = true := by
  unfold isReadable at h
  unfold isValueOctet
  simp only [Bool.or_eq_true, Bool.and_eq_true, decide_eq_true_iff, bne_iff_ne] at h ⊢
  refine h.imp_right fun hrange => ⟨hrange.1, ?_⟩
  rintro rfl
  exact absurd hrange.2 (by decide)

namespace HeaderValue

/-- A value is read as a text exactly if the text is plain and the value holds its octets. -/
theorem text?_eq_some_iff {v : HeaderValue} {s : String} :
    v.text? = some s ↔ (∀ c ∈ s.toList, Char.IsPlain c) ∧ v.octets = Utf8.encode s := by
  unfold text?
  constructor
  · intro h
    split at h
    · next hreadable =>
      have hplain : ∀ c ∈ v.octets.map fun b => Char.ofNat b.toNat, Char.IsPlain c := by
        intro c hc
        obtain ⟨b, hb, rfl⟩ := List.mem_map.mp hc
        exact isPlain_ofNat (List.all_eq_true.mp hreadable b hb)
      rw [← Option.some.inj h, String.toList_ofList, Utf8.encode_ofList hplain, List.map_map]
      refine ⟨hplain, ?_⟩
      conv_lhs => rw [← List.map_id v.octets]
      exact List.map_congr_left fun b _ => (Char.octet_ofNat b).symm
    · cases h
  · rintro ⟨hplain, hoctets⟩
    have hencode : Utf8.encode s = s.toList.map Char.octet := by
      conv_lhs => rw [← String.ofList_toList (s := s)]
      exact Utf8.encode_ofList hplain
    have hreadable : (s.toList.map Char.octet).all isReadable = true := by
      rw [List.all_eq_true]
      intro b hb
      obtain ⟨c, hc, rfl⟩ := List.mem_map.mp hb
      exact isReadable_octet (hplain c hc)
    have hback : (s.toList.map Char.octet).map (fun b => Char.ofNat b.toNat) = s.toList := by
      rw [List.map_map]
      conv_rhs => rw [← List.map_id s.toList]
      exact List.map_congr_left fun c hc => (hplain c hc).ofNat_octet
    rw [hoctets, hencode, if_pos hreadable, hback, String.ofList_toList]

theorem exists_of_plain {s : String} (h : ∀ c ∈ s.toList, Char.IsPlain c) :
    ∃ v, ofString? s = some v ∧ v.text? = some s := by
  have hvalid : (Utf8.encode s).all isValueOctet = true := by
    rw [List.all_eq_true, ← String.ofList_toList (s := s), Utf8.encode_ofList h]
    intro b hb
    obtain ⟨c, hc, rfl⟩ := List.mem_map.mp hb
    exact isValueOctet_of_isReadable (isReadable_octet (h c hc))
  refine ⟨⟨Utf8.encode s, hvalid⟩, ?_, text?_eq_some_iff.mpr ⟨h, rfl⟩⟩
  unfold ofString? ofBytes?
  rw [dif_pos hvalid]

end HeaderValue

/-! ## Names -/

theorem HeaderName.characters_of_ofString? {s : String} {n : HeaderName}
    (h : HeaderName.ofString? s = some n) : n.characters = s.toList.map lowerAscii := by
  unfold ofString? at h
  simp only [Option.ite_none_left_eq_some, Option.dite_none_right_eq_some, Option.some.injEq] at h
  obtain ⟨-, -, rfl⟩ := h
  rfl

theorem HeaderName.characters_injective : Function.Injective HeaderName.characters := by
  rintro ⟨l, hl⟩ ⟨k, hk⟩ rfl
  rfl

/-- Names that differ in the case of letters only are one. -/
theorem HeaderName.ofString?_congr {s t : String}
    (h : s.toList.map lowerAscii = t.toList.map lowerAscii) : ofString? s = ofString? t := by
  have hempty : s.isEmpty = t.isEmpty := by
    rw [Bool.eq_iff_iff, String.isEmpty_iff, String.isEmpty_iff, ← String.toList_eq_nil_iff,
      ← String.toList_eq_nil_iff, ← List.map_eq_nil_iff (f := lowerAscii), h, List.map_eq_nil_iff]
  unfold ofString?
  simp only [h, hempty]

/-! ## Fields -/

namespace HeaderMap

/-- The values of the name that a text spells, if it spells one. -/
def under (m : HeaderMap) (name : String) : Option (List HeaderValue) :=
  (HeaderName.ofString? name).map m.values

/-- The first value of the name that a text spells, if there is one. -/
def first? (m : HeaderMap) (name : String) : Option HeaderValue := (m.under name).bind List.head?

/-- A text is found under a name exactly if the first value of the name reads as it and it is not empty. -/
theorem text?_eq_some_iff {m : HeaderMap} {name s : String} :
    m.text? name = some s ↔ (∃ v, m.first? name = some v ∧ v.text? = some s) ∧ s ≠ "" := by
  have hfirst : ((HeaderName.ofString? name).bind fun n => (m.values n).head?) = m.first? name := by
    unfold first? under
    cases HeaderName.ofString? name <;> rfl
  unfold text?
  rw [hfirst, Option.filter_eq_some_iff, Option.bind_eq_some_iff, Bool.not_eq_true',
    String.isEmpty_eq_false_iff]

theorem text?_of_under {m : HeaderMap} {name s : String} {v : HeaderValue}
    (h : m.under name = some [v]) (htext : v.text? = some s) (hs : s ≠ "") :
    m.text? name = some s := by
  refine text?_eq_some_iff.mpr ⟨⟨v, ?_, htext⟩, hs⟩
  unfold first?
  rw [h]
  rfl

theorem text?_of_under_nil {m : HeaderMap} {name : String} (h : m.under name = some []) :
    m.text? name = none := by
  obtain ⟨n, hname, hvalues⟩ := Option.map_eq_some_iff.mp h
  unfold text?
  rw [hname, Option.bind_some, hvalues]
  rfl

/-- Under names that differ in the case of letters only the same is found. -/
theorem text?_congr (m : HeaderMap) {s t : String}
    (h : s.toList.map lowerAscii = t.toList.map lowerAscii) : m.text? s = m.text? t := by
  unfold text?
  rw [HeaderName.ofString?_congr h]

/-- Whatever is found under a name is plain and not empty. -/
theorem isPlain_of_text? {m : HeaderMap} {name s : String} (h : m.text? name = some s) :
    s ≠ "" ∧ ∀ c ∈ s.toList, Char.IsPlain c := by
  obtain ⟨⟨v, -, hv⟩, hne⟩ := text?_eq_some_iff.mp h
  exact ⟨hne, (HeaderValue.text?_eq_some_iff.mp hv).1⟩

theorem under_insert {m : HeaderMap} {n : HeaderName} {v : HeaderValue} {name : String} :
    (m.insert n v).under name =
      if HeaderName.ofString? name = some n then some [v] else m.under name := by
  unfold under
  cases HeaderName.ofString? name with
  | none => rfl
  | some k =>
    simp only [Option.map_some, values_insert, Option.some.injEq]
    split <;> rfl

theorem text?_insert_of_ne {m : HeaderMap} {n : HeaderName} {v : HeaderValue} {name : String}
    (h : HeaderName.ofString? name ≠ some n) : (m.insert n v).text? name = m.text? name := by
  have hfirst : (m.insert n v).first? name = m.first? name := by
    unfold first?
    rw [under_insert, if_neg h]
  refine Option.ext fun s => ?_
  rw [text?_eq_some_iff, text?_eq_some_iff, hfirst]

def eraseAll (m : HeaderMap) (names : List HeaderName) : HeaderMap := names.foldl erase m

theorem values_eraseAll (m : HeaderMap) (names : List HeaderName) (n : HeaderName) :
    (m.eraseAll names).values n = if n ∈ names then [] else m.values n := by
  induction names generalizing m with
  | nil => rfl
  | cons k names ih =>
    show ((m.erase k).eraseAll names).values n = _
    rw [ih, values_erase]
    by_cases hrest : n ∈ names
    · rw [if_pos hrest, if_pos (List.mem_cons_of_mem k hrest)]
    · by_cases hn : n = k
      · rw [if_neg hrest, if_pos hn, if_pos (List.mem_cons.mpr (Or.inl hn))]
      · rw [if_neg hrest, if_neg hn, if_neg]
        rw [List.mem_cons, not_or]
        exact ⟨hn, hrest⟩

def insertAll (m : HeaderMap) (fields : List (HeaderName × HeaderValue)) : HeaderMap :=
  fields.foldl (fun m f => m.insert f.1 f.2) m

/-- Of the fields that are set under one name the last one stays. -/
theorem values_insertAll_eq (m : HeaderMap) (fields : List (HeaderName × HeaderValue))
    (n : HeaderName) : (m.insertAll fields).values n =
      (fields.reverse.find? fun f => decide (f.1 = n)).elim (m.values n) fun f => [f.2] := by
  induction fields using List.reverseRecOn with
  | nil => rfl
  | append_singleton fields f ih =>
    have hlast : m.insertAll (fields ++ [f]) = (m.insertAll fields).insert f.1 f.2 :=
      List.foldl_append
    rw [hlast, values_insert, List.reverse_append, List.reverse_singleton, List.singleton_append,
      List.find?_cons]
    by_cases hn : n = f.1
    · rw [if_pos hn, decide_eq_true hn.symm]
      rfl
    · rw [if_neg hn, decide_eq_false (Ne.symm hn), ih]

theorem find?_eq_none_iff {fields : List (HeaderName × HeaderValue)} {n : HeaderName} :
    (fields.reverse.find? fun f => decide (f.1 = n)) = none ↔ n ∉ fields.map Prod.fst := by
  rw [List.find?_eq_none]
  constructor
  · intro h hmem
    obtain ⟨f, hf, rfl⟩ := List.mem_map.mp hmem
    exact h f (List.mem_reverse.mpr hf) (decide_eq_true rfl)
  · intro h f hf hname
    exact h (of_decide_eq_true hname ▸ List.mem_map_of_mem (List.mem_reverse.mp hf))

theorem values_insertAll_of_notMem {fields : List (HeaderName × HeaderValue)} {n : HeaderName}
    (hn : n ∉ fields.map Prod.fst) (m : HeaderMap) :
    (m.insertAll fields).values n = m.values n := by
  rw [values_insertAll_eq, find?_eq_none_iff.mpr hn]
  rfl

/-- The values of a name that is set do not depend on those before, and those of other names are kept. -/
theorem values_insertAll_congr {fields : List (HeaderName × HeaderValue)} {n : HeaderName}
    {m m' : HeaderMap} (h : n ∉ fields.map Prod.fst → m.values n = m'.values n) :
    (m.insertAll fields).values n = (m'.insertAll fields).values n := by
  rw [values_insertAll_eq, values_insertAll_eq]
  cases hlast : fields.reverse.find? fun f => decide (f.1 = n) with
  | none => exact h (find?_eq_none_iff.mp hlast)
  | some f => rfl

end HeaderMap

end WalletAuth.Http
