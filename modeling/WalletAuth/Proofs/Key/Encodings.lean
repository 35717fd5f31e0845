import Mathlib
import WalletAuth.Proofs.Key.Public

/-! Which point octets denote, told by the numbers that stand in them. A key is read from the octets that
denote its point and from no others, and its compressed form is the one of them that is printed. -/
namespace WalletAuth.PublicKey
open Curve
set_option autoImplicit false

/-- The point of the curve that octets denote: by its `x` and the parity of its `y`, by both coordinates, or
by its `x` alone if the `y` is even. -/
inductive Denotes (x y : Coordinate) : Bytes → Prop
  | parity {tag : UInt8} {l : Bytes} (hcurve : OnCurve x y) (hlength : l.length = 32)
    (hx : Bytes.toNat l = x.val) (htag : tag.toNat = 2 + y.val % 2) : Denotes x y (tag :: l)
  | both {l m : Bytes} (hcurve : OnCurve x y) (hl : l.length = 32) (hm : m.length = 32)
    (hx : Bytes.toNat l = x.val) (hy : Bytes.toNat m = y.val) : Denotes x y (4 :: (l ++ m))
  | even {l : Bytes} (hcurve : OnCurve x y) (hlength : l.length = 32)
    (hx : Bytes.toNat l = x.val) (heven : y.val % 2 = 0) : Denotes x y (5 :: l)

variable {x y : Coordinate} {k : PublicKey} {l : Bytes}

theorem Denotes.onCurve (h : Denotes x y l) : OnCurve x y := by
  cases h <;> assumption

theorem toNat_tag (k : PublicKey) : k.tag.toNat = 2 + k.y.val % 2 := by
  unfold tag Coordinate.isOdd
  rcases Nat.mod_two_eq_zero_or_one k.y.val with h | h
  · simp [h]
  · simp [h]

theorem isOdd_eq_false_iff : y.isOdd = false ↔ y.val % 2 = 0 := by
  unfold Coordinate.isOdd
  rw [decide_eq_false_iff_not]
  exact Nat.mod_two_ne_one

theorem octets_of_toNat {l : Bytes} (hlength : l.length = 32) (hx : Bytes.toNat l = x.val) :
    l = Bytes.ofNat 32 x.val :=
  (coordinate?_toNat_eq_some_iff hlength).mp (coordinate?_eq_some_iff.mpr hx.symm)

theorem encodes_iff_denotes : k.Encodes l ↔ Denotes k.x k.y l := by
  have hlength : ∀ v : ℕ, (Bytes.ofNat 32 v).length = 32 := Bytes.length_ofNat 32
  constructor
  · intro h
    cases h with
    | compressed => exact .parity k.on_curve (hlength _) (toNat_ofNat_coordinate k.x) k.toNat_tag
    | uncompressed =>
      exact .both k.on_curve (hlength _) (hlength _) (toNat_ofNat_coordinate k.x)
        (toNat_ofNat_coordinate k.y)
    | compact heven =>
      exact .even k.on_curve (hlength _) (toNat_ofNat_coordinate k.x) (isOdd_eq_false_iff.mp heven)
  · intro h
    cases h with
    | parity _ hlength hx htag =>
      rw [octets_of_toNat hlength hx, UInt8.toNat.inj (htag.trans k.toNat_tag.symm)]
      exact .compressed
    | both _ hl hm hx hy =>
      rw [octets_of_toNat hl hx, octets_of_toNat hm hy]
      exact .uncompressed
    | even _ hlength hx heven =>
      rw [octets_of_toNat hlength hx]
      exact .compact (isOdd_eq_false_iff.mpr heven)

theorem ofBytes_eq_ok_iff_denotes : ofBytes l = .ok k ↔ Denotes k.x k.y l :=
  ofBytes_eq_ok_iff.trans encodes_iff_denotes

theorem ofBytes_of_denotes (h : Denotes x y l) : ofBytes l = .ok ⟨x, y, h.onCurve⟩ :=
  ofBytes_eq_ok_iff_denotes.mpr h

/-- Keys read from octets are equal if the octets denote one point. -/
theorem beq_iff_denotes {l₁ l₂ : Bytes} {k₁ k₂ : PublicKey} (h₁ : ofBytes l₁ = .ok k₁)
    (h₂ : ofBytes l₂ = .ok k₂) :
    (k₁ == k₂) = true ↔ ∃ x y, Denotes x y l₁ ∧ Denotes x y l₂ := by
  rw [beq_iff_eq]
  constructor
  · rintro rfl
    exact ⟨k₁.x, k₁.y, ofBytes_eq_ok_iff_denotes.mp h₁, ofBytes_eq_ok_iff_denotes.mp h₂⟩
  · rintro ⟨x, y, hl₁, hl₂⟩
    have hk₁ := Except.ok.inj (h₁.symm.trans (ofBytes_of_denotes hl₁))
    have hk₂ := Except.ok.inj (h₂.symm.trans (ofBytes_of_denotes hl₂))
    rw [hk₁, hk₂]

/-- Octets are read as the key of the point that they denote. Its compressed form is a 2 or a 3 and 32 octets,
it is read as the same key, from octets and from text, and it is what was read if that was compressed. Keys
are equal if the octets they were read from denote one point. -/
theorem encodings_faithful :
    (∀ (l : Bytes) (k : PublicKey), ofBytes l = .ok k ↔ Denotes k.x k.y l) ∧
    (∀ (l : Bytes) (k : PublicKey), ofBytes l = .ok k →
      (∃ tag rest, k.compressed.toList = tag :: rest ∧ (tag = 2 ∨ tag = 3) ∧ rest.length = 32) ∧
      ofBytes k.compressed.toList = .ok k ∧ ofHex k.toHex = .ok k ∧
      ∀ tag rest, l = tag :: rest → tag = 2 ∨ tag = 3 → k.compressed.toList = l) ∧
    ∀ (l₁ l₂ : Bytes) (k₁ k₂ : PublicKey), ofBytes l₁ = .ok k₁ → ofBytes l₂ = .ok k₂ →
      ((k₁ == k₂) = true ↔ ∃ x y, Denotes x y l₁ ∧ Denotes x y l₂) := by
  refine ⟨fun l k => ofBytes_eq_ok_iff_denotes, fun l k h => ?_,
    fun l₁ l₂ k₁ k₂ h₁ h₂ => beq_iff_denotes h₁ h₂⟩
  refine ⟨⟨k.tag, _, k.toList_compressed, k.tag_eq, Bytes.length_ofNat 32 _⟩, k.ofBytes_compressed,
    k.ofHex_toHex, ?_⟩
  rintro tag rest rfl htag
  exact compressed_of_ofBytes htag h

/-- The generator is read from its `x` behind a 5 and from both its coordinates behind a 4, as one key, which
is printed with its `x` behind a 2; behind a 3 the `x` is that of another key. -/
theorem generator_encoded_faithfully :
    let x := Bytes.ofNat 32 generator.x.val
    let y := Bytes.ofNat 32 generator.y.val
    ofBytes (5 :: x) = .ok generator ∧ ofBytes (4 :: (x ++ y)) = .ok generator ∧
      (∃ a b, Denotes a b (5 :: x) ∧ Denotes a b (4 :: (x ++ y))) ∧
      ofBytes generator.compressed.toList = .ok generator ∧
      generator.compressed.toList = 2 :: x ∧
      ofBytes (3 :: x) = .ok generator.opposite ∧ (generator == generator.opposite) = false := by
  intro x y
  obtain ⟨-, hread, hequal⟩ := encodings_faithful
  have heven : generator.y.isOdd = false := by decide
  have hcompact : ofBytes (5 :: x) = .ok generator := ofBytes_eq_ok_iff.mpr (.compact heven)
  have hboth : ofBytes (4 :: (x ++ y)) = .ok generator := ofBytes_eq_ok_iff.mpr .uncompressed
  have htag : generator.opposite.tag = 3 := by decide
  have hopposite : ofBytes (3 :: x) = .ok generator.opposite := by
    rw [ofBytes_eq_ok_iff, ← htag]
    exact .compressed
  have heven' : generator.tag = 2 := by decide
  have hcompressed : ofBytes (2 :: x) = .ok generator := by
    rw [ofBytes_eq_ok_iff, ← heven']
    exact .compressed
  obtain ⟨-, -, -, hsame⟩ := hread _ _ hcompressed
  refine ⟨hcompact, hboth, (hequal _ _ _ _ hcompact hboth).mp (beq_iff_eq.mpr rfl),
    (hread _ _ hcompact).2.1, hsame 2 x rfl (Or.inl rfl), hopposite, ?_⟩
  rw [← Bool.not_eq_true, beq_iff_eq]
  exact generator.opposite_ne.symm

end WalletAuth.PublicKey
