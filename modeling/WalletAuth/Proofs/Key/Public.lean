import Mathlib
import WalletAuth.Key.Public
import WalletAuth.Proofs.Curve.Order
import WalletAuth.Proofs.Encoding.Hex
import WalletAuth.Proofs.Number.Octets

/-! Public keys are the finite points of the curve. A sum of triples yields the key that the sum of the
points is, or no key if the sum lies at infinity; the compressed encoding belongs to one key only and
is read back as that key. -/
namespace WalletAuth
open Curve Curve.Arithmetic
set_option autoImplicit false

/-! ## Keys and points -/

/-- The key that a point is, unless it lies at infinity. -/
def Curve.Point.key? : Point → Option PublicKey
  | .zero => none
  | .some x y h => some ⟨x, y, (nonsingular_iff x y).mp h⟩

namespace PublicKey

def point (k : PublicKey) : Point := Point.finite k.on_curve

theorem point_ne_zero (k : PublicKey) : k.point ≠ 0 :=
  WeierstrassCurve.Affine.Point.some_ne_zero _

theorem key?_point (k : PublicKey) : k.point.key? = some k := rfl

theorem key?_zero : (0 : Point).key? = none := rfl

theorem point_injective : Function.Injective point := by
  intro a b h
  have hkey := congrArg Point.key? h
  rw [key?_point, key?_point] at hkey
  exact Option.some.inj hkey

theorem key?_eq_some_iff {P : Point} {k : PublicKey} : P.key? = some k ↔ P = k.point := by
  constructor
  · intro h
    rcases P with _ | ⟨x, y, hP⟩
    · cases h
    · cases h
      rfl
  · rintro rfl
    exact key?_point k

theorem key?_eq_none_iff {P : Point} : P.key? = none ↔ P = 0 := by
  constructor
  · intro h
    rcases P with _ | ⟨x, y, hP⟩
    · rfl
    · cases h
  · rintro rfl
    exact key?_zero

theorem represents_jacobian (k : PublicKey) : k.jacobian.Represents k.point :=
  Jacobian.represents_ofAffine k.on_curve

theorem ofCoordinates?_eq_some_iff {x y : Coordinate} {k : PublicKey} :
    ofCoordinates? x y = some k ↔ k.x = x ∧ k.y = y := by
  unfold ofCoordinates?
  constructor
  · intro h
    obtain ⟨hcurve, hk⟩ := Option.dite_none_right_eq_some.mp h
    rw [← Option.some.inj hk]
    exact ⟨rfl, rfl⟩
  · rintro ⟨rfl, rfl⟩
    exact dif_pos k.on_curve

theorem ofJacobian?_eq {p : Jacobian} {P : Point} (hp : p.Represents P) :
    ofJacobian? p = P.key? := by
  rcases P with _ | ⟨x, y, h⟩
  · rw [ofJacobian?, Jacobian.toAffine?_of_infinity hp]
    rfl
  · rw [ofJacobian?, Jacobian.toAffine?_of_finite hp]
    exact ofCoordinates?_eq_some_iff.mpr ⟨rfl, rfl⟩

/-! ## A key from its `x` and a parity -/

theorem lift?_eq (x : Coordinate) (odd : Bool) :
    lift? x odd = ofCoordinates? x
      (if Coordinate.isOdd (Coordinate.root (x * x * x + 7)) = odd
        then Coordinate.root (x * x * x + 7) else -Coordinate.root (x * x * x + 7)) := rfl

theorem lift?_self (k : PublicKey) : lift? k.x k.y.isOdd = some k := by
  have hsq : k.x * k.x * k.x + 7 = k.y * k.y := k.on_curve.symm
  have hkey : ofCoordinates? k.x k.y = some k := ofCoordinates?_eq_some_iff.mpr ⟨rfl, rfl⟩
  rw [lift?_eq, hsq]
  rcases Coordinate.root_mul_self k.y with hroot | hroot
  · rw [hroot, if_pos rfl, hkey]
  · rw [hroot, Coordinate.isOdd_neg k.on_curve.y_ne_zero, if_neg (Bool.not_ne_self _), neg_neg, hkey]

theorem lift?_eq_some_iff {x : Coordinate} {odd : Bool} {k : PublicKey} :
    lift? x odd = some k ↔ k.x = x ∧ k.y.isOdd = odd := by
  constructor
  · intro h
    rw [lift?_eq] at h
    obtain ⟨hx, hy⟩ := ofCoordinates?_eq_some_iff.mp h
    refine ⟨hx, ?_⟩
    rw [hy]
    split
    · next hpar => exact hpar
    · next hpar =>
      have hne : Coordinate.root (x * x * x + 7) ≠ 0 := by
        intro hzero
        rw [if_neg hpar, hzero, neg_zero] at hy
        exact k.on_curve.y_ne_zero hy
      rw [Coordinate.isOdd_neg hne]
      exact (Bool.eq_not_of_ne (Ne.symm hpar)).symm
  · rintro ⟨rfl, rfl⟩
    exact k.lift?_self

/-! ## Opposite keys -/

/-- The other key with the same `x`. -/
def opposite (k : PublicKey) : PublicKey :=
  ⟨k.x, -k.y, by
    unfold OnCurve
    rw [neg_mul_neg]
    exact k.on_curve⟩

theorem point_opposite (k : PublicKey) : k.opposite.point = -k.point := by
  have hneg := WeierstrassCurve.Affine.Point.neg_some ((nonsingular_iff k.x k.y).mpr k.on_curve)
  simp only [negY_eq] at hneg
  exact hneg.symm

theorem isOdd_opposite (k : PublicKey) : k.opposite.y.isOdd = !k.y.isOdd :=
  Coordinate.isOdd_neg k.on_curve.y_ne_zero

theorem opposite_ne (k : PublicKey) : k.opposite ≠ k := by
  intro h
  have hodd := k.isOdd_opposite
  rw [h] at hodd
  exact Bool.not_ne_self _ hodd.symm

/-! ## Encodings -/

theorem coordinate?_eq_some_iff {v : ℕ} {x : Coordinate} : coordinate? v = some x ↔ x.val = v := by
  unfold coordinate?
  constructor
  · intro h
    obtain ⟨hv, hx⟩ := Option.dite_none_right_eq_some.mp h
    rw [← Option.some.inj hx]
  · rintro rfl
    exact dif_pos x.isLt

theorem toNat_ofNat_coordinate (x : Coordinate) : Bytes.toNat (Bytes.ofNat 32 x.val) = x.val := by
  have hsize : fieldSize < 256 ^ 32 := by decide
  rw [Bytes.toNat_ofNat, Nat.mod_eq_of_lt (x.isLt.trans hsize)]

/-- Of 32 octets, those of a coordinate are read as it and no others. -/
theorem coordinate?_toNat_eq_some_iff {l : Bytes} {x : Coordinate} (hl : l.length = 32) :
    coordinate? (Bytes.toNat l) = some x ↔ l = Bytes.ofNat 32 x.val := by
  rw [coordinate?_eq_some_iff]
  constructor
  · intro h
    rw [h, ← hl, Bytes.ofNat_toNat]
  · rintro rfl
    exact (toNat_ofNat_coordinate x).symm

def tag (k : PublicKey) : UInt8 := if k.y.isOdd then 3 else 2

theorem toList_compressed (k : PublicKey) :
    k.compressed.toList = k.tag :: Bytes.ofNat 32 k.x.val := by
  simp [compressed, tag, Coordinate.isOdd]

theorem tag_eq (k : PublicKey) : k.tag = 2 ∨ k.tag = 3 := by
  unfold tag
  split
  · exact Or.inr rfl
  · exact Or.inl rfl

/-- The octets that stand for a key: the compressed ones, both coordinates behind a 4, and, if the `y` is even,
the `x` alone behind a 5. -/
inductive Encodes (k : PublicKey) : Bytes → Prop
  | compressed : Encodes k (k.tag :: Bytes.ofNat 32 k.x.val)
  | uncompressed : Encodes k (4 :: (Bytes.ofNat 32 k.x.val ++ Bytes.ofNat 32 k.y.val))
  | compact (heven : k.y.isOdd = false) : Encodes k (5 :: Bytes.ofNat 32 k.x.val)

theorem ofPoint?_of_encodes {l : Bytes} {k : PublicKey} (h : k.Encodes l) : ofPoint? l = some k := by
  have hx : coordinate? (Bytes.toNat (Bytes.ofNat 32 k.x.val)) = some k.x :=
    (coordinate?_toNat_eq_some_iff (Bytes.length_ofNat 32 _)).mpr rfl
  have hy : coordinate? (Bytes.toNat (Bytes.ofNat 32 k.y.val)) = some k.y :=
    (coordinate?_toNat_eq_some_iff (Bytes.length_ofNat 32 _)).mpr rfl
  cases h with
  | compressed =>
    unfold tag
    cases hodd : k.y.isOdd <;>
      simp [ofPoint?, hx, lift?_eq_some_iff, hodd]
  | uncompressed =>
    have hkey : ofCoordinates? k.x k.y = some k := ofCoordinates?_eq_some_iff.mpr ⟨rfl, rfl⟩
    simp [ofPoint?, hx, hy, hkey]
  | compact heven => simp [ofPoint?, hx, lift?_eq_some_iff, heven]

theorem encodes_of_ofPoint? {l : Bytes} {k : PublicKey} (h : ofPoint? l = some k) : k.Encodes l := by
  cases l with
  | nil => cases h
  | cons t rest =>
    simp only [ofPoint?] at h
    split at h
    · next hlength =>
      obtain ⟨x, hx, h⟩ := Option.bind_eq_some_iff.mp h
      rw [(coordinate?_toNat_eq_some_iff hlength).mp hx]
      split at h
      · next ht =>
        obtain ⟨rfl, heven⟩ := lift?_eq_some_iff.mp h
        have htag : k.tag = 2 := by
          unfold tag
          rw [heven]
          rfl
        rw [Bool.or_eq_true, decide_eq_true_iff, decide_eq_true_iff] at ht
        rcases ht with rfl | rfl
        · rw [← htag]
          exact .compressed
        · exact .compact heven
      · obtain ⟨ht, h⟩ := Option.ite_none_right_eq_some.mp h
        obtain ⟨rfl, hodd⟩ := lift?_eq_some_iff.mp h
        have htag : k.tag = t := by
          unfold tag
          rw [hodd, ht]
          rfl
        rw [← htag]
        exact .compressed
    · obtain ⟨hlong, h⟩ := Option.ite_none_right_eq_some.mp h
      rw [Bool.and_eq_true, decide_eq_true_iff, decide_eq_true_iff] at hlong
      obtain ⟨x, hx, h⟩ := Option.bind_eq_some_iff.mp h
      obtain ⟨y, hy, h⟩ := Option.bind_eq_some_iff.mp h
      obtain ⟨rfl, rfl⟩ := ofCoordinates?_eq_some_iff.mp h
      have hfront : (rest.take 32).length = 32 := by
        rw [List.length_take]
        omega
      have hback : (rest.drop 32).length = 32 := by
        rw [List.length_drop]
        omega
      rw [hlong.2, ← List.take_append_drop 32 rest, (coordinate?_toNat_eq_some_iff hfront).mp hx,
        (coordinate?_toNat_eq_some_iff hback).mp hy]
      exact .uncompressed

theorem ofBytes_eq_ok_iff {l : Bytes} {k : PublicKey} : ofBytes l = .ok k ↔ k.Encodes l := by
  have hpoint : ofPoint? l = some k ↔ k.Encodes l := ⟨encodes_of_ofPoint?, ofPoint?_of_encodes⟩
  rw [← hpoint]
  unfold ofBytes
  cases l with
  | nil => simp [ofPoint?]
  | cons t rest =>
    rw [List.isEmpty_cons, if_neg Bool.false_ne_true]
    cases ofPoint? (t :: rest) <;> simp

/-- What the octets of a key are led by, and how many there are. -/
theorem length_of_ofBytes {l : Bytes} {k : PublicKey} (h : ofBytes l = .ok k) :
    ∃ tag rest, l = tag :: rest ∧ ((tag = 2 ∨ tag = 3 ∨ tag = 5) ∧ rest.length = 32 ∨
      tag = 4 ∧ rest.length = 64) := by
  cases ofBytes_eq_ok_iff.mp h with
  | compressed =>
    exact ⟨_, _, rfl, Or.inl ⟨k.tag_eq.imp_right Or.inl, Bytes.length_ofNat 32 _⟩⟩
  | uncompressed =>
    refine ⟨_, _, rfl, Or.inr ⟨rfl, ?_⟩⟩
    rw [List.length_append, Bytes.length_ofNat, Bytes.length_ofNat]
  | compact => exact ⟨_, _, rfl, Or.inl ⟨Or.inr (Or.inr rfl), Bytes.length_ofNat 32 _⟩⟩

theorem ofBytes_compressed (k : PublicKey) : ofBytes k.compressed.toList = .ok k := by
  rw [ofBytes_eq_ok_iff, toList_compressed]
  exact .compressed

/-- The texts of a key: any of its encodings, in digits of either case. -/
def SpelledBy (k : PublicKey) (s : String) : Prop := ∃ l, Hex.Spells (Utf8.encode s) l ∧ k.Encodes l

theorem ofHex_eq_ok_iff {s : String} {k : PublicKey} : ofHex s = .ok k ↔ k.SpelledBy s := by
  unfold ofHex SpelledBy
  simp only [← Hex.decode_eq_ok_iff, ← ofBytes_eq_ok_iff]
  cases Hex.decode s <;> simp

theorem ofHex_toHex (k : PublicKey) : ofHex k.toHex = .ok k := by
  unfold ofHex toHex
  rw [Hex.decode_encode]
  exact k.ofBytes_compressed

theorem spelledBy_toHex (k : PublicKey) : k.SpelledBy k.toHex := ofHex_eq_ok_iff.mp k.ofHex_toHex

/-- What is read from a compressed encoding is encoded as it was. -/
theorem compressed_of_ofBytes {t : UInt8} {rest : Bytes} {k : PublicKey} (ht : t = 2 ∨ t = 3)
    (h : ofBytes (t :: rest) = .ok k) : k.compressed.toList = t :: rest := by
  rw [toList_compressed]
  cases ofBytes_eq_ok_iff.mp h with
  | compressed => rfl
  | uncompressed => exact absurd ht (by decide)
  | compact => exact absurd ht (by decide)

theorem compressed_injective : Function.Injective compressed :=
  injective_of_read (fun o => ofBytes o.toList) ofBytes_compressed

/-- Keys that are compressed alike are equal. -/
theorem beq_iff_eq {a b : PublicKey} : (a == b) = true ↔ a = b := by
  constructor
  · intro h
    exact compressed_injective (of_decide_eq_true h)
  · rintro rfl
    exact decide_eq_true rfl

end PublicKey

end WalletAuth
