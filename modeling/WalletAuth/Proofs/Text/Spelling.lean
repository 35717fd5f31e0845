import Mathlib
import WalletAuth.Proofs.Number.Radix
import WalletAuth.Proofs.Text.Plain
import WalletAuth.Text.Numeral

/-! What numerals spell: one digit at least, behind one sign at most. The reader of signed numerals accepts
this grammar and nothing else, and a numeral of few digits spells a small number. -/
namespace WalletAuth.Numeral
set_option autoImplicit false

/-- A run of digits spells a number; a further digit at the end is added to the `base`-fold of it. -/
inductive Spells (base : ℕ) (IsDigit : UInt8 → ℕ → Prop) : Bytes → ℕ → Prop
  | digit {b : UInt8} {d : ℕ} (hb : IsDigit b d) : Spells base IsDigit [b] d
  | concat {l : Bytes} {n : ℕ} {b : UInt8} {d : ℕ} (hl : Spells base IsDigit l n) (hb : IsDigit b d) :
    Spells base IsDigit (l ++ [b]) (n * base + d)

inductive SpellsSigned (base : ℕ) (IsDigit : UInt8 → ℕ → Prop) : Bytes → ℤ → Prop
  | bare {l : Bytes} {n : ℕ} (h : Spells base IsDigit l n) : SpellsSigned base IsDigit l n
  | plus {l : Bytes} {n : ℕ} (h : Spells base IsDigit l n) :
    SpellsSigned base IsDigit (Char.octet '+' :: l) n
  | minus {l : Bytes} {n : ℕ} (h : Spells base IsDigit l n) :
    SpellsSigned base IsDigit (Char.octet '-' :: l) (-n)

variable {base n : ℕ} {IsDigit : UInt8 → ℕ → Prop} {digit? : UInt8 → Option ℕ} {l : Bytes} {v : ℤ}

theorem Spells.ne_nil (h : Spells base IsDigit l n) : l ≠ [] := by
  cases h with
  | digit hb => exact List.cons_ne_nil _ _
  | concat hl hb => exact List.append_ne_nil_of_right_ne_nil _ (List.cons_ne_nil _ _)

theorem Spells.exists_digit (h : Spells base IsDigit l n) : ∀ b ∈ l, ∃ d, IsDigit b d := by
  induction h with
  | @digit b d hb =>
    intro c hc
    rw [List.mem_singleton.mp hc]
    exact ⟨d, hb⟩
  | @concat l n b d hl hb ih =>
    intro c hc
    rcases List.mem_append.mp hc with hc | hc
    · exact ih c hc
    · rw [List.mem_singleton.mp hc]
      exact ⟨d, hb⟩

theorem SpellsSigned.mem (h : SpellsSigned base IsDigit l v) :
    ∀ b ∈ l, b = Char.octet '+' ∨ b = Char.octet '-' ∨ ∃ d, IsDigit b d := by
  intro b hb
  cases h with
  | bare h => exact Or.inr (Or.inr (h.exists_digit b hb))
  | plus h => exact (List.mem_cons.mp hb).imp_right fun hb => Or.inr (h.exists_digit b hb)
  | minus h => exact Or.inr ((List.mem_cons.mp hb).imp_right fun hb => h.exists_digit b hb)

/-! ## Size -/

theorem Spells.lt (hlt : ∀ b d, IsDigit b d → d < base) (h : Spells base IsDigit l n) :
    n < base ^ l.length := by
  induction h with
  | digit hb =>
    rw [List.length_singleton, pow_one]
    exact hlt _ _ hb
  | @concat l n b d _ hb ih =>
    have hd := hlt b d hb
    rw [List.length_append, List.length_singleton, pow_succ]
    calc n * base + d < (n + 1) * base := by rw [Nat.succ_mul]; omega
      _ ≤ base ^ l.length * base := Nat.mul_le_mul_right base ih

/-- A sign takes the place of a digit, so that a numeral without one may be the larger. -/
theorem SpellsSigned.natAbs_lt (hlt : ∀ b d, IsDigit b d → d < base) (hbase : 0 < base)
    (h : SpellsSigned base IsDigit l v) : v.natAbs < base ^ l.length := by
  cases h with
  | bare h =>
    rw [Int.natAbs_natCast]
    exact h.lt hlt
  | @plus l n h =>
    rw [Int.natAbs_natCast, List.length_cons]
    exact (h.lt hlt).trans_le (Nat.pow_le_pow_right hbase (Nat.le_succ _))
  | @minus l n h =>
    rw [Int.natAbs_neg, Int.natAbs_natCast, List.length_cons]
    exact (h.lt hlt).trans_le (Nat.pow_le_pow_right hbase (Nat.le_succ _))

/-- What a negative number is spelled by. -/
theorem SpellsSigned.exists_of_neg (h : SpellsSigned base IsDigit l v) (hv : v < 0) :
    ∃ figures, ∃ n : ℕ, l = Char.octet '-' :: figures ∧ v = -n ∧ Spells base IsDigit figures n := by
  cases h with
  | bare h => exact absurd hv (not_lt.mpr (Int.natCast_nonneg _))
  | plus h => exact absurd hv (not_lt.mpr (Int.natCast_nonneg _))
  | @minus figures n h => exact ⟨figures, n, rfl, rfl, h⟩

/-! ## Reading -/

theorem mapM_concat_eq_some_iff (l : Bytes) (b : UInt8) (ds : List ℕ) :
    (l ++ [b]).mapM digit? = some ds ↔
      ∃ ds' d, l.mapM digit? = some ds' ∧ digit? b = some d ∧ ds = ds' ++ [d] := by
  rw [List.mapM_append, List.mapM_cons, List.mapM_nil]
  simp only [bind, pure, Option.bind_eq_some_iff, Option.some.injEq]
  constructor
  · rintro ⟨ds', hds', l', ⟨d, hd, rest, rfl, rfl⟩, rfl⟩
    exact ⟨ds', d, hds', hd, rfl⟩
  · rintro ⟨ds', d, hds', hd, rfl⟩
    exact ⟨ds', hds', [d], ⟨d, hd, [], rfl, rfl⟩, rfl⟩

theorem spells_iff (hdigit : ∀ b d, digit? b = some d ↔ IsDigit b d) :
    Spells base IsDigit l n ↔ l ≠ [] ∧ ∃ ds, l.mapM digit? = some ds ∧ Radix.ofDigits base ds = n := by
  constructor
  · intro h
    refine ⟨h.ne_nil, ?_⟩
    induction h with
    | @digit b d hb =>
      refine ⟨[d], (mapM_concat_eq_some_iff [] b _).mpr ⟨[], d, rfl, (hdigit b d).mpr hb, rfl⟩, ?_⟩
      simp [Radix.ofDigits]
    | @concat l n b d _ hb ih =>
      obtain ⟨ds, hds, rfl⟩ := ih
      exact ⟨ds ++ [d], (mapM_concat_eq_some_iff l b _).mpr ⟨ds, d, hds, (hdigit b d).mpr hb, rfl⟩,
        Radix.ofDigits_concat base ds d⟩
  · rintro ⟨hne, ds, hds, rfl⟩
    induction l using List.reverseRecOn generalizing ds with
    | nil => exact absurd rfl hne
    | append_singleton l b ih =>
      obtain ⟨before, d, hbefore, hd, rfl⟩ := (mapM_concat_eq_some_iff l b ds).mp hds
      have hb := (hdigit b d).mp hd
      by_cases hl : l = []
      · subst hl
        cases hbefore
        simpa [Radix.ofDigits] using Spells.digit hb
      · rw [Radix.ofDigits_concat]
        exact .concat (ih hl before hbefore) hb

theorem natural?_eq_some_iff (hdigit : ∀ b d, digit? b = some d ↔ IsDigit b d) :
    natural? base digit? l = some n ↔ Spells base IsDigit l n := by
  unfold natural?
  rw [spells_iff hdigit]
  split
  · next hnil => simp [List.isEmpty_iff.mp hnil]
  · next hne => simp [mt List.isEmpty_iff.mpr hne]

/-- A numeral is read exactly if it follows the grammar, as the number that it spells. The signs must not be
digits, or a sign could be taken for one. -/
theorem signed?_eq_some_iff (hdigit : ∀ b d, digit? b = some d ↔ IsDigit b d)
    (hplus : ∀ d, ¬ IsDigit (Char.octet '+') d) (hminus : ∀ d, ¬ IsDigit (Char.octet '-') d) :
    signed? base digit? l = some v ↔ SpellsSigned base IsDigit l v := by
  have hnatural : ∀ {l n}, natural? base digit? l = some n ↔ Spells base IsDigit l n :=
    natural?_eq_some_iff hdigit
  constructor
  · intro h
    unfold signed? at h
    split at h
    · cases h
    · next b rest =>
      split at h
      · next hb =>
        obtain ⟨n, hn, rfl⟩ := Option.map_eq_some_iff.mp h
        rw [hb]
        exact .plus (hnatural.mp hn)
      · split at h
        · next hb =>
          obtain ⟨n, hn, rfl⟩ := Option.map_eq_some_iff.mp h
          rw [hb]
          exact .minus (hnatural.mp hn)
        · obtain ⟨n, hn, rfl⟩ := Option.map_eq_some_iff.mp h
          exact .bare (hnatural.mp hn)
  · intro h
    cases h with
    | @bare l n h =>
      cases hl : l with
      | nil => exact absurd hl h.ne_nil
      | cons b rest =>
        have hfirst := h.exists_digit b (hl ▸ List.mem_cons_self)
        have hnoplus : b ≠ 0x2b := by
          rintro rfl
          exact hfirst.elim hplus
        have hnominus : b ≠ 0x2d := by
          rintro rfl
          exact hfirst.elim hminus
        rw [signed?, if_neg hnoplus, if_neg hnominus, ← hl, hnatural.mpr h]
        rfl
    | @plus l n h =>
      show (natural? base digit? l).map Int.ofNat = _
      rw [hnatural.mpr h]
      rfl
    | @minus l n h =>
      show (natural? base digit? l).map (fun v => -Int.ofNat v) = _
      rw [hnatural.mpr h]
      rfl

end WalletAuth.Numeral
