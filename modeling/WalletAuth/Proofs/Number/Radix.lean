import Mathlib
import WalletAuth.Number.Radix

/-! Reading digit lists back. A number written with a fixed count of digits comes back modulo a power
of the base, and digits below the base come back from their number, less leading zeros. As
`rebase` carries leading zeros over, rewriting in another base can be undone. -/
namespace WalletAuth.Radix
set_option autoImplicit false

/-! ## The number of a digit list -/

@[simp] theorem ofDigits_nil (b : ℕ) : ofDigits b [] = 0 := rfl

theorem ofDigits_concat (b : ℕ) (l : List ℕ) (d : ℕ) :
    ofDigits b (l ++ [d]) = ofDigits b l * b + d := by
  unfold ofDigits
  rw [List.foldl_append]
  rfl

/-- The same number with the least significant digit first, as the library reads it. -/
theorem ofDigits_eq (b : ℕ) (l : List ℕ) : ofDigits b l = Nat.ofDigits b l.reverse := by
  induction l using List.reverseRecOn with
  | nil => rfl
  | append_singleton l d ih =>
    rw [ofDigits_concat, ih, List.reverse_append, List.reverse_singleton, List.singleton_append,
      Nat.ofDigits_cons]
    ring

theorem ofDigits_append (b : ℕ) (l m : List ℕ) :
    ofDigits b (l ++ m) = ofDigits b l * b ^ m.length + ofDigits b m := by
  simp only [ofDigits_eq, List.reverse_append, Nat.ofDigits_append, List.length_reverse]
  ring

theorem ofDigits_cons (b d : ℕ) (l : List ℕ) :
    ofDigits b (d :: l) = d * b ^ l.length + ofDigits b l := by
  rw [← List.singleton_append, ofDigits_append]
  simp [ofDigits]

theorem ofDigits_lt {b : ℕ} {l : List ℕ} (hl : ∀ d ∈ l, d < b) : ofDigits b l < b ^ l.length := by
  induction l with
  | nil => simp
  | cons d l ih =>
    have hd : d + 1 ≤ b := hl d List.mem_cons_self
    have hr := ih fun e he => hl e (List.mem_cons_of_mem d he)
    rw [ofDigits_cons, List.length_cons, pow_succ']
    calc d * b ^ l.length + ofDigits b l < (d + 1) * b ^ l.length := by rw [Nat.succ_mul]; omega
      _ ≤ b * b ^ l.length := Nat.mul_le_mul_right _ hd

theorem ofDigits_dropWhile (b : ℕ) (l : List ℕ) :
    ofDigits b (l.dropWhile (· == 0)) = ofDigits b l := by
  induction l with
  | nil => rfl
  | cons d l ih =>
    rw [List.dropWhile_cons]
    split
    · next h =>
      rw [ih, ofDigits_cons, beq_iff_eq.mp h, Nat.zero_mul, Nat.zero_add]
    · rfl

theorem dropWhile_of_head {l : List ℕ} (hhead : l.head? ≠ some 0) : l.dropWhile (· == 0) = l := by
  cases l with
  | nil => rfl
  | cons d l =>
    have hd : (d == 0) = false := beq_eq_false_iff_ne.mpr fun h => hhead (by rw [h]; rfl)
    rw [List.dropWhile_cons, hd, if_neg Bool.false_ne_true]

/-! ## Writing with a fixed count of digits -/

theorem ofDigits_toDigits (b width n : ℕ) : ofDigits b (toDigits b width n) = n % b ^ width := by
  induction width generalizing n with
  | zero => simp [Nat.mod_one]
  | succ width ih =>
    rw [toDigits_succ, ofDigits_concat, ih, pow_succ', Nat.mod_mul]
    ring

theorem lt_of_mem_toDigits {b width n d : ℕ} (hb : 0 < b) (hd : d ∈ toDigits b width n) :
    d < b := by
  induction width generalizing n with
  | zero => simp at hd
  | succ width ih =>
    rw [toDigits_succ, List.mem_append, List.mem_singleton] at hd
    rcases hd with hd | rfl
    · exact ih hd
    · exact Nat.mod_lt n hb

theorem toDigits_ofDigits {b : ℕ} {l : List ℕ} (hl : ∀ d ∈ l, d < b) :
    toDigits b l.length (ofDigits b l) = l := by
  induction l using List.reverseRecOn with
  | nil => rfl
  | append_singleton l d ih =>
    have hd : d < b := hl d (by simp)
    have hr := ih fun e he => hl e (List.mem_append_left _ he)
    have hdiv : (ofDigits b l * b + d) / b = ofDigits b l := by
      rw [Nat.add_comm, Nat.add_mul_div_right _ _ (by omega), Nat.div_eq_of_lt hd, Nat.zero_add]
    have hmod : (ofDigits b l * b + d) % b = d := by
      rw [Nat.add_comm, Nat.add_mul_mod_self_right, Nat.mod_eq_of_lt hd]
    rw [List.length_append, List.length_singleton, ofDigits_concat, toDigits_succ, hdiv, hmod, hr]

/-- The digits that are written depend on nothing in front of them. -/
theorem toDigits_mod {b : ℕ} (hb : 0 < b) (width n : ℕ) :
    toDigits b width (n % b ^ width) = toDigits b width n := by
  have hlt : ∀ d ∈ toDigits b width n, d < b := fun d hd => lt_of_mem_toDigits hb hd
  have hback := toDigits_ofDigits hlt
  rwa [length_toDigits, ofDigits_toDigits] at hback

theorem toDigits_add (b m width n : ℕ) :
    toDigits b (m + width) n = toDigits b m (n / b ^ width) ++ toDigits b width n := by
  induction width generalizing n with
  | zero => rw [Nat.add_zero, pow_zero, Nat.div_one, toDigits_zero, List.append_nil]
  | succ width ih =>
    rw [← Nat.add_assoc, toDigits_succ, ih, toDigits_succ, Nat.div_div_eq_div_mul, ← pow_succ',
      List.append_assoc]

/-! ## Writing with the fewest digits -/

theorem digits.go_eq {b : ℕ} (hb : 1 < b) :
    ∀ {limit n : ℕ} {acc : List ℕ}, n < 2 ^ limit →
      digits.go b limit n acc = (Nat.digits b n).reverse ++ acc
  | 0, n, acc, hn => by
      have hn0 : n = 0 := by simpa using hn
      subst hn0
      simp [go]
  | limit + 1, n, acc, hn => by
      rw [go]
      split
      · next h => simp [h]
      · next h =>
        have hdiv : n / b < 2 ^ limit := by
          have hle : n / b ≤ n / 2 := Nat.div_le_div_left hb (by omega)
          rw [pow_succ] at hn
          omega
        rw [go_eq hb hdiv, Nat.digits_def' hb (Nat.pos_of_ne_zero h),
          List.reverse_cons]
        simp

/-- The same digits with the least significant one first, as the library writes them. -/
theorem digits_eq {b : ℕ} (hb : 1 < b) (n : ℕ) : digits b n = (Nat.digits b n).reverse := by
  rw [digits, digits.go_eq hb Nat.lt_log2_self, List.append_nil]

theorem ofDigits_digits {b : ℕ} (hb : 1 < b) (n : ℕ) : ofDigits b (digits b n) = n := by
  rw [digits_eq hb, ofDigits_eq, List.reverse_reverse, Nat.ofDigits_digits]

theorem lt_of_mem_digits {b n d : ℕ} (hb : 1 < b) (hd : d ∈ digits b n) : d < b := by
  rw [digits_eq hb, List.mem_reverse] at hd
  exact Nat.digits_lt_base hb hd

theorem length_digits_le_iff {b k n : ℕ} (hb : 1 < b) : (digits b n).length ≤ k ↔ n < b ^ k := by
  rw [digits_eq hb, List.length_reverse]
  exact Nat.digits_length_le_iff hb n

theorem length_digits {b k n : ℕ} (hb : 1 < b) (hlow : b ^ k ≤ n) (hhigh : n < b ^ (k + 1)) :
    (digits b n).length = k + 1 := by
  have hmore := mt (length_digits_le_iff hb).mp hlow.not_gt
  have hless := (length_digits_le_iff hb).mpr hhigh
  omega

theorem head_digits_ne_zero {b n d : ℕ} (hb : 1 < b) {l : List ℕ} (h : digits b n = d :: l) :
    d ≠ 0 := by
  rw [digits_eq hb, List.reverse_eq_cons_iff] at h
  have hne : Nat.digits b n ≠ [] := by rw [h]; simp
  have hlast := Nat.getLast_digit_ne_zero b (Nat.digits_ne_nil_iff_ne_zero.mp hne)
  simpa [h] using hlast

theorem digits_ofDigits {b : ℕ} (hb : 1 < b) {l : List ℕ} (hl : ∀ d ∈ l, d < b) :
    digits b (ofDigits b l) = l.dropWhile (· == 0) := by
  have hlt : ∀ d ∈ (l.dropWhile (· == 0)).reverse, d < b := by
    intro d hd
    exact hl d ((List.dropWhile_suffix _).subset (List.mem_reverse.mp hd))
  have hlast : ∀ h : (l.dropWhile (· == 0)).reverse ≠ [],
      (l.dropWhile (· == 0)).reverse.getLast h ≠ 0 := by
    intro h
    rw [List.getLast_reverse]
    have hhead := List.head_dropWhile_not (· == 0) (l := l) (by simpa using h)
    simpa using hhead
  rw [← ofDigits_dropWhile, digits_eq hb, ofDigits_eq, Nat.digits_ofDigits b hb _ hlt hlast,
    List.reverse_reverse]

/-- Digits that no zero leads come back from their number as they are. -/
theorem digits_ofDigits_of_head {b : ℕ} (hb : 1 < b) {l : List ℕ} (hl : ∀ d ∈ l, d < b)
    (hhead : l.head? ≠ some 0) : digits b (ofDigits b l) = l := by
  rw [digits_ofDigits hb hl, dropWhile_of_head hhead]

/-! ## Changing the base -/

theorem beq_zero_of_mem_takeWhile {l : List ℕ} :
    ∀ d ∈ l.takeWhile (· == 0), (d == 0) = true := by
  intro d hd
  have h := List.mem_takeWhile_imp hd
  exact h

theorem lt_of_mem_rebase {b c d : ℕ} (hc : 1 < c) {l : List ℕ} (hd : d ∈ rebase b c l) : d < c := by
  rw [rebase, List.mem_append] at hd
  rcases hd with hd | hd
  · rw [beq_iff_eq.mp (beq_zero_of_mem_takeWhile d hd)]
    omega
  · exact lt_of_mem_digits hc hd

theorem takeWhile_rebase {b c : ℕ} (hc : 1 < c) (l : List ℕ) :
    (rebase b c l).takeWhile (· == 0) = l.takeWhile (· == 0) := by
  have hnone : (digits c (ofDigits b l)).takeWhile (· == 0) = [] := by
    cases h : digits c (ofDigits b l) with
    | nil => rfl
    | cons d ds => simp [head_digits_ne_zero hc h]
  rw [rebase, List.takeWhile_append_of_pos beq_zero_of_mem_takeWhile, hnone, List.append_nil]

theorem ofDigits_rebase {b c : ℕ} (hc : 1 < c) (l : List ℕ) :
    ofDigits c (rebase b c l) = ofDigits b l := by
  have hdrop : (rebase b c l).dropWhile (· == 0) = (digits c (ofDigits b l)).dropWhile (· == 0) := by
    rw [rebase, List.dropWhile_append_of_pos beq_zero_of_mem_takeWhile]
  rw [← ofDigits_dropWhile, hdrop, ofDigits_dropWhile, ofDigits_digits hc]

theorem rebase_replicate_append {b : ℕ} (c : ℕ) {l : List ℕ} (hhead : l.head? ≠ some 0) (k : ℕ) :
    rebase b c (List.replicate k 0 ++ l) = List.replicate k 0 ++ digits c (ofDigits b l) := by
  have hzeros : ∀ d ∈ List.replicate k 0, (d == 0) = true := by
    intro d hd
    rw [List.eq_of_mem_replicate hd]
    rfl
  have hdrop : (List.replicate k 0 ++ l).dropWhile (· == 0) = l := by
    rw [List.dropWhile_append_of_pos hzeros, dropWhile_of_head hhead]
  have htake : (List.replicate k 0 ++ l).takeWhile (· == 0) = List.replicate k 0 := by
    have hsplit := List.takeWhile_append_dropWhile (p := (· == 0)) (l := List.replicate k 0 ++ l)
    rw [hdrop] at hsplit
    exact List.append_cancel_right hsplit
  rw [rebase, htake, ← ofDigits_dropWhile b (List.replicate k 0 ++ l), hdrop]

/-- Rewriting in another base can be undone. -/
theorem rebase_rebase {b c : ℕ} (hb : 1 < b) (hc : 1 < c) {l : List ℕ} (hl : ∀ d ∈ l, d < b) :
    rebase c b (rebase b c l) = l := by
  rw [rebase, takeWhile_rebase hc, ofDigits_rebase hc, digits_ofDigits hb hl,
    List.takeWhile_append_dropWhile]

end WalletAuth.Radix
