import Mathlib
import WalletAuth.Number.Chunks

/-! Pieces of a list of one length: how many there are, that pieces of that length, put one behind the
other, are cut where they were joined, and induction along the pieces. -/
namespace WalletAuth
set_option autoImplicit false

universe u

variable {α : Type u} {n : ℕ}

theorem chunks_of_length_le (hn : 0 < n) {l : List α} (hl : l ≠ []) (h : l.length ≤ n) :
    chunks n l = [l] := by
  cases l with
  | nil => exact absurd rfl hl
  | cons a l =>
    rw [chunks_cons hn, List.take_of_length_le h, List.drop_of_length_le h, chunks_nil]

theorem chunks_append (hn : 0 < n) {l : List α} (hl : l.length = n) (rest : List α) :
    chunks n (l ++ rest) = l :: chunks n rest := by
  cases l with
  | nil =>
    rw [List.length_nil] at hl
    omega
  | cons a l =>
    rw [List.cons_append, chunks_cons hn, ← List.cons_append, List.take_left' hl, List.drop_left' hl]

/-- Whole pieces do not take part in how what comes behind them is cut. -/
theorem chunks_append_of_dvd (hn : 0 < n) {l : List α} (hl : n ∣ l.length) (rest : List α) :
    chunks n (l ++ rest) = chunks n l ++ chunks n rest := by
  obtain ⟨k, hk⟩ := hl
  induction k generalizing l with
  | zero =>
    have hnil : l = [] := List.eq_nil_of_length_eq_zero hk
    rw [hnil, chunks_nil, List.nil_append, List.nil_append]
  | succ k ih =>
    rw [Nat.mul_succ] at hk
    have htake : (l.take n).length = n := by
      rw [List.length_take]
      omega
    have hdrop : (l.drop n).length = n * k := by
      rw [List.length_drop]
      omega
    rw [← List.take_append_drop n l, List.append_assoc, chunks_append hn htake, ih hdrop,
      chunks_append hn htake, List.cons_append]

theorem chunks_ne_nil (hn : 0 < n) {l : List α} (hl : l ≠ []) : chunks n l ≠ [] := by
  cases l with
  | nil => exact absurd rfl hl
  | cons a l =>
    rw [chunks_cons hn]
    exact List.cons_ne_nil _ _

/-- Induction along the pieces: the last one may be shorter, and each one before it is full. -/
theorem chunks_induction {motive : List α → List (List α) → Prop} (hn : 0 < n) (nil : motive [] [])
    (last : ∀ l, l ≠ [] → l.length ≤ n → motive l [l])
    (full : ∀ piece rest, piece.length = n → rest ≠ [] → motive rest (chunks n rest) →
      motive (piece ++ rest) (piece :: chunks n rest)) (l : List α) : motive l (chunks n l) := by
  induction hlen : l.length using Nat.strongRecOn generalizing l with
  | ind m ih =>
    by_cases hnil : l = []
    · subst hnil
      exact nil
    by_cases hle : l.length ≤ n
    · rw [chunks_of_length_le hn hnil hle]
      exact last l hnil hle
    · have htake : (l.take n).length = n := by
        rw [List.length_take]
        omega
      have hdrop : l.drop n ≠ [] := by
        apply List.ne_nil_of_length_pos
        rw [List.length_drop]
        omega
      have hshorter : (l.drop n).length < m := by
        rw [List.length_drop]
        omega
      have hstep := full _ _ htake hdrop (ih _ hshorter _ rfl)
      rwa [← chunks_append hn htake, List.take_append_drop] at hstep

theorem ne_nil_and_length_le_of_mem_chunks (hn : 0 < n) (l : List α) :
    ∀ piece ∈ chunks n l, piece ≠ [] ∧ piece.length ≤ n := by
  induction l using chunks_induction hn with
  | nil =>
    intro piece h
    cases h
  | last l hl hle =>
    intro piece h
    rw [List.mem_singleton.mp h]
    exact ⟨hl, hle⟩
  | full piece rest hpiece hrest ih =>
    rw [List.forall_mem_cons]
    refine ⟨⟨?_, hpiece.le⟩, ih⟩
    apply List.ne_nil_of_length_pos
    omega

theorem chunks_flatten (hn : 0 < n) {ls : List (List α)} (hls : ∀ l ∈ ls, l.length = n) :
    chunks n ls.flatten = ls := by
  induction ls with
  | nil => rfl
  | cons l ls ih =>
    rw [List.flatten_cons, chunks_append hn (hls l List.mem_cons_self),
      ih fun l' hl' => hls l' (List.mem_cons_of_mem l hl')]

theorem flatten_chunks (hn : 0 < n) (l : List α) : (chunks n l).flatten = l := by
  induction l using chunks_induction hn with
  | nil => rfl
  | last l hl hle => exact List.flatten_singleton
  | full piece rest hpiece hrest ih => rw [List.flatten_cons, ih]

/-- How many pieces there are, and what each one is of the list. -/
theorem chunks_eq_map_range (hn : 0 < n) (l : List α) :
    chunks n l = (List.range ((l.length + (n - 1)) / n)).map fun j => (l.drop (n * j)).take n := by
  induction l using chunks_induction hn with
  | nil =>
    have hnone : (0 + (n - 1)) / n = 0 := Nat.div_eq_of_lt (by omega)
    rw [List.length_nil, hnone]
    rfl
  | last l hl hle =>
    have hpos := List.length_pos_iff.mpr hl
    have hone : (l.length + (n - 1)) / n = 1 := Nat.div_eq_of_lt_le (by omega) (by omega)
    rw [hone, List.range_one, List.map_singleton, Nat.mul_zero, List.drop_zero,
      List.take_of_length_le hle]
  | full piece rest hpiece hrest ih =>
    have hmore : ((piece ++ rest).length + (n - 1)) / n = (rest.length + (n - 1)) / n + 1 := by
      rw [List.length_append, hpiece, Nat.add_assoc, Nat.add_comm, Nat.add_div_right _ hn]
    have hdrop : ∀ j, (piece ++ rest).drop (n * (j + 1)) = rest.drop (n * j) := by
      intro j
      rw [Nat.mul_succ, Nat.add_comm, ← List.drop_drop, List.drop_left' hpiece]
    rw [hmore, List.range_succ_eq_map, List.map_cons, List.map_map, Nat.mul_zero, List.drop_zero,
      List.take_left' hpiece, ih]
    refine congrArg (piece :: ·) (List.map_congr_left fun j _ => ?_)
    rw [Function.comp_apply, Nat.succ_eq_add_one, hdrop]

theorem length_chunks (hn : 0 < n) {l : List α} {k : ℕ} (h : l.length = n * k) :
    (chunks n l).length = k := by
  rw [chunks_eq_map_range hn, List.length_map, List.length_range, h, Nat.mul_add_div hn,
    Nat.div_eq_of_lt (Nat.sub_lt hn Nat.one_pos), Nat.add_zero]

end WalletAuth
