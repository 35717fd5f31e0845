/-! Cutting a list into consecutive pieces of one length, of which only the last may be shorter. -/
namespace WalletAuth
set_option autoImplicit false

universe u

/-- The consecutive pieces of `l`, each of `n` elements and the last of what is left. -/
def chunks {α : Type u} (n : Nat) (l : List α) : List (List α) := go l.length l
where
  go : Nat → List α → List (List α)
    | 0, _ => []
    | _ + 1, [] => []
    | limit + 1, a :: l => (a :: l).take n :: go limit ((a :: l).drop n)

@[simp] theorem chunks_nil {α : Type u} (n : Nat) : chunks n ([] : List α) = [] := rfl

/-- A limit past the length of the list makes no difference. -/
theorem chunks.go_eq {α : Type u} {n : Nat} (hn : 0 < n) {limit : Nat} {l : List α}
    (h : l.length ≤ limit) : chunks.go n limit l = chunks n l := by
  induction limit using Nat.strongRecOn generalizing l with
  | ind limit ih =>
    cases l with
    | nil => cases limit <;> rfl
    | cons a l =>
      cases limit with
      | zero => simp at h
      | succ limit =>
        simp only [List.length_cons] at h
        have hdrop : ((a :: l).drop n).length ≤ l.length := by
          simp only [List.length_drop, List.length_cons]; omega
        rw [chunks, List.length_cons, go, go, ih limit (by omega) (by omega),
          ih l.length (by omega) hdrop]

theorem chunks_cons {α : Type u} {n : Nat} (hn : 0 < n) (a : α) (l : List α) :
    chunks n (a :: l) = (a :: l).take n :: chunks n ((a :: l).drop n) := by
  have hdrop : ((a :: l).drop n).length ≤ l.length := by
    simp only [List.length_drop, List.length_cons]; omega
  rw [chunks, List.length_cons, chunks.go, chunks.go_eq hn hdrop]

end WalletAuth
