import Mathlib

/-! Computations that may fail, in sequence and over lists: a sequence succeeds if both parts do, and a
list of computations succeeds if each one does, element by element. -/
namespace WalletAuth
set_option autoImplicit false

universe u

variable {ε α β : Type u}

theorem bind_eq_ok_iff {x : Except ε α} {f : α → Except ε β} {b : β} :
    (x >>= f) = .ok b ↔ ∃ a, x = .ok a ∧ f a = .ok b := by
  cases x with
  | error e =>
    constructor
    · intro h
      cases h
    · rintro ⟨a, ha, -⟩
      cases ha
  | ok a =>
    constructor
    · intro h
      exact ⟨a, rfl, h⟩
    · rintro ⟨a', ha, hf⟩
      cases ha
      exact hf

theorem bind_eq_error_iff {x : Except ε α} {f : α → Except ε β} {e : ε} :
    (x >>= f) = .error e ↔ x = .error e ∨ ∃ a, x = .ok a ∧ f a = .error e := by
  cases x <;> simp [bind, Except.bind]

theorem map_eq_ok_iff {x : Except ε α} {f : α → β} {b : β} :
    x.map f = .ok b ↔ ∃ a, x = .ok a ∧ f a = b := by
  cases x <;> simp [Except.map]

theorem mapError_eq_ok_iff {ε' : Type u} {x : Except ε α} {f : ε → ε'} {a : α} :
    x.mapError f = .ok a ↔ x = .ok a := by
  cases x <;> simp [Except.mapError]

theorem map_eq_error_iff {x : Except ε α} {f : α → β} {e : ε} : x.map f = .error e ↔ x = .error e := by
  cases x <;> simp [Except.map]

theorem mapError_eq_error_iff {ε' : Type u} {x : Except ε α} {f : ε → ε'} {e : ε'} :
    x.mapError f = .error e ↔ ∃ cause, x = .error cause ∧ f cause = e := by
  cases x <;> simp [Except.mapError]

theorem exists_of_isOk {x : Except ε α} (h : x.isOk = true) : ∃ a, x = .ok a := by
  cases x with
  | error e => cases h
  | ok a => exact ⟨a, rfl⟩

theorem exists_ok_iff {x : Except ε α} : (∃ a, x = .ok a) ↔ ∀ e, x ≠ .error e := by
  cases x <;> simp

section

variable {x : Except ε α} {ready : Prop} {cause : ε → Prop}

/-- The causes of a failure are exact if there is always one of them unless a result is ready. -/
theorem eq_error_iff_of_or (hor : ready ∨ ∃ e, cause e) (hready : ready → ∃ a, x = .ok a)
    (hcause : ∀ e, cause e → x = .error e) {e : ε} : x = .error e ↔ cause e := by
  refine ⟨fun h => ?_, hcause e⟩
  rcases hor with hyes | ⟨e', he'⟩
  · obtain ⟨a, ha⟩ := hready hyes
    rw [h] at ha
    cases ha
  · have hsame := hcause e' he'
    rw [h] at hsame
    cases hsame
    exact he'

theorem exists_ok_iff_of_or (hor : ready ∨ ∃ e, cause e) (hready : ready → ∃ a, x = .ok a)
    (hcause : ∀ e, cause e → x = .error e) : (∃ a, x = .ok a) ↔ ready := by
  refine ⟨fun ⟨a, ha⟩ => ?_, hready⟩
  rcases hor with hyes | ⟨e, he⟩
  · exact hyes
  · rw [hcause e he] at ha
    cases ha

end

/-- What is read as it was written is written in different ways. -/
theorem injective_of_read (read : β → Except ε α) {write : α → β}
    (h : ∀ a, read (write a) = .ok a) : Function.Injective write := by
  intro a b hwrite
  have hread := h a
  rw [hwrite, h b] at hread
  exact (Except.ok.inj hread).symm

theorem mapM_eq_ok_iff {f : α → Except ε β} {l : List α} {r : List β} :
    l.mapM f = .ok r ↔ List.Forall₂ (fun a b => f a = .ok b) l r := by
  induction l generalizing r with
  | nil =>
    rw [List.mapM_nil, List.forall₂_nil_left_iff]
    constructor
    · intro h
      cases h
      rfl
    · rintro rfl
      rfl
  | cons a l ih =>
    rw [List.mapM_cons, List.forall₂_cons_left_iff]
    constructor
    · intro h
      obtain ⟨b, hb, hrest⟩ := bind_eq_ok_iff.mp h
      obtain ⟨bs, hbs, hr⟩ := bind_eq_ok_iff.mp hrest
      cases hr
      exact ⟨b, bs, hb, ih.mp hbs, rfl⟩
    · rintro ⟨b, bs, hb, hbs, rfl⟩
      refine bind_eq_ok_iff.mpr ⟨b, hb, bind_eq_ok_iff.mpr ⟨bs, ih.mpr hbs, rfl⟩⟩

/-- The results are specified as soon as that of each element is. -/
theorem mapM_eq_ok_iff_of_mem {f : α → Except ε β} {R : α → β → Prop} {l : List α} {r : List β}
    (hR : ∀ a ∈ l, ∀ b, f a = .ok b ↔ R a b) : l.mapM f = .ok r ↔ List.Forall₂ R l r := by
  rw [mapM_eq_ok_iff, List.forall₂_iff_zip, List.forall₂_iff_zip]
  refine and_congr_right fun _ => ⟨fun h a b hab => ?_, fun h a b hab => ?_⟩
  · exact (hR a (List.of_mem_zip hab).1 b).mp (h hab)
  · exact (hR a (List.of_mem_zip hab).1 b).mpr (h hab)

/-- A list of computations fails as the first one that does. -/
theorem mapM_eq_error_iff {f : α → Except ε β} {l : List α} {e : ε} :
    l.mapM f = .error e ↔ ∃ before a after, l = before ++ a :: after ∧
      (∀ b ∈ before, ∃ c, f b = .ok c) ∧ f a = .error e := by
  induction l with
  | nil =>
    rw [List.mapM_nil]
    constructor
    · intro h
      cases h
    · rintro ⟨before, a, after, h, -⟩
      exact absurd h.symm (List.append_ne_nil_of_right_ne_nil before (List.cons_ne_nil a after))
  | cons x l ih =>
    rw [List.mapM_cons]
    cases hx : f x with
    | error e' =>
      constructor
      · intro h
        cases h
        exact ⟨[], x, l, rfl, by simp, hx⟩
      · rintro ⟨before, a, after, hl, hbefore, ha⟩
        cases before with
        | nil =>
          obtain ⟨rfl, -⟩ := List.cons_eq_cons.mp hl
          rw [← hx, ha]
          rfl
        | cons b before =>
          obtain ⟨rfl, -⟩ := List.cons_eq_cons.mp hl
          obtain ⟨c, hc⟩ := hbefore x List.mem_cons_self
          rw [hx] at hc
          cases hc
    | ok y =>
      have hrest : ((Except.ok y : Except ε β) >>= fun b => l.mapM f >>= fun bs => pure (b :: bs)) =
          .error e ↔ l.mapM f = .error e := by
        show (l.mapM f >>= fun bs => pure (y :: bs)) = _ ↔ _
        cases l.mapM f with
        | error e' => exact Iff.rfl
        | ok bs => exact iff_of_false (by rintro ⟨⟩) (by rintro ⟨⟩)
      rw [hrest, ih]
      constructor
      · rintro ⟨before, a, after, rfl, hbefore, ha⟩
        refine ⟨x :: before, a, after, rfl, ?_, ha⟩
        rw [List.forall_mem_cons]
        exact ⟨⟨y, hx⟩, hbefore⟩
      · rintro ⟨before, a, after, hl, hbefore, ha⟩
        cases before with
        | nil =>
          obtain ⟨rfl, -⟩ := List.cons_eq_cons.mp hl
          rw [hx] at ha
          cases ha
        | cons b before =>
          obtain ⟨rfl, rfl⟩ := List.cons_eq_cons.mp hl
          exact ⟨before, a, after, rfl, fun b hb => hbefore b (List.mem_cons_of_mem x hb), ha⟩

/-- Whatever holds of all possible results holds of all results of a list. -/
theorem forall_of_mapM {f : α → Except ε β} {p : β → Prop} (hp : ∀ a b, f a = .ok b → p b)
    {l : List α} {r : List β} (h : l.mapM f = .ok r) : ∀ b ∈ r, p b := by
  have hall := mapM_eq_ok_iff.mp h
  clear h
  induction hall with
  | nil =>
    intro b hb
    cases hb
  | cons hab _ ih =>
    intro b hb
    rcases List.mem_cons.mp hb with rfl | hb
    · exact hp _ _ hab
    · exact ih b hb

theorem exists_of_mem_of_mapM {f : α → Except ε β} {l : List α} {r : List β}
    (h : l.mapM f = .ok r) {a : α} (ha : a ∈ l) : ∃ b ∈ r, f a = .ok b := by
  have hall := mapM_eq_ok_iff.mp h
  clear h
  induction hall with
  | nil => cases ha
  | cons hab _ ih =>
    rcases List.mem_cons.mp ha with rfl | ha
    · exact ⟨_, List.mem_cons_self, hab⟩
    · obtain ⟨b, hb, hfb⟩ := ih ha
      exact ⟨b, List.mem_cons_of_mem _ hb, hfb⟩

/-- What the results have in common with the elements can be read off either list. -/
theorem map_of_mapM {γ : Type u} {f : α → Except ε β} {g : α → γ} {k : β → γ}
    (hk : ∀ a b, f a = .ok b → k b = g a) {l : List α} {r : List β} (h : l.mapM f = .ok r) :
    r.map k = l.map g := by
  have hall := mapM_eq_ok_iff.mp h
  clear h
  induction hall with
  | nil => rfl
  | cons hab _ ih => rw [List.map_cons, List.map_cons, hk _ _ hab, ih]

/-- What is looked for by a property that results have in common with the elements is found in one place
of both lists. -/
theorem find?_of_forall₂ {R : α → β → Prop} {p : α → Bool} {q : β → Bool}
    (hpq : ∀ a b, R a b → p a = q b) {l : List α} {r : List β} (h : List.Forall₂ R l r) :
    Option.Rel R (l.find? p) (r.find? q) := by
  induction h with
  | nil => exact .none
  | @cons a b l r hab _ ih =>
    rw [List.find?_cons, List.find?_cons, hpq a b hab]
    cases q b with
    | true => exact .some hab
    | false => exact ih

theorem exists_mapM {f : α → Except ε β} {l : List α} (h : ∀ a ∈ l, ∃ b, f a = .ok b) :
    ∃ r, l.mapM f = .ok r := by
  induction l with
  | nil => exact ⟨[], rfl⟩
  | cons a l ih =>
    obtain ⟨b, hb⟩ := h a List.mem_cons_self
    obtain ⟨r, hr⟩ := ih fun c hc => h c (List.mem_cons_of_mem a hc)
    rw [List.mapM_cons, hb, hr]
    exact ⟨b :: r, rfl⟩

end WalletAuth
