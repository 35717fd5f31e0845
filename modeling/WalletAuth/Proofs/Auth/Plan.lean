import Mathlib
import WalletAuth.Auth.Authenticator
import WalletAuth.Proofs.Except
import WalletAuth.Proofs.Http.Headers

/-! What authenticators write. Both ways of writing take the same steps: names and texts are looked at, then
names are cleared and texts become the only values of their names. Nothing can fail once a field has
changed, so the steps lead to the fields that are planned or leave all of them as they were. What was
written is known for the names of a plan, and all other names keep their values. -/
namespace WalletAuth.Auth
open Http
set_option autoImplicit false

/-! ## Names -/

/-- The form in which names are compared. -/
def lowered (s : String) : List Char := s.toList.map lowerAscii

namespace HeaderNames

def all (names : HeaderNames) : List String :=
  [names.xpub, names.accessKey, names.hash, names.nonce, names.time, names.signature]

end HeaderNames

/-! ## Plans -/

/-- What header fields are to say: texts under names, and names that are to have no values. -/
structure Plan where
  texts : List (String × String)
  stale : List String

namespace Plan

def names (plan : Plan) : List String := plan.stale ++ plan.texts.map Prod.fst

/-- The header fields that a plan leads to, or the error of the first name or text that is refused. -/
def write (plan : Plan) (m : HeaderMap) : Except Error HeaderMap := do
  let fields ← plan.texts.mapM Payload.headerField
  let stale ← plan.stale.mapM Payload.headerName
  return (m.eraseAll stale).insertAll fields

/-- The steps that carry a plan out in place. -/
def steps (plan : Plan) : HeaderM Unit := do
  let fields ← ofExcept (plan.texts.mapM Payload.headerField)
  let stale ← ofExcept (plan.stale.mapM Payload.headerName)
  stale.forM eraseField
  fields.forM insertField

end Plan

/-! ## Steps in place -/

/-- How steps from the state `s` end that get to another state, or to an error with nothing changed. -/
def settle {σ : Type} (s : σ) : Except Error σ → EStateM.Result Error σ Unit
  | .ok s' => .ok () s'
  | .error e => .error e s

theorem settle_eq_ok_iff {σ : Type} {s s' : σ} {r : Except Error σ} :
    settle s r = .ok () s' ↔ r = .ok s' := by
  cases r <;> simp [settle]

theorem settle_eq_error_iff {σ : Type} {s s' : σ} {r : Except Error σ} {e : Error} :
    settle s r = .error e s' ↔ r = .error e ∧ s = s' := by
  cases r <;> simp [settle]

/-- To look at something changes no state. -/
theorem run_ofExcept_bind {σ α β : Type} (x : Except Error α) (f : α → EStateM Error σ β) (s : σ) :
    (ofExcept x >>= f).run s = match x with
      | .ok a => (f a).run s
      | .error e => .error e s := by
  cases x <;> rfl

theorem run_forM_eraseField (names : List HeaderName) (m : HeaderMap) :
    (names.forM eraseField).run m = .ok () (m.eraseAll names) := by
  induction names generalizing m with
  | nil => rfl
  | cons n names ih => exact ih (m.erase n)

theorem run_forM_insertField (fields : List (HeaderName × HeaderValue)) (m : HeaderMap) :
    (fields.forM insertField).run m = .ok () (m.insertAll fields) := by
  induction fields generalizing m with
  | nil => rfl
  | cons f fields ih => exact ih (m.insert f.1 f.2)

/-- Names and texts are looked at before any field changes, and no change fails, so the steps of a plan
change all that is planned or nothing. -/
theorem Plan.run_steps (plan : Plan) (m : HeaderMap) : plan.steps.run m = settle m (plan.write m) := by
  unfold steps write
  rw [run_ofExcept_bind]
  cases plan.texts.mapM Payload.headerField with
  | error e => rfl
  | ok fields =>
    dsimp only
    rw [run_ofExcept_bind]
    cases plan.stale.mapM Payload.headerName with
    | error e => rfl
    | ok stale =>
      have hthen : (stale.forM eraseField >>= fun _ => fields.forM insertField).run m =
          (fields.forM insertField).run (m.eraseAll stale) := by
        rw [EStateM.run_bind, run_forM_eraseField]
      exact hthen.trans (run_forM_insertField fields (m.eraseAll stale))

namespace Payload

def plan (p : Payload) (names : HeaderNames) : Plan :=
  ⟨p.fieldTexts names, [(p.identityNames names).2]⟩

theorem writeHeaders_eq (p : Payload) (names : HeaderNames) :
    p.writeHeaders names = (p.plan names).steps := by
  unfold writeHeaders plan Plan.steps
  funext m
  rw [List.mapM_cons, List.mapM_nil]
  cases (p.fieldTexts names).mapM headerField with
  | error e => rfl
  | ok fields => cases headerName (p.identityNames names).2 <;> rfl

theorem write_eq (p : Payload) (names : HeaderNames) (m : HeaderMap) :
    p.write names m = (p.plan names).write m := by
  unfold write
  rw [writeHeaders_eq, Plan.run_steps]
  cases (p.plan names).write m <;> rfl

theorem headerName_eq_ok_iff {s : String} {n : HeaderName} :
    headerName s = .ok n ↔ HeaderName.ofString? s = some n := by
  unfold headerName
  cases HeaderName.ofString? s <;> simp

theorem headerName_eq_error_iff {s : String} {e : Error} :
    headerName s = .error e ↔ HeaderName.ofString? s = none ∧ e = .headerName := by
  unfold headerName
  cases HeaderName.ofString? s <;> simp [eq_comm]

theorem headerValue_eq_ok_iff {s : String} {v : HeaderValue} :
    headerValue s = .ok v ↔ HeaderValue.ofString? s = some v := by
  unfold headerValue
  cases HeaderValue.ofString? s <;> simp

theorem headerField_eq_ok_iff {t : String × String} {f : HeaderName × HeaderValue} :
    headerField t = .ok f ↔
      HeaderName.ofString? t.1 = some f.1 ∧ HeaderValue.ofString? t.2 = some f.2 := by
  unfold headerField
  simp only [bind_eq_ok_iff, headerName_eq_ok_iff, headerValue_eq_ok_iff]
  constructor
  · rintro ⟨n, hn, v, hv, h⟩
    cases h
    exact ⟨hn, hv⟩
  · rintro ⟨hn, hv⟩
    exact ⟨_, hn, _, hv, rfl⟩

/-- A plain text is refused for its name only. -/
theorem name_of_headerField_eq_error {t : String × String} {e : Error}
    (hplain : ∀ c ∈ t.2.toList, Char.IsPlain c) (h : headerField t = .error e) :
    HeaderName.ofString? t.1 = none ∧ e = .headerName := by
  rcases bind_eq_error_iff.mp h with hname | ⟨n, -, hrest⟩
  · exact headerName_eq_error_iff.mp hname
  · obtain ⟨v, hv, -⟩ := HeaderValue.exists_of_plain hplain
    rw [headerValue_eq_ok_iff.mpr hv] at hrest
    cases hrest

end Payload

def xpubPlan (names : HeaderNames) (xpub : String) : Plan :=
  ⟨[(names.xpub, xpub)], [names.accessKey, names.hash, names.nonce, names.time, names.signature]⟩

theorem writeXpubOnly_eq (names : HeaderNames) (xpub : String) :
    writeXpubOnly names xpub = (xpubPlan names xpub).steps := by
  unfold writeXpubOnly xpubPlan Plan.steps
  funext m
  dsimp only
  rw [List.mapM_cons (a := (names.xpub, xpub)), List.mapM_nil]
  cases Payload.headerField (names.xpub, xpub) <;> rfl

/-! ## Texts under one name -/

namespace Plan

variable {plan : Plan}

/-- The last text that a plan has under a name. -/
def last? (plan : Plan) (s : String) : Option (String × String) :=
  plan.texts.reverse.find? fun t => decide (lowered t.1 = lowered s)

theorem last?_eq_none_iff {s : String} :
    plan.last? s = none ↔ ∀ t ∈ plan.texts, lowered t.1 ≠ lowered s := by
  unfold last?
  rw [List.find?_eq_none]
  simp only [List.mem_reverse, decide_eq_true_iff, Ne]

theorem mem_of_last? {s : String} {t : String × String} (h : plan.last? s = some t) :
    t ∈ plan.texts ∧ lowered t.1 = lowered s :=
  ⟨List.mem_reverse.mp (List.mem_of_find?_eq_some h), of_decide_eq_true (List.find?_some h :)⟩

theorem last?_congr {s s' : String} (h : lowered s = lowered s') : plan.last? s = plan.last? s' := by
  unfold last?
  rw [h]

theorem exists_last? {t : String × String} (ht : t ∈ plan.texts) :
    ∃ u ∈ plan.texts, plan.last? t.1 = some u ∧ lowered u.1 = lowered t.1 := by
  cases hlast : plan.last? t.1 with
  | none => exact absurd rfl (last?_eq_none_iff.mp hlast t ht)
  | some u => exact ⟨u, (mem_of_last? hlast).1, rfl, (mem_of_last? hlast).2⟩

/-- Whether no name is given two texts and no stale name is given one. -/
structure Consistent (plan : Plan) : Prop where
  single : ∀ t ∈ plan.texts, ∀ u ∈ plan.texts, lowered t.1 = lowered u.1 → t.2 = u.2
  cleared : ∀ s ∈ plan.stale, ∀ t ∈ plan.texts, lowered t.1 ≠ lowered s

theorem Consistent.of_nodup (h : (plan.names.map lowered).Nodup) : plan.Consistent := by
  unfold names at h
  rw [List.map_append, List.map_map] at h
  refine ⟨fun t ht u hu hname => ?_, fun s hs t ht hname => ?_⟩
  · rw [List.inj_on_of_nodup_map h.of_append_right ht hu hname]
  · have hboth : lowered s ∈ plan.texts.map (lowered ∘ Prod.fst) := hname ▸ List.mem_map_of_mem ht
    exact List.disjoint_of_nodup_append h (List.mem_map_of_mem hs) hboth

/-- A plan is consistent exactly if each text is the last one under its name and no text stands under a
stale name. -/
theorem consistent_iff : plan.Consistent ↔
    (∀ t ∈ plan.texts, (plan.last? t.1).map Prod.snd = some t.2) ∧
      ∀ s ∈ plan.stale, plan.last? s = none := by
  constructor
  · rintro ⟨hsingle, hcleared⟩
    refine ⟨fun t ht => ?_, fun s hs => last?_eq_none_iff.mpr (hcleared s hs)⟩
    obtain ⟨u, hu, hlast, hname⟩ := exists_last? ht
    rw [hlast, Option.map_some, hsingle u hu t ht hname]
  · rintro ⟨hlast, hnone⟩
    refine ⟨fun t ht u hu hname => ?_, fun s hs => last?_eq_none_iff.mp (hnone s hs)⟩
    have htext := hlast t ht
    rw [last?_congr hname, hlast u hu] at htext
    exact (Option.some.inj htext).symm

end Plan

/-! ## What is written -/

namespace Plan

variable {plan : Plan} {m written : HeaderMap} {fields : List (HeaderName × HeaderValue)}
  {stale : List HeaderName}

theorem write_eq_ok_iff : plan.write m = .ok written ↔ ∃ fields stale,
    plan.texts.mapM Payload.headerField = .ok fields ∧
    plan.stale.mapM Payload.headerName = .ok stale ∧
    (m.eraseAll stale).insertAll fields = written := by
  unfold write
  simp only [bind_eq_ok_iff]
  constructor
  · rintro ⟨fields, hfields, stale, hstale, h⟩
    exact ⟨fields, stale, hfields, hstale, Except.ok.inj h⟩
  · rintro ⟨fields, stale, hfields, hstale, rfl⟩
    exact ⟨fields, hfields, stale, hstale, rfl⟩

/-- The names of the fields are those of the plan in the form in which they are compared. -/
theorem characters_of_names (hfields : plan.texts.mapM Payload.headerField = .ok fields)
    (hstale : plan.stale.mapM Payload.headerName = .ok stale) :
    (stale ++ fields.map Prod.fst).map HeaderName.characters = plan.names.map lowered := by
  unfold names
  rw [List.map_append, List.map_append, List.map_map, List.map_map]
  congr 1
  · refine map_of_mapM (fun s n hs => ?_) hstale
    exact HeaderName.characters_of_ofString? (Payload.headerName_eq_ok_iff.mp hs)
  · refine map_of_mapM (fun t f ht => ?_) hfields
    exact HeaderName.characters_of_ofString? (Payload.headerField_eq_ok_iff.mp ht).1

/-- All other names keep their values. -/
theorem values_of_notMem (h : plan.write m = .ok written) {n : HeaderName}
    (hn : n.characters ∉ plan.names.map lowered) : written.values n = m.values n := by
  obtain ⟨fields, stale, hfields, hstale, rfl⟩ := write_eq_ok_iff.mp h
  rw [← characters_of_names hfields hstale] at hn
  have hnames : n ∉ stale ++ fields.map Prod.fst := mt List.mem_map_of_mem hn
  rw [List.mem_append, not_or] at hnames
  rw [HeaderMap.values_insertAll_of_notMem hnames.2, HeaderMap.values_eraseAll, if_neg hnames.1]

theorem exists_name_of_write (hfields : plan.texts.mapM Payload.headerField = .ok fields)
    (hstale : plan.stale.mapM Payload.headerName = .ok stale) {s : String} (hs : s ∈ plan.names) :
    ∃ n, HeaderName.ofString? s = some n ∧ (plan.last? s = none → n ∈ stale) := by
  rcases List.mem_append.mp hs with hs | hs
  · obtain ⟨n, hn, hname⟩ := exists_of_mem_of_mapM hstale hs
    exact ⟨n, Payload.headerName_eq_ok_iff.mp hname, fun _ => hn⟩
  · obtain ⟨t, ht, rfl⟩ := List.mem_map.mp hs
    obtain ⟨f, -, hfield⟩ := exists_of_mem_of_mapM hfields ht
    refine ⟨f.1, (Payload.headerField_eq_ok_iff.mp hfield).1, fun hnone => ?_⟩
    exact absurd rfl (last?_eq_none_iff.mp hnone t ht)

/-- After a plan is written, each of its names has the last text under it as its only value, or none. -/
theorem under_of_write (h : plan.write m = .ok written) {s : String} (hs : s ∈ plan.names) :
    plan.last? s = none ∧ written.under s = some [] ∨
      ∃ t v, plan.last? s = some t ∧ HeaderValue.ofString? t.2 = some v ∧
        written.under s = some [v] := by
  obtain ⟨fields, stale, hfields, hstale, rfl⟩ := write_eq_ok_iff.mp h
  obtain ⟨n, hname, hcleared⟩ := exists_name_of_write hfields hstale hs
  have hsame : ∀ t f, Payload.headerField t = .ok f →
      decide (lowered t.1 = lowered s) = decide (f.1 = n) := by
    intro t f hfield
    have hcharacters := (Payload.headerField_eq_ok_iff.mp hfield).1
    rw [decide_eq_decide, ← HeaderName.characters_injective.eq_iff,
      HeaderName.characters_of_ofString? hcharacters, HeaderName.characters_of_ofString? hname]
    exact Iff.rfl
  have hfound := find?_of_forall₂ hsame (List.forall₂_reverse_iff.mpr (mapM_eq_ok_iff.mp hfields))
  have hunder : (((m.eraseAll stale).insertAll fields).under s) = some
      ((fields.reverse.find? fun f => decide (f.1 = n)).elim ((m.eraseAll stale).values n)
        fun f => [f.2]) := by
    unfold HeaderMap.under
    rw [hname, Option.map_some, HeaderMap.values_insertAll_eq]
  rw [hunder]
  change Option.Rel _ (plan.last? s) _ at hfound
  generalize plan.last? s = last at hfound hcleared
  generalize fields.reverse.find? (fun f => decide (f.1 = n)) = kept at hfound
  cases hfound with
  | none =>
    left
    rw [Option.elim_none, HeaderMap.values_eraseAll, if_pos (hcleared rfl)]
    exact ⟨rfl, rfl⟩
  | @some t f hfield =>
    exact Or.inr ⟨t, f.2, rfl, (Payload.headerField_eq_ok_iff.mp hfield).2, rfl⟩

/-- A text is the only value of its name. -/
theorem under_of_mem_texts (h : plan.write m = .ok written) (hplan : plan.Consistent)
    {t : String × String} (ht : t ∈ plan.texts) :
    ∃ v, HeaderValue.ofString? t.2 = some v ∧ written.under t.1 = some [v] := by
  rcases under_of_write h (List.mem_append_right _ (List.mem_map_of_mem ht)) with
    ⟨hnone, -⟩ | ⟨u, v, hlast, hv, hunder⟩
  · exact absurd rfl (last?_eq_none_iff.mp hnone t ht)
  · obtain ⟨hu, hname⟩ := mem_of_last? hlast
    rw [hplan.single u hu t ht hname] at hv
    exact ⟨v, hv, hunder⟩

/-- A stale name has no values. -/
theorem under_of_mem_stale (h : plan.write m = .ok written) (hplan : plan.Consistent) {s : String}
    (hs : s ∈ plan.stale) : written.under s = some [] := by
  rcases under_of_write h (List.mem_append_left _ hs) with ⟨-, hunder⟩ | ⟨t, v, hlast, -, -⟩
  · exact hunder
  · obtain ⟨ht, hname⟩ := mem_of_last? hlast
    exact absurd hname (hplan.cleared s hs t ht)

/-- What is found under the names of a plan after it is written. -/
theorem text?_of_write (htexts : ∀ t ∈ plan.texts, t.2 ≠ "" ∧ ∀ c ∈ t.2.toList, Char.IsPlain c)
    (h : plan.write m = .ok written) {s : String} (hs : s ∈ plan.names) :
    written.text? s = (plan.last? s).map Prod.snd := by
  rcases under_of_write h hs with ⟨hnone, hunder⟩ | ⟨t, v, hlast, hv, hunder⟩
  · rw [hnone, HeaderMap.text?_of_under_nil hunder]
    rfl
  · obtain ⟨hne, hplain⟩ := htexts t (mem_of_last? hlast).1
    -- The value that was written is the one that reads as the text.
    obtain ⟨v', hv', htext⟩ := HeaderValue.exists_of_plain hplain
    obtain rfl := Option.some.inj (hv.symm.trans hv')
    rw [hlast, HeaderMap.text?_of_under hunder htext hne]
    rfl

/-- A plan that is written over some header fields is written over any others, and what it leaves depends
on what was there before in the names alone that are not its own. -/
theorem exists_write_of_write (h : plan.write m = .ok written) (m' : HeaderMap) :
    ∃ written', plan.write m' = .ok written' ∧ ∀ n : HeaderName,
      (n.characters ∉ plan.names.map lowered → m'.values n = m.values n) →
        written'.values n = written.values n := by
  obtain ⟨fields, stale, hfields, hstale, rfl⟩ := write_eq_ok_iff.mp h
  refine ⟨_, write_eq_ok_iff.mpr ⟨fields, stale, hfields, hstale, rfl⟩, fun n hn => ?_⟩
  rw [← characters_of_names hfields hstale,
    List.mem_map_of_injective HeaderName.characters_injective, List.mem_append, not_or] at hn
  apply HeaderMap.values_insertAll_congr
  intro hfield
  rw [HeaderMap.values_eraseAll, HeaderMap.values_eraseAll]
  by_cases hmem : n ∈ stale
  · rw [if_pos hmem, if_pos hmem]
  · rw [if_neg hmem, if_neg hmem]
    exact hn ⟨hmem, hfield⟩

/-- Valid names and plain texts are never refused. -/
theorem exists_write (hnames : ∀ s ∈ plan.names, (HeaderName.ofString? s).isSome = true)
    (htexts : ∀ t ∈ plan.texts, ∀ c ∈ t.2.toList, Char.IsPlain c) (m : HeaderMap) :
    ∃ written, plan.write m = .ok written := by
  have hname : ∀ s ∈ plan.names, ∃ n, Payload.headerName s = .ok n := by
    intro s hs
    obtain ⟨n, hn⟩ := Option.isSome_iff_exists.mp (hnames s hs)
    exact ⟨n, Payload.headerName_eq_ok_iff.mpr hn⟩
  have hfield : ∀ t ∈ plan.texts, ∃ f, Payload.headerField t = .ok f := by
    intro t ht
    obtain ⟨n, hn⟩ := hname t.1 (List.mem_append_right _ (List.mem_map_of_mem ht))
    obtain ⟨v, hv, -⟩ := HeaderValue.exists_of_plain (htexts t ht)
    exact ⟨(n, v), Payload.headerField_eq_ok_iff.mpr ⟨Payload.headerName_eq_ok_iff.mp hn, hv⟩⟩
  obtain ⟨fields, hfields⟩ := exists_mapM hfield
  obtain ⟨stale, hstale⟩ := exists_mapM fun s hs => hname s (List.mem_append_left _ hs)
  exact ⟨_, write_eq_ok_iff.mpr ⟨fields, stale, hfields, hstale, rfl⟩⟩

theorem valid_of_write (h : plan.write m = .ok written) :
    ∀ s ∈ plan.names, (HeaderName.ofString? s).isSome = true := by
  intro s hs
  obtain ⟨fields, stale, hfields, hstale, -⟩ := write_eq_ok_iff.mp h
  obtain ⟨n, hn, -⟩ := exists_name_of_write hfields hstale hs
  rw [hn]
  rfl

/-- Plain texts are refused for a name only. -/
theorem write_eq_error (htexts : ∀ t ∈ plan.texts, ∀ c ∈ t.2.toList, Char.IsPlain c) {e : Error}
    (h : plan.write m = .error e) :
    e = .headerName ∧ ∃ s ∈ plan.names, HeaderName.ofString? s = none := by
  rcases bind_eq_error_iff.mp h with hfields | ⟨fields, -, hrest⟩
  · obtain ⟨before, t, after, hlist, -, ht⟩ := mapM_eq_error_iff.mp hfields
    have hmem : t ∈ plan.texts := hlist ▸ List.mem_append_right before List.mem_cons_self
    obtain ⟨hname, he⟩ := Payload.name_of_headerField_eq_error (htexts t hmem) ht
    exact ⟨he, t.1, List.mem_append_right _ (List.mem_map_of_mem hmem), hname⟩
  · rcases bind_eq_error_iff.mp hrest with hstale | ⟨stale, -, hok⟩
    · obtain ⟨before, s, after, hlist, -, hs⟩ := mapM_eq_error_iff.mp hstale
      have hmem : s ∈ plan.stale := hlist ▸ List.mem_append_right before List.mem_cons_self
      obtain ⟨hname, he⟩ := Payload.headerName_eq_error_iff.mp hs
      exact ⟨he, s, List.mem_append_left _ hmem, hname⟩
    · cases hok

end Plan

end WalletAuth.Auth
