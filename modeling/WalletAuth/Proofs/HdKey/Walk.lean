import Mathlib
import WalletAuth.HdKey.Walk
import WalletAuth.Proofs.HdKey.Print

/-! What walks through a tree of keys keep. A step that succeeds leads down the indices it derives, or takes
the public half, or changes nothing; a walk repeats this, so that the depth counts the indices of all steps
that succeed, and nothing leads from a public key back to a private one. -/
namespace WalletAuth.ExtendedKey
set_option autoImplicit false

variable {k parent next : ExtendedKey} {index : UInt32} {path rest : List UInt32} {step : Step}

/-! ## Down a path -/

/-- What is known of a key that a path leads down to, though its public half alone may be left of it. -/
structure LiesBelow (k : ExtendedKey) (path : List UInt32) (next : ExtendedKey) : Prop where
  network : next.network = k.network
  depth : next.depth.toNat = k.depth.toNat + path.length
  published : k.isPrivate = false → next.isPrivate = false

theorem LiesBelow.refl (k : ExtendedKey) : k.LiesBelow [] k := ⟨rfl, rfl, id⟩

theorem LiesBelow.trans (h : k.LiesBelow path parent) (h' : parent.LiesBelow rest next) :
    k.LiesBelow (path ++ rest) next where
  network := h'.network.trans h.network
  depth := by
    rw [h'.depth, h.depth, List.length_append]
    omega
  published hk := h'.published (h.published hk)

theorem liesBelow_neuter (k : ExtendedKey) : k.LiesBelow [] k.neuter := ⟨rfl, rfl, fun _ => rfl⟩

theorem network_of_descend (h : k.descend path = .ok next) : next.network = k.network := by
  induction path generalizing k with
  | nil =>
    cases h
    rfl
  | cons index path ih =>
    obtain ⟨below, hbelow, h⟩ := descend_cons_eq_ok_iff.mp h
    obtain ⟨-, input, material, -, -, rfl⟩ := child_eq_ok_iff.mp hbelow
    rw [ih h]
    rfl

theorem liesBelow_of_descend (h : k.descend path = .ok next) : k.LiesBelow path next where
  network := network_of_descend h
  depth := depth_of_descend h
  published hk := (isPrivate_of_descend h).trans hk

/-- The last index of a path and the key before it are what the key at the end bears the traces of. -/
theorem exists_parent_of_descend (h : k.descend (path ++ [index]) = .ok next) :
    next.childNumber = index ∧
      ∃ parent, k.descend path = .ok parent ∧ next.parentFingerprint = parent.fingerprint := by
  rw [descend_append] at h
  obtain ⟨parent, hparent, h⟩ := bind_eq_ok_iff.mp h
  rw [descend_singleton] at h
  obtain ⟨-, input, material, -, -, rfl⟩ := child_eq_ok_iff.mp h
  exact ⟨rfl, parent, hparent, rfl⟩

/-! ## Below public keys -/

theorem child_of_hardened (hk : k.isPrivate = false) (hindex : hardenedStart ≤ index)
    (hdepth : k.depth ≠ 255) : k.child index = .error .hardenedFromPublic := by
  have hinput : k.childInput index = .error .hardenedFromPublic := by
    obtain ⟨key, hkey⟩ := material_of_published hk
    unfold childInput
    rw [decide_eq_true hindex, hkey]
  unfold child
  rw [if_neg hdepth, hinput]
  rfl

theorem descend_of_hardened (hk : k.isPrivate = false) (hpath : k.descend path = .ok parent)
    (hindex : hardenedStart ≤ index) (hdepth : parent.depth ≠ 255) :
    k.descend (path ++ index :: rest) = .error .hardenedFromPublic := by
  have hparent := (liesBelow_of_descend hpath).published hk
  rw [descend_append, hpath]
  show parent.descend (index :: rest) = _
  rw [descend_cons, child_of_hardened hparent hindex hdepth]
  rfl

theorem Rooted.without_traces (hk : k.Rooted) (hzero : k.depth = 0) :
    k.parentFingerprint = Octets.replicate 4 0 ∧ k.childNumber = 0 := by
  have htraces := hk hzero
  unfold hasParentTraces at htraces
  rwa [Bool.or_eq_false_iff, bne_eq_false_iff_eq, bne_eq_false_iff_eq] at htraces

/-! ## Steps -/

/-- The indices that a step derives if it succeeds. -/
def Step.indices : Step → List UInt32
  | .child index => [index]
  | .path indices => indices
  | .text s =>
    match Path.ofText s with
    | .ok indices => indices
    | .error _ => []
  | .pairing => Path.pairing
  | .neuter => []
  | .reread => []

/-- All that a step can do. A printed key is read back, so that rereading derives nothing and changes
nothing. -/
theorem take_cases (hk : k.Rooted) (h : k.take step = .ok next) :
    k.descend step.indices = .ok next ∨ step.indices = [] ∧ next = k.neuter := by
  cases step with
  | child index => exact Or.inl ((descend_singleton k index).trans h)
  | path indices => exact Or.inl h
  | text s =>
    obtain ⟨indices, hindices, h⟩ := descendText_eq_ok_iff.mp h
    have hsame : (Step.text s).indices = indices := by simp only [Step.indices, hindices]
    rw [hsame]
    exact Or.inl h
  | pairing => exact Or.inl h
  | neuter =>
    cases h
    exact Or.inr ⟨rfl, rfl⟩
  | reread =>
    refine Or.inl ?_
    rw [← h]
    exact (read_eq_ok_iff.mpr ⟨rfl, hk⟩).symm

theorem liesBelow_of_take (hk : k.Rooted) (h : k.take step = .ok next) :
    k.LiesBelow step.indices next := by
  rcases take_cases hk h with h | ⟨hnone, rfl⟩
  · exact liesBelow_of_descend h
  · rw [hnone]
    exact liesBelow_neuter k

theorem exists_parent_of_take (hk : k.Rooted) (h : k.take step = .ok next)
    (hindices : step.indices = path ++ [index]) :
    next.childNumber = index ∧
      ∃ parent, k.descend path = .ok parent ∧ next.parentFingerprint = parent.fingerprint := by
  rcases take_cases hk h with h | ⟨hnone, -⟩
  · rw [hindices] at h
    exact exists_parent_of_descend h
  · rw [hnone] at hindices
    exact absurd hindices.symm (List.append_ne_nil_of_right_ne_nil path (List.cons_ne_nil index []))

/-! ## Walks -/

/-- The indices that the steps of a walk derive which succeed. -/
def derived (k : ExtendedKey) : List Step → List UInt32
  | [] => []
  | step :: steps =>
    match k.take step with
    | .ok next => step.indices ++ next.derived steps
    | .error _ => k.derived steps

theorem walk_cons_of_ok (h : k.take step = .ok next) (steps : List Step) :
    k.walk (step :: steps) = next.walk steps ∧
      k.derived (step :: steps) = step.indices ++ next.derived steps := by
  have hafter : k.after step = next := by
    unfold after
    rw [h]
  constructor
  · rw [walk, List.foldl_cons, hafter]
    rfl
  · rw [derived, h]

theorem walk_cons_of_error {e : KeyError} (h : k.take step = .error e) (steps : List Step) :
    k.walk (step :: steps) = k.walk steps ∧ k.derived (step :: steps) = k.derived steps := by
  have hafter : k.after step = k := by
    unfold after
    rw [h]
  constructor
  · rw [walk, List.foldl_cons, hafter]
    rfl
  · rw [derived, h]

theorem liesBelow_walk (hk : k.Rooted) (steps : List Step) :
    k.LiesBelow (k.derived steps) (k.walk steps) := by
  induction steps generalizing k with
  | nil => exact .refl k
  | cons step steps ih =>
    cases h : k.take step with
    | ok next =>
      obtain ⟨hwalk, hderived⟩ := walk_cons_of_ok h steps
      rw [hwalk, hderived]
      exact (liesBelow_of_take hk h).trans (ih (rooted_of_take hk h))
    | error e =>
      obtain ⟨hwalk, hderived⟩ := walk_cons_of_error h steps
      rw [hwalk, hderived]
      exact ih hk

theorem Reachable.walk (hk : Reachable k) (steps : List Step) : Reachable (k.walk steps) := by
  induction steps generalizing k with
  | nil => exact hk
  | cons step steps ih =>
    cases h : k.take step with
    | ok next =>
      rw [(walk_cons_of_ok h steps).1]
      exact ih (.step hk h)
    | error e =>
      rw [(walk_cons_of_error h steps).1]
      exact ih hk

/-- What a walk from a seed or from an accepted text keeps. The network stays and the depth counts the indices
that were derived, without passing 255. A root is without the traces of a parent, and a step that derives
an index leaves that index and the fingerprint of the key before it. No way leads back from a public key,
nor past a hardened index below it. Each key is read back from its print. -/
theorem walk_keeps {start : ExtendedKey} (hstart : Reachable start) (steps : List Step) :
    let k := start.walk steps
    k.network = start.network ∧
    k.depth.toNat = start.depth.toNat + (start.derived steps).length ∧
    start.depth.toNat + (start.derived steps).length ≤ 255 ∧
    (k.depth = 0 → k.parentFingerprint = Octets.replicate 4 0 ∧ k.childNumber = 0) ∧
    (∀ step next path index, k.take step = .ok next → step.indices = path ++ [index] →
      next.childNumber = index ∧
        ∃ parent, k.descend path = .ok parent ∧ next.parentFingerprint = parent.fingerprint) ∧
    (k.isPrivate = false → ∀ later,
      (k.walk later).isPrivate = false ∧ (k.walk later).privateKey = .error .notPrivate ∧
      ∀ index, hardenedStart ≤ index →
        ((k.walk later).depth ≠ 255 →
          (k.walk later).take (.child index) = .error .hardenedFromPublic) ∧
        ∀ path parent rest, (k.walk later).descend path = .ok parent → parent.depth ≠ 255 →
          (k.walk later).take (.path (path ++ index :: rest)) = .error .hardenedFromPublic) ∧
    k.take .reread = .ok k := by
  intro k
  have hbelow := liesBelow_walk hstart.rooted steps
  have hrooted := (hstart.walk steps).rooted
  have hread : read k.print = .ok k := read_eq_ok_iff.mpr ⟨rfl, hrooted⟩
  refine ⟨hbelow.network, hbelow.depth, ?_, ?_, ?_, ?_, hread⟩
  · rw [← hbelow.depth]
    exact Nat.le_of_lt_succ (UInt8.toNat_lt _)
  · exact hrooted.without_traces
  · intro step next path index h hindices
    exact exists_parent_of_take hrooted h hindices
  · intro hk later
    have hlater := (liesBelow_walk hrooted later).published hk
    refine ⟨hlater, privateKey_of_published hlater, fun index hindex => ⟨fun hd => ?_, ?_⟩⟩
    · exact child_of_hardened hlater hindex hd
    · intro path parent rest hpath hd
      exact descend_of_hardened hlater hpath hindex hd

/-- From a seed to a hardened child, to its public half, past a hardened index that fails, and down a text. -/
theorem walk_past_hardened_keeps :
    let steps : List Step := [.child hardenedStart, .neuter, .child hardenedStart]
    ∃ root next, ofSeed ((List.range 16).map UInt8.ofNat) .testnet = .ok root ∧
      (root.walk steps).network = root.network ∧ (root.walk steps).depth.toNat = 1 ∧
      (root.walk steps).privateKey = .error .notPrivate ∧
      (root.walk steps).take (.child hardenedStart) = .error .hardenedFromPublic ∧
      (root.walk steps).take (.text "0000000a") = .ok next ∧ next.childNumber = 10 := by
  intro steps
  have hrun : ((ofSeed ((List.range 16).map UInt8.ofNat) .testnet).toOption.map fun root =>
      (root.depth, root.derived steps, (root.walk steps).isPrivate,
        ((root.walk steps).take (.text "0000000a")).isOk)) =
      some (0, [hardenedStart], false, true) := by
    decide +kernel
  cases hseed : ofSeed ((List.range 16).map UInt8.ofNat) .testnet with
  | error e =>
    rw [hseed] at hrun
    cases hrun
  | ok root =>
    simp only [hseed, Except.toOption, Option.map_some, Option.some.injEq, Prod.mk.injEq] at hrun
    obtain ⟨hdepth, hderived, hpublished, hok⟩ := hrun
    obtain ⟨next, hnext⟩ := exists_of_isOk hok
    obtain ⟨hnetwork, hcount, -, -, htraces, hpublic, -⟩ := walk_keeps (.seed hseed) steps
    rw [hdepth, hderived] at hcount
    have hone : (root.walk steps).depth.toNat = 1 := hcount
    have hroom : (root.walk steps).depth ≠ 255 := by
      intro h
      rw [h] at hone
      cases hone
    obtain ⟨-, hnokey, hhardened⟩ := hpublic hpublished []
    exact ⟨root, next, rfl, hnetwork, hone, hnokey, (hhardened _ (UInt32.le_refl _)).1 hroom, hnext,
      (htraces _ next [] 10 hnext rfl).1⟩

end WalletAuth.ExtendedKey
