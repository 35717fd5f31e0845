import Mathlib
import WalletAuth.HdKey.Walk
import WalletAuth.Proofs.Except
import WalletAuth.Proofs.Number.Chunks

/-! What a step to a child does and how far a path leads: each index of a path is one step down, and no
step leads below depth 255. -/
namespace WalletAuth
set_option autoImplicit false

namespace ExtendedKey

variable {k next : ExtendedKey} {s : String}

/-- All that a step to a child can do. -/
theorem child_eq_ok_iff {index : UInt32} :
    k.child index = .ok next ↔ k.depth ≠ 255 ∧ ∃ input material,
      k.childInput index = .ok input ∧
      k.material.move (k.childHash input index).front = .ok material ∧
      k.below index (k.childHash input index).back material = next := by
  unfold child
  by_cases hdepth : k.depth = 255
  · rw [if_pos hdepth]
    constructor
    · intro h
      cases h
    · rintro ⟨h, -⟩
      exact absurd hdepth h
  · rw [if_neg hdepth, bind_eq_ok_iff]
    constructor
    · rintro ⟨input, hinput, h⟩
      cases hmove : k.material.move (k.childHash input index).front with
      | error e =>
        simp only [hmove] at h
        cases h
      | ok material =>
        simp only [hmove] at h
        exact ⟨hdepth, input, material, hinput, hmove, Except.ok.inj h⟩
    · rintro ⟨-, input, material, hinput, hmove, rfl⟩
      refine ⟨input, hinput, ?_⟩
      simp only [hmove]

theorem childInput_of_lt {i : UInt32} (hi : i < hardenedStart) :
    k.childInput i = .ok k.publicKey.compressed.toList := by
  have hsoft : decide (hardenedStart ≤ i) = false := by simpa using hi
  unfold childInput
  rw [hsoft]
  cases k.material <;> rfl

/-- A child that is not hardened, by whether the key can be moved. -/
theorem child_of_lt {i : UInt32} (hi : i < hardenedStart) (hd : k.depth ≠ 255) :
    k.child i =
      let hash := k.childHash k.publicKey.compressed.toList i
      match (k.material.move hash.front).toOption with
      | some material => .ok (k.below i hash.back material)
      | none => .error (.invalidChild i) := by
  unfold child
  rw [if_neg hd, childInput_of_lt hi]
  simp only [bind, Except.bind]
  cases k.material.move (k.childHash k.publicKey.compressed.toList i).front <;> rfl

/-! ## Down a path -/

theorem descend_cons {index : UInt32} {path : List UInt32} :
    k.descend (index :: path) = k.child index >>= fun below => below.descend path :=
  List.foldlM_cons

theorem descend_cons_eq_ok_iff {index : UInt32} {path : List UInt32} :
    k.descend (index :: path) = .ok next ↔
      ∃ below, k.child index = .ok below ∧ below.descend path = .ok next := by
  rw [descend_cons, bind_eq_ok_iff]

theorem descend_singleton (k : ExtendedKey) (index : UInt32) : k.descend [index] = k.child index := by
  rw [descend_cons]
  cases k.child index <;> rfl

theorem descend_append (k : ExtendedKey) (path rest : List UInt32) :
    k.descend (path ++ rest) = k.descend path >>= fun parent => parent.descend rest :=
  List.foldlM_append

theorem descendText_of_ofText {path : List UInt32} (h : Path.ofText s = .ok path) :
    k.descendText s = k.descend path := by
  unfold descendText
  rw [h]
  rfl

theorem descendText_of_error {e : KeyError} (h : Path.ofText s = .error e) :
    k.descendText s = .error e := by
  unfold descendText
  rw [h]
  rfl

theorem descendText_eq_ok_iff :
    k.descendText s = .ok next ↔ ∃ path, Path.ofText s = .ok path ∧ k.descend path = .ok next :=
  bind_eq_ok_iff

/-! ## Depth -/

theorem toNat_succ {d : UInt8} (h : d ≠ 255) : (d + 1).toNat = d.toNat + 1 := by
  have hlt := d.toNat_lt
  have hne : d.toNat ≠ 255 := fun heq => h (UInt8.toNat_inj.mp heq)
  rw [UInt8.toNat_add, Nat.mod_eq_of_lt]
  · rfl
  · show d.toNat + 1 < 256
    omega

theorem depth_of_child {index : UInt32} (h : k.child index = .ok next) :
    next.depth.toNat = k.depth.toNat + 1 := by
  obtain ⟨hdepth, input, material, -, -, rfl⟩ := child_eq_ok_iff.mp h
  exact toNat_succ hdepth

theorem depth_of_descend {path : List UInt32} (h : k.descend path = .ok next) :
    next.depth.toNat = k.depth.toNat + path.length := by
  induction path generalizing k with
  | nil =>
    cases h
    rfl
  | cons index path ih =>
    obtain ⟨below, hbelow, h⟩ := descend_cons_eq_ok_iff.mp h
    rw [ih h, depth_of_child hbelow, List.length_cons]
    omega

theorem depth_of_descendText {count : ℕ} (h : k.descendText s = .ok next)
    (hs : (Utf8.encode s).length = Path.chunkLength * count) :
    next.depth.toNat = k.depth.toNat + count := by
  obtain ⟨path, hpath, h⟩ := descendText_eq_ok_iff.mp h
  have hlength := (mapM_eq_ok_iff.mp hpath).length_eq
  rw [length_chunks (by decide) hs] at hlength
  rw [depth_of_descend h, hlength]

/-! ## Both kinds of nodes -/

theorem material_of_isPrivate (h : k.isPrivate = true) : ∃ key, k.material = .secret key := by
  unfold isPrivate at h
  split at h
  · next key hkey => exact ⟨key, hkey⟩
  · cases h

theorem material_of_published (h : k.isPrivate = false) : ∃ key, k.material = .published key := by
  unfold isPrivate at h
  split at h
  · cases h
  · next key hkey => exact ⟨key, hkey⟩

theorem privateKey_eq_ok_iff {key : PrivateKey} : k.privateKey = .ok key ↔ k.material = .secret key := by
  unfold privateKey
  cases k.material <;> simp

theorem publicKey_of_privateKey {key : PrivateKey} (h : k.privateKey = .ok key) :
    k.publicKey = key.publicKey := by
  unfold publicKey
  rw [privateKey_eq_ok_iff.mp h]

theorem exists_privateKey (h : k.isPrivate = true) :
    ∃ key, k.privateKey = .ok key ∧ k.publicKey = key.publicKey := by
  obtain ⟨key, hkey⟩ := material_of_isPrivate h
  have hprivate : k.privateKey = .ok key := privateKey_eq_ok_iff.mpr hkey
  exact ⟨key, hprivate, publicKey_of_privateKey hprivate⟩

theorem privateKey_of_published (h : k.isPrivate = false) : k.privateKey = .error .notPrivate := by
  obtain ⟨key, hkey⟩ := material_of_published h
  unfold privateKey
  rw [hkey]

/-- Moving a key leaves it of its kind. -/
theorem isPrivate_of_child {index : UInt32} (h : k.child index = .ok next) :
    next.isPrivate = k.isPrivate := by
  obtain ⟨-, input, material, -, hmove, rfl⟩ := child_eq_ok_iff.mp h
  unfold isPrivate
  cases hk : k.material with
  | secret key =>
    rw [hk] at hmove
    obtain ⟨moved, -, rfl⟩ := map_eq_ok_iff.mp hmove
    rfl
  | published key =>
    rw [hk] at hmove
    obtain ⟨moved, -, rfl⟩ := map_eq_ok_iff.mp hmove
    rfl

theorem isPrivate_of_descend {path : List UInt32} (h : k.descend path = .ok next) :
    next.isPrivate = k.isPrivate := by
  induction path generalizing k with
  | nil =>
    cases h
    rfl
  | cons index path ih =>
    obtain ⟨below, hbelow, h⟩ := descend_cons_eq_ok_iff.mp h
    rw [ih h, isPrivate_of_child hbelow]

/-! ## Below private keys -/

/-- What a step without a hardened index makes of a chain code and a private key. No other part of a
private node has a say in it. -/
def secretChild (node : Octets 32 × PrivateKey) (index : UInt32) :
    Option (Octets 32 × PrivateKey) :=
  let hash : Octets (32 + 32) := Hash.hmacSha512 node.1.toList
    (node.2.publicKey.compressed.toList ++ Hash.word32 index)
  (node.2.addTweak hash.front).toOption.map fun key => (hash.back, key)

theorem child_of_secret {key : PrivateKey} {node : Octets 32 × PrivateKey} {index : UInt32}
    (hi : index < hardenedStart) (hd : k.depth ≠ 255) (hk : k.material = .secret key)
    (h : secretChild (k.chainCode, key) index = some node) :
    k.child index = .ok (k.below index node.1 (.secret node.2)) := by
  have hpublic := publicKey_of_privateKey (privateKey_eq_ok_iff.mpr hk)
  obtain ⟨moved, hmoved, rfl⟩ := Option.map_eq_some_iff.mp h
  rw [child_of_lt hi hd, hpublic, hk]
  unfold KeyMaterial.move childHash
  cases hmove : key.addTweak (Octets.front (n := 32) (m := 32) (Hash.hmacSha512 k.chainCode.toList
    (key.publicKey.compressed.toList ++ Hash.word32 index))) with
  | error e =>
    rw [hmove] at hmoved
    cases hmoved
  | ok moved' =>
    rw [hmove] at hmoved
    cases hmoved
    simp only [hmove]
    rfl

/-- A walk by one index below a private node, with the chain codes and the keys on the way. -/
theorem descend_of_isChain {index : UInt32} (hi : index < hardenedStart)
    {nodes : List (Octets 32 × PrivateKey)} {node : Octets 32 × PrivateKey}
    (hnodes : (node :: nodes).IsChain fun a b => secretChild a index = some b)
    (hcode : k.chainCode = node.1) (hk : k.material = .secret node.2)
    (hdepth : k.depth.toNat + nodes.length ≤ 255) :
    ∃ last, k.descend (List.replicate nodes.length index) = .ok last ∧
      last.privateKey = .ok ((node :: nodes).getLast (List.cons_ne_nil node nodes)).2 := by
  induction nodes generalizing node k with
  | nil => exact ⟨k, rfl, privateKey_eq_ok_iff.mpr hk⟩
  | cons next' nodes ih =>
    obtain ⟨hnext, hrest⟩ := List.isChain_cons_cons.mp hnodes
    rw [List.length_cons] at hdepth
    have hd : k.depth ≠ 255 := by
      intro h
      have hlast : (255 : UInt8).toNat = 255 := rfl
      rw [h] at hdepth
      omega
    have hchild : k.child index = .ok (k.below index next'.1 (.secret next'.2)) := by
      apply child_of_secret hi hd hk
      rw [hcode]
      exact hnext
    have hroom : (k.below index next'.1 (.secret next'.2)).depth.toNat + nodes.length ≤ 255 := by
      rw [depth_of_child hchild]
      omega
    obtain ⟨last, hlast, hkey⟩ := ih hrest rfl rfl hroom
    exact ⟨last, descend_cons_eq_ok_iff.mpr ⟨_, hchild, hlast⟩, hkey⟩

/-! ## Plain roots -/

/-- The root of a private key with a chain code of zeros. -/
def plainRoot (key : PrivateKey) : ExtendedKey where
  network := .mainnet
  depth := 0
  parentFingerprint := Octets.replicate 4 0
  childNumber := 0
  chainCode := Octets.replicate 32 0
  material := .secret key

/-- The plain root of the first private key. -/
def firstRoot : ExtendedKey := plainRoot ⟨1, by decide⟩

end ExtendedKey

end WalletAuth
