import Mathlib
import WalletAuth.Proofs.HdKey.Path
import WalletAuth.Proofs.HdKey.Step
import WalletAuth.Proofs.Key.Private

/-! Deriving below the public half of a node gives the public halves of what is derived below the node
itself, as long as no hardened index is met. One step hashes the same octets on both sides, moves the
private key on one side and the public key on the other, and fails on both sides or on neither; a path
repeats the step, and a text spells no hardened index. -/
namespace WalletAuth
open Curve Curve.Arithmetic
set_option autoImplicit false

namespace KeyMaterial

def publicKey : KeyMaterial → PublicKey
  | .secret k => k.publicKey
  | .published k => k

theorem toOption_move_published (material : KeyMaterial) (t : Octets 32) :
    ((published material.publicKey).move t).toOption =
      (material.move t).toOption.map fun m => published m.publicKey := by
  cases material with
  | secret k =>
    have h := k.toOption_addTweak_publicKey t
    simp only [move, publicKey]
    cases hk : k.addTweak t <;> cases hp : k.publicKey.addTweak t <;> simp_all [Except.toOption, Except.map]
  | published k =>
    simp only [move, publicKey]
    cases k.addTweak t <;> rfl

end KeyMaterial

namespace ExtendedKey

@[simp] theorem publicKey_neuter (k : ExtendedKey) : k.neuter.publicKey = k.publicKey := rfl

theorem publicKey_eq (k : ExtendedKey) : k.publicKey = k.material.publicKey := by
  unfold publicKey
  cases k.material <;> rfl

theorem neuter_below (k : ExtendedKey) (i : UInt32) (c : Octets 32) (material : KeyMaterial) :
    (k.below i c material).neuter = k.neuter.below i c (.published material.publicKey) := by
  unfold neuter
  rw [publicKey_eq]
  rfl

theorem child_neuter {i : UInt32} (hi : i < hardenedStart) (k : ExtendedKey) :
    k.neuter.child i = (k.child i).map neuter := by
  by_cases hd : k.depth = 255
  · have hd' : k.neuter.depth = 255 := hd
    unfold child
    rw [if_pos hd, if_pos hd']
    rfl
  · have hd' : k.neuter.depth ≠ 255 := hd
    have hmaterial : k.neuter.material = .published k.material.publicKey := by
      rw [← publicKey_eq]
      rfl
    have hhash : k.neuter.childHash k.neuter.publicKey.compressed.toList i =
        k.childHash k.publicKey.compressed.toList i := rfl
    rw [child_of_lt hi hd, child_of_lt hi hd', hhash, hmaterial]
    simp only [KeyMaterial.toOption_move_published]
    cases (k.material.move (k.childHash k.publicKey.compressed.toList i).front).toOption with
    | none => rfl
    | some material =>
      simp only [Option.map_some, Except.map, neuter_below]

theorem descend_neuter {path : List UInt32} (hpath : ∀ i ∈ path, i < hardenedStart)
    (k : ExtendedKey) : k.neuter.descend path = (k.descend path).map neuter := by
  induction path generalizing k with
  | nil => rfl
  | cons i path ih =>
    have hi : i < hardenedStart := hpath i List.mem_cons_self
    have hrest := fun next => ih (fun j hj => hpath j (List.mem_cons_of_mem i hj)) next
    rw [descend_cons, descend_cons, child_neuter hi]
    cases k.child i with
    | error e => rfl
    | ok next => exact hrest next

/-! ## Paths spelled by texts -/

theorem descendText_neuter (k : ExtendedKey) (s : String) :
    k.neuter.descendText s = (k.descendText s).map neuter := by
  unfold descendText
  cases h : Path.ofText s with
  | error e => rfl
  | ok path => exact descend_neuter (Path.lt_of_ofText h) k

/-- Derivation without hardened indices commutes with taking the public half, down any path and down
the path that any text spells. Both sides fail together and with the same error. -/
theorem derivation_commutes_with_neuter (k : ExtendedKey) :
    (∀ path : List UInt32, (∀ i ∈ path, i < hardenedStart) →
      k.neuter.descend path = (k.descend path).map neuter) ∧
    ∀ s : String, k.neuter.descendText s = (k.descendText s).map neuter :=
  ⟨fun _ hpath => descend_neuter hpath k, k.descendText_neuter⟩

/-- Two steps above the greatest depth a path of two indices can be walked on both sides, up to the
last index that is not hardened. One more step fails on both sides, for want of depth. -/
theorem derivation_commutes_at_last_depths :
    let k : ExtendedKey :=
      { network := .testnet
        depth := 253
        parentFingerprint := Octets.replicate 4 7
        childNumber := 0x80000001
        chainCode := Octets.replicate 32 1
        material := .secret ⟨1, by decide⟩ }
    let path : List UInt32 := [0, 0x7fffffff]
    (∀ i ∈ path, i < hardenedStart) ∧ k.neuter.descend path = (k.descend path).map neuter ∧
      (k.descend path).isOk = true ∧ (∀ i ∈ path ++ [0], i < hardenedStart) ∧
      k.descend (path ++ [0]) = .error .depthExceeded ∧
      k.neuter.descend (path ++ [0]) = .error .depthExceeded := by
  intro k path
  have hpath : ∀ i ∈ path, i < hardenedStart := by simp [path, hardenedStart]
  have hlonger : ∀ i ∈ path ++ [0], i < hardenedStart := by simp [path, hardenedStart]
  have hok : (k.descend path).isOk = true := by decide +kernel
  obtain ⟨last, hlast⟩ := exists_of_isOk hok
  have hdeepest : last.depth = 255 := UInt8.toNat_inj.mp (depth_of_descend hlast)
  have hfails : k.descend (path ++ [0]) = .error .depthExceeded := by
    rw [descend_append, hlast]
    show last.descend [0] = _
    rw [descend_singleton]
    exact if_pos hdeepest
  have hcommutes := (derivation_commutes_with_neuter k).1
  refine ⟨hpath, hcommutes path hpath, hok, hlonger, hfails, ?_⟩
  rw [hcommutes _ hlonger, hfails]
  rfl

end ExtendedKey

end WalletAuth
