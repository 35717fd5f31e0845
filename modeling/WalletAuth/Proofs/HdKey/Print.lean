import Mathlib
import WalletAuth.HdKey.Walk
import WalletAuth.Proofs.Encoding.Base58
import WalletAuth.Proofs.HdKey.Step
import WalletAuth.Proofs.Key.Private

/-! The text of an extended key is a bijection. An accepted text is the print of the key that it is read
as. A printed key is read back unless it lies at depth zero and bears traces of a parent, which no
walk from a seed or from an accepted text leads to. -/
namespace WalletAuth
set_option autoImplicit false

/-! ## Versions and keys -/

theorem Network.ofVersion?_eq_some_iff {l : Bytes} {network : Network} {isPrivate : Bool} :
    ofVersion? l = some (network, isPrivate) ↔ (network.version isPrivate).toList = l := by
  constructor
  · intro h
    have hfound := List.find?_some h
    exact eq_of_beq hfound
  · rintro rfl
    cases network <;> cases isPrivate <;> rfl

namespace KeyMaterial

def isPrivate : KeyMaterial → Bool
  | .secret _ => true
  | .published _ => false

theorem ofOctets_octets (m : KeyMaterial) : ofOctets m.isPrivate m.octets.toList = .ok m := by
  cases m with
  | secret k =>
    show (PrivateKey.ofBytes k.octets.toList).map secret = _
    rw [PrivateKey.ofBytes_eq_ok_iff.mpr rfl]
    rfl
  | published k =>
    have hread := k.ofBytes_compressed
    show ofOctets false k.compressed.toList = _
    rw [PublicKey.toList_compressed] at hread ⊢
    have htag : (decide (k.tag = 2) || decide (k.tag = 3)) = true := by
      rw [Bool.or_eq_true, decide_eq_true_iff, decide_eq_true_iff]
      exact k.tag_eq
    simp only [ofOctets, htag, if_true, hread]
    rfl

theorem octets_of_ofOctets {p : Bool} {l : Bytes} {m : KeyMaterial} (h : ofOctets p l = .ok m) :
    m.isPrivate = p ∧ m.octets.toList = l := by
  unfold ofOctets at h
  split at h
  · obtain ⟨k, hk, rfl⟩ := map_eq_ok_iff.mp h
    rw [PrivateKey.ofBytes_eq_ok_iff.mp hk]
    exact ⟨rfl, rfl⟩
  · cases h
  · split at h
    · next htag =>
      obtain ⟨k, hk, rfl⟩ := map_eq_ok_iff.mp h
      rw [Bool.or_eq_true, decide_eq_true_iff, decide_eq_true_iff] at htag
      exact ⟨rfl, PublicKey.compressed_of_ofBytes htag hk⟩
    · cases h
  · cases h

end KeyMaterial

namespace ExtendedKey

/-! ## The 78 octets -/

theorem isPrivate_eq (k : ExtendedKey) : k.isPrivate = k.material.isPrivate := rfl

def fields (k : ExtendedKey) : Octets (4 + (1 + (4 + (4 + (32 + 33))))) :=
  (k.network.version k.isPrivate).append <| (Octets.ofNat 1 k.depth.toNat).append <|
    k.parentFingerprint.append <| (Octets.ofNat 4 k.childNumber.toNat).append <|
      k.chainCode.append k.material.octets

theorem payload_eq (k : ExtendedKey) : k.payload = k.fields.toList := by
  have hdepth : (Octets.ofNat 1 k.depth.toNat).toList = [k.depth] := by
    simp [Octets.ofNat, Bytes.ofNat, Radix.toDigits_succ]
  unfold payload fields
  simp only [Octets.toList_append, Hash.word32_eq, hdepth, List.singleton_append]

/-- The extended key with the fields that octets have behind the version and before the key. -/
def ofFields (network : Network) (material : KeyMaterial)
    (body : Octets (4 + (1 + (4 + (4 + (32 + 33)))))) : ExtendedKey where
  network := network
  depth := UInt8.ofNat body.back.front.toNat
  parentFingerprint := body.back.back.front
  childNumber := UInt32.ofNat body.back.back.back.front.toNat
  chainCode := body.back.back.back.back.front
  material := material

theorem ofFields_fields (k : ExtendedKey) : ofFields k.network k.material k.fields = k := by
  have hdepth : (Octets.ofNat 1 k.depth.toNat).toNat = k.depth.toNat :=
    Octets.toNat_ofNat k.depth.toNat_lt
  have hnumber : (Octets.ofNat 4 k.childNumber.toNat).toNat = k.childNumber.toNat :=
    Octets.toNat_ofNat k.childNumber.toNat_lt
  unfold ofFields fields
  simp only [Octets.front_append, Octets.back_append, hdepth, hnumber, UInt8.ofNat_toNat,
    UInt32.ofNat_toNat]

theorem fields_ofFields {network : Network} {material : KeyMaterial}
    {body : Octets (4 + (1 + (4 + (4 + (32 + 33)))))}
    (hversion : network.version material.isPrivate = body.front)
    (hmaterial : material.octets = body.back.back.back.back.back) :
    (ofFields network material body).fields = body := by
  have hdepth : (UInt8.ofNat body.back.front.toNat).toNat = body.back.front.toNat :=
    UInt8.toNat_ofNat_of_lt' (Octets.toNat_lt _)
  have hnumber : (UInt32.ofNat body.back.back.back.front.toNat).toNat =
      body.back.back.back.front.toNat :=
    UInt32.toNat_ofNat_of_lt' (Octets.toNat_lt _)
  unfold fields
  rw [isPrivate_eq]
  simp only [ofFields, hversion, hmaterial, hdepth, hnumber, Octets.ofNat_toNat,
    Octets.front_append_back]

/-- A root is without the traces of a parent. -/
def Rooted (k : ExtendedKey) : Prop := k.depth = 0 → k.hasParentTraces = false

/-- A key, unless it is a root with the traces of a parent. -/
def rooted (k : ExtendedKey) : Except KeyError ExtendedKey :=
  if k.depth == 0 && k.hasParentTraces then .error (.extendedKey .masterWithParent) else .ok k

theorem rooted_eq_ok_iff {k k' : ExtendedKey} : k.rooted = .ok k' ↔ k = k' ∧ k.Rooted := by
  have hcond : (k.depth == 0 && k.hasParentTraces) = false ↔ k.Rooted := by
    rw [Bool.and_eq_false_imp, beq_iff_eq]
    rfl
  unfold rooted
  rw [← hcond]
  cases k.depth == 0 && k.hasParentTraces <;> simp

theorem ofPayload_toList {body : Octets (4 + (1 + (4 + (4 + (32 + 33)))))} {network : Network}
    {isPrivate : Bool} (h : Network.ofVersion? body.front.toList = some (network, isPrivate)) :
    ofPayload body.toList = (KeyMaterial.ofOctets isPrivate body.back.back.back.back.back.toList) >>=
      fun material => (ofFields network material body).rooted := by
  unfold ofPayload
  simp only [Octets.ofList?_toList, h]
  rfl

/-- Octets are read as the key whose octets they are, unless this is a root with traces of a parent. -/
theorem ofPayload_eq_ok_iff {l : Bytes} {k : ExtendedKey} :
    ofPayload l = .ok k ↔ k.payload = l ∧ k.Rooted := by
  rw [payload_eq]
  constructor
  · intro h
    cases hbody : Octets.ofList? (4 + (1 + (4 + (4 + (32 + 33))))) l with
    | none =>
      simp only [ofPayload, hbody] at h
      cases h
    | some body =>
      obtain rfl := Octets.ofList?_eq_some_iff.mp hbody
      cases hversion : Network.ofVersion? body.front.toList with
      | none =>
        simp only [ofPayload, hbody, hversion] at h
        cases h
      | some version =>
        obtain ⟨network, isPrivate⟩ := version
        rw [ofPayload_toList hversion] at h
        obtain ⟨material, hmaterial, hrooted⟩ := bind_eq_ok_iff.mp h
        obtain ⟨rfl, hoctets⟩ := KeyMaterial.octets_of_ofOctets hmaterial
        obtain ⟨rfl, hroot⟩ := rooted_eq_ok_iff.mp hrooted
        have hfront := Network.ofVersion?_eq_some_iff.mp hversion
        exact ⟨congrArg Octets.toList (fields_ofFields (Octets.ext hfront) (Octets.ext hoctets)), hroot⟩
  · rintro ⟨rfl, hroot⟩
    have hversion : Network.ofVersion? k.fields.front.toList =
        some (k.network, k.material.isPrivate) :=
      Network.ofVersion?_eq_some_iff.mpr (congrArg Octets.toList (Octets.front_append _ _).symm)
    have hoctets : k.fields.back.back.back.back.back = k.material.octets := by
      simp only [fields, Octets.back_append]
    rw [ofPayload_toList hversion, hoctets, bind_eq_ok_iff]
    refine ⟨k.material, k.material.ofOctets_octets, ?_⟩
    rw [ofFields_fields]
    exact rooted_eq_ok_iff.mpr ⟨rfl, hroot⟩

/-! ## The text -/

/-- A text is read as the key that it is the print of, unless this is a root with traces of a
parent. -/
theorem read_eq_ok_iff {s : String} {k : ExtendedKey} :
    read s = .ok k ↔ k.print = s ∧ k.Rooted := by
  unfold read print
  constructor
  · intro h
    split at h
    · cases h
    · split at h
      · next payload hdecode =>
        obtain ⟨rfl, hroot⟩ := ofPayload_eq_ok_iff.mp h
        exact ⟨Base58.checkDecode_eq_ok_iff.mp hdecode, hroot⟩
      · cases h
  · rintro ⟨rfl, hroot⟩
    have hnonempty : (Base58.checkEncode k.payload).isEmpty = false := by
      rw [String.isEmpty_eq_false_iff]
      exact Base58.checkEncode_ne_empty k.payload
    rw [hnonempty, Base58.checkDecode_eq_ok_iff.mpr rfl]
    exact ofPayload_eq_ok_iff.mpr ⟨rfl, hroot⟩

/-- The two leading octets of a version keep the number of the 82 octets between two powers of 58. -/
theorem length_utf8_print (k : ExtendedKey) : (Utf8.encode k.print).length = 111 := by
  have hversion : ∃ x y z : UInt8, x.toNat ≤ 0x88 ∧
      (k.network.version k.isPrivate).toList = [4, x, y, z] := by
    cases k.network <;> cases k.isPrivate <;> exact ⟨_, _, _, by decide, rfl⟩
  obtain ⟨x, y, z, hx, hversion⟩ := hversion
  have hpayload : ∃ l : Bytes, k.payload = [4, x, y, z] ++ l := by
    unfold payload
    rw [hversion]
    exact ⟨_, rfl⟩
  obtain ⟨l, hl⟩ := hpayload
  have hlength : l.length = 74 := by
    have h := k.fields.length_toList
    rw [← payload_eq, hl, List.length_append, List.length_cons, List.length_cons, List.length_cons,
      List.length_singleton] at h
    omega
  have hrest : ([y, z] ++ l ++ Base58.checksum k.payload).length = 80 := by
    rw [List.length_append, List.length_append, hlength, Base58.length_checksum]
    rfl
  have hnumber : Bytes.toNat (4 :: x :: ([y, z] ++ l ++ Base58.checksum k.payload)) =
      4 * 256 ^ 81 + (x.toNat * 256 ^ 80 +
        Bytes.toNat ([y, z] ++ l ++ Base58.checksum k.payload)) := by
    rw [Bytes.toNat_cons, Bytes.toNat_cons, List.length_cons, hrest]
    rfl
  have htail := Bytes.toNat_lt ([y, z] ++ l ++ Base58.checksum k.payload)
  rw [hrest] at htail
  have hprint : k.print =
      Base58.encode (4 :: x :: ([y, z] ++ l ++ Base58.checksum k.payload)) := by
    unfold print Base58.checkEncode
    rw [congrArg (· ++ Base58.checksum k.payload) hl]
    rfl
  rw [hprint]
  refine Base58.length_utf8_encode (by decide) ?_ ?_
  · rw [hnumber]
    have hpower : 58 ^ 110 ≤ 4 * 256 ^ 81 := by decide
    exact hpower.trans (Nat.le_add_right _ _)
  · rw [hnumber]
    have hpower : 4 * 256 ^ 81 + 0x89 * 256 ^ 80 ≤ 58 ^ 111 := by decide
    have hsecond : x.toNat * 256 ^ 80 ≤ 0x88 * 256 ^ 80 := Nat.mul_le_mul_right _ hx
    omega

/-! ## Walks -/

/-- The keys that walks from a seed or from an accepted text lead to. -/
inductive Reachable : ExtendedKey → Prop
  | seed {seed : Bytes} {network : Network} {k : ExtendedKey} (h : ofSeed seed network = .ok k) :
    Reachable k
  | generated {network : Network} {e : Entropy} {k : ExtendedKey}
    (h : (generate network e).1 = .ok k) : Reachable k
  | accepted {s : String} {k : ExtendedKey} (h : read s = .ok k) : Reachable k
  | step {k next : ExtendedKey} {step : Step} (hk : Reachable k) (h : k.take step = .ok next) :
    Reachable next

theorem generate_fst (network : Network) (e : Entropy) :
    (generate network e).1 = ofSeed (e.next 32).toList network := by
  simp only [generate, Entropy.draw]

theorem rooted_of_ofSeed {seed : Bytes} {network : Network} {k : ExtendedKey}
    (h : ofSeed seed network = .ok k) : k.Rooted := by
  unfold ofSeed at h
  split at h
  · dsimp only at h
    split at h
    · cases h
      exact fun _ => rfl
    · cases h
  · cases h

theorem rooted_of_child {k next : ExtendedKey} {index : UInt32} (h : k.child index = .ok next) :
    next.Rooted := by
  intro hzero
  have hdepth := depth_of_child h
  rw [hzero] at hdepth
  exact absurd hdepth.symm (Nat.succ_ne_zero _)

theorem rooted_of_descend {path : List UInt32} {k next : ExtendedKey} (hk : k.Rooted)
    (h : k.descend path = .ok next) : next.Rooted := by
  induction path generalizing k with
  | nil =>
    cases h
    exact hk
  | cons index path ih =>
    obtain ⟨below, hbelow, h⟩ := descend_cons_eq_ok_iff.mp h
    exact ih (rooted_of_child hbelow) h

theorem rooted_of_take {step : Step} {k next : ExtendedKey} (hk : k.Rooted)
    (h : k.take step = .ok next) : next.Rooted := by
  cases step with
  | child index => exact rooted_of_child h
  | path indices => exact rooted_of_descend hk h
  | text s =>
    obtain ⟨indices, -, h⟩ := descendText_eq_ok_iff.mp h
    exact rooted_of_descend hk h
  | pairing => exact rooted_of_descend hk h
  | neuter =>
    cases h
    exact hk
  | reread => exact (read_eq_ok_iff.mp h).2

theorem Reachable.rooted {k : ExtendedKey} (h : Reachable k) : k.Rooted := by
  induction h with
  | seed h => exact rooted_of_ofSeed h
  | generated h =>
    rw [generate_fst] at h
    exact rooted_of_ofSeed h
  | accepted h => exact (read_eq_ok_iff.mp h).2
  | step _ h ih => exact rooted_of_take ih h

/-- The print of a key that a walk leads to is read back as the key, and a text that is read is the
print of what it is read as. -/
theorem print_bijective :
    (∀ k : ExtendedKey, Reachable k → read k.print = .ok k) ∧
    ∀ (s : String) (k : ExtendedKey), read s = .ok k → k.print = s :=
  ⟨fun _ hk => read_eq_ok_iff.mpr ⟨rfl, hk.rooted⟩, fun _ _ h => (read_eq_ok_iff.mp h).1⟩

/-- The public half of a hardened child of a root is read back. -/
theorem child_of_seed_reads_back :
    ∃ root child, ofSeed ((List.range 16).map UInt8.ofNat) .testnet = .ok root ∧
      root.child hardenedStart = .ok child ∧ read child.neuter.print = .ok child.neuter := by
  have hok : (ofSeed ((List.range 16).map UInt8.ofNat) .testnet >>= fun root =>
      root.child hardenedStart).isOk = true := by
    decide +kernel
  obtain ⟨child, hchild⟩ := exists_of_isOk hok
  obtain ⟨root, hroot, hchild⟩ := bind_eq_ok_iff.mp hchild
  have hstep : root.take (.child hardenedStart) = .ok child := hchild
  have hneuter : child.take .neuter = .ok child.neuter := rfl
  exact ⟨root, child, hroot, hchild,
    print_bijective.1 _ (.step (.step (.seed hroot) hstep) hneuter)⟩

end ExtendedKey

end WalletAuth
