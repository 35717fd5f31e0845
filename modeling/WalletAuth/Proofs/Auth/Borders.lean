import Mathlib
import WalletAuth.Proofs.Auth.Signed

/-! Where the parts of a signed text end. The parts stand one behind the other, with nothing between them.
An accepted identity tells by its first two octets what kind it is and where it ends, and the hash of
the body has one length; but nothing tells where the nonce ends and the time begins. -/
namespace WalletAuth.Auth
set_option autoImplicit false

/-! ## Identities -/

namespace Identity

/-- The length of an identity of which two octets are known. The text of an extended key begins with no
zero; the hexadecimal text of a key begins with one, and a four behind it leads both coordinates. -/
def width (first second : UInt8) : ℕ :=
  if first ≠ 0x30 then 111 else if second = 0x34 then 130 else 66

/-- The two leading octets of an identity tell its length, and the first one tells its kind. -/
def Shaped (identity : Identity) : Prop :=
  ∃ first second rest, Utf8.encode identity.text = first :: second :: rest ∧
    (first :: second :: rest).length = width first second ∧
    (first = 0x30 ↔ identity = .accessKey identity.text)

theorem shaped_of_read {text : String} {root : ExtendedKey} (h : ExtendedKey.read text = .ok root) :
    Shaped (.xpub text) := by
  obtain ⟨rfl, -⟩ := ExtendedKey.read_eq_ok_iff.mp h
  have hlength := root.length_utf8_print
  have hdigits : ∀ b ∈ Utf8.encode root.print, b ≠ 0x30 := fun b hb =>
    Base58.ne_zero_of_mem_encode hb
  show ∃ first second rest, Utf8.encode root.print = _ ∧ _
  match hoctets : Utf8.encode root.print with
  | [] =>
    rw [hoctets] at hlength
    cases hlength
  | [_] =>
    rw [hoctets] at hlength
    cases hlength
  | first :: second :: rest =>
    rw [hoctets] at hlength hdigits
    have hfirst := hdigits first List.mem_cons_self
    refine ⟨first, second, rest, rfl, ?_, iff_of_false hfirst fun h => by cases h⟩
    unfold width
    rw [if_pos hfirst, hlength]

theorem shaped_of_ofHex {text : String} {key : PublicKey} (h : PublicKey.ofHex text = .ok key) :
    Shaped (.accessKey text) := by
  unfold PublicKey.ofHex at h
  cases hdecode : Hex.decode text with
  | error fault =>
    rw [hdecode] at h
    cases h
  | ok l =>
    rw [hdecode] at h
    obtain ⟨tag, rest, rfl, hshape⟩ := PublicKey.length_of_ofBytes h
    have htag : tag.toNat < 10 := by
      rcases hshape with ⟨rfl | rfl | rfl, -⟩ | ⟨rfl, -⟩ <;> decide
    obtain ⟨hlength, tail, htext⟩ := Hex.utf8_encode_of_decode_cons htag hdecode
    rw [htext] at hlength
    refine ⟨_, _, tail, htext, ?_, iff_of_true rfl rfl⟩
    rw [hlength]
    rcases hshape with ⟨rfl | rfl | rfl, hrest⟩ | ⟨rfl, hrest⟩ <;> rw [hrest] <;> rfl

/-- No shaped identity continues another one. -/
theorem Shaped.eq_of_append {identity identity' : Identity} (h : identity.Shaped)
    (h' : identity'.Shaped) {l l' : Bytes}
    (heq : Utf8.encode identity.text ++ l = Utf8.encode identity'.text ++ l') :
    identity = identity' ∧ l = l' := by
  obtain ⟨a, b, rest, htext, hlength, hkind⟩ := h
  obtain ⟨a', b', rest', htext', hlength', hkind'⟩ := h'
  rw [htext, htext'] at heq
  obtain ⟨rfl, htail⟩ := List.cons_eq_cons.mp heq
  obtain ⟨rfl, -⟩ := List.cons_eq_cons.mp htail
  obtain ⟨hsame, hrest⟩ := List.append_inj heq (hlength.trans hlength'.symm)
  have htexts : identity.text = identity'.text := by
    apply Utf8.encode_injective
    rw [htext, htext', hsame]
  refine ⟨?_, hrest⟩
  by_cases hzero : a = 0x30
  · rw [hkind.mp hzero, hkind'.mp hzero, htexts]
  · cases identity with
    | accessKey text => exact absurd (hkind.mpr rfl) hzero
    | xpub text =>
      cases identity' with
      | accessKey text' => exact absurd (hkind'.mpr rfl) hzero
      | xpub text' => exact congrArg xpub htexts

/-- An identity that stands for a key is shaped. -/
theorem StandsFor.shaped {nonce : String} {identity : Identity} {key : PublicKey}
    (h : identity.StandsFor nonce (.ok key)) : identity.Shaped := by
  cases h with
  | child hroot _ _ _ => exact shaped_of_read hroot
  | key hkey => exact shaped_of_ofHex hkey

end Identity

/-! ## Parts -/

namespace Payload

variable {p q : Payload} {body body' : Bytes} {now maxSkew : Int64}

/-- Of two accepted payloads that sign one text the identities end at one place, and so do the hashes. -/
theorem front_eq_of_signingMessage (hp : p.verify body now maxSkew = .ok ())
    (hq : q.verify body' now maxSkew = .ok ()) (hmessage : p.signingMessage = q.signingMessage) :
    p.identity = q.identity ∧ p.bodyHash = q.bodyHash ∧
      p.nonce ++ Numeral.ofInt64 p.time = q.nonce ++ Numeral.ofInt64 q.time := by
  obtain ⟨hfresh, key, hkey, -⟩ := verify_eq_ok_iff.mp hp
  obtain ⟨hfresh', key', hkey', -⟩ := verify_eq_ok_iff.mp hq
  have hoctets : p.signedOctets = q.signedOctets := congrArg Utf8.encode hmessage
  rw [signedOctets_eq, signedOctets_eq] at hoctets
  simp only [List.append_assoc] at hoctets
  obtain ⟨hidentity, hrest⟩ := hkey.shaped.eq_of_append hkey'.shaped hoctets
  have hwidth : (Utf8.encode p.bodyHash).length = (Utf8.encode q.bodyHash).length := by
    rw [hfresh.hash, hfresh'.hash, Hex.length_utf8_encode, Hex.length_utf8_encode,
      Octets.length_toList, Octets.length_toList]
  obtain ⟨hhash, hend⟩ := List.append_inj hrest hwidth
  rw [← Utf8.encode_append, ← Utf8.encode_append] at hend
  exact ⟨hidentity, Utf8.encode_injective hhash, Utf8.encode_injective hend⟩

/-! ## The clock

A numeral that has given characters away stands for less than half of what it stood for, so that one
clock calls both times fresh only if its tolerance is large. -/

theorem lt_of_characters {v w : Int64} {l : List Char} (hl : l ≠ [])
    (h : Numeral.characters v = l ++ Numeral.characters w)
    (hv : |v.toInt - now.toInt| ≤ |maxSkew.toInt|) (hw : |w.toInt - now.toInt| ≤ |maxSkew.toInt|) :
    now.toInt < 3 * |maxSkew.toInt| := by
  rw [abs_le] at hv hw
  by_cases hsign : 0 ≤ v.toInt
  · have hhalf := Numeral.two_mul_lt_of_characters hl h hsign
    omega
  · omega

/-- Accepted payloads that sign one text have the same identity and the same hash. They have the same nonce
and the same time as well, unless one nonce is longer than the other and the tolerance exceeds a third
of what the clock shows. -/
theorem accepted_parts_agree (hp : p.verify body now maxSkew = .ok ())
    (hq : q.verify body' now maxSkew = .ok ()) (hmessage : p.signingMessage = q.signingMessage) :
    p.identity = q.identity ∧ p.bodyHash = q.bodyHash ∧
      (p.nonce.length = q.nonce.length ∨ 3 * |maxSkew.toInt| ≤ now.toInt →
        p.nonce = q.nonce ∧ p.time = q.time) := by
  obtain ⟨hidentity, hhash, hend⟩ := front_eq_of_signingMessage hp hq hmessage
  have htime := (verify_eq_ok_iff.mp hp).1.time
  have htime' := (verify_eq_ok_iff.mp hq).1.time
  refine ⟨hidentity, hhash, fun hapart => ?_⟩
  rcases Numeral.append_ofInt64_cases hend with hsame | ⟨l, hl, hmoved⟩
  · exact hsame
  · have hpositive := List.length_pos_iff.mpr hl
    rw [← String.length_toList, ← String.length_toList] at hapart
    rcases hmoved with ⟨hnonce, hnumeral⟩ | ⟨hnonce, hnumeral⟩
    · have hlate := lt_of_characters hl hnumeral htime htime'
      rw [hnonce, List.length_append] at hapart
      omega
    · have hlate := lt_of_characters hl hnumeral htime' htime
      rw [hnonce, List.length_append] at hapart
      omega

/-! ## Moving the border

An access key stands for itself under every nonce, so the first digits of a time may be read as the last
ones of the nonce. -/

theorem verify_of_moved_border {text : String} (hp : p.verify body now maxSkew = .ok ())
    (hidentity : p.identity = .accessKey text) {nonce : String} {time : Int64}
    (hend : nonce ++ Numeral.ofInt64 time = p.nonce ++ Numeral.ofInt64 p.time)
    (htime : |time.toInt - now.toInt| ≤ |maxSkew.toInt|) :
    ({ p with nonce, time } : Payload).verify body now maxSkew = .ok () := by
  obtain ⟨hfresh, key, hkey, hsignature⟩ := verify_eq_ok_iff.mp hp
  have hmoved : p.identity.StandsFor nonce (.ok key) := by
    rw [hidentity] at hkey ⊢
    cases hkey with
    | key hkey => exact .key hkey
  have hoctets : ({ p with nonce, time } : Payload).signedOctets = p.signedOctets := by
    unfold signedOctets signingMessage
    rw [String.append_assoc, hend, ← String.append_assoc]
  exact verify_eq_ok_iff.mpr ⟨⟨hfresh.hash, htime⟩, key, hmoved, hoctets ▸ hsignature⟩

theorem exists_signByAccessKey_nineteen :
    ∃ p, signByAccessKey ⟨1, by decide⟩ [] (drawNonce zeros).1 19 = .ok p := by
  have hdigest : SignedMessage.digest (signedOctets
      { identity := .accessKey (PrivateKey.publicKey ⟨1, by decide⟩).toHex, bodyHash := hashBody [],
        nonce := (drawNonce zeros).1, time := 19, signature := "" }) =
      Octets.ofNat 32 0x8d65fda64d9e8339c5708cc8440cb7e1c8aa762d27a84e10cd583f637a6cbb36 := by
    rw [signedOctets_eq]
    unfold hashBody drawNonce Entropy.drawHex Identity.text PublicKey.toHex
    rw [Hex.utf8_encode, Hex.utf8_encode, Hex.utf8_encode]
    decide +kernel
  have hnonce : Ecdsa.nonce? ⟨1, by decide⟩
      (Octets.ofNat 32 0x8d65fda64d9e8339c5708cc8440cb7e1c8aa762d27a84e10cd583f637a6cbb36) =
      some ⟨0xe2ff64d4c7d620d12da03aa176693a9fee4ab898583487908fb167f2ef1ccfcf, by decide⟩ :=
    Ecdsa.nonce?_eq_some
      (Octets.ofNat 32 0xbe9e83f2c86068e1af051d2a20386d718ba5c748affacdac4df3a3e2401e4a01)
      (Octets.ofNat 32 0xc055e08d9d32274b0505e45e7d82d0bd6b3fc9069e185e4ea3d40cf35a36de14)
      (Octets.ofNat 32 0xd02a9a3ec9c33b1bbef53584b4e7f96b12348c5919c0ef89ce3346e0f736b91e)
      (Octets.ofNat 32 0x25f8f01e57cc29fe65e67f91661e15dedbe96d7cc63abafbed8ee2578da6584d)
      (by decide +kernel) (by decide +kernel) (by decide +kernel) (by decide +kernel)
      (by decide +kernel)
  exact exists_signAs hdigest hnonce (by decide +kernel)

/-- A payload that the first key signed at 19 is accepted, with its signature, as one of the time 9 that has
a longer nonce. -/
theorem exists_moved_border :
    ∃ p q : Payload, signByAccessKey ⟨1, by decide⟩ [] (drawNonce zeros).1 19 = .ok p ∧
      q = { p with nonce := p.nonce ++ "1", time := 9 } ∧ p.time = 19 ∧
      p.signingMessage = q.signingMessage ∧
      (∀ now maxSkew : Int64, |(19 : Int64).toInt - now.toInt| ≤ |maxSkew.toInt| →
        p.verify [] now maxSkew = .ok ()) ∧
      q.verify [] 14 5 = .ok () := by
  obtain ⟨p, hp⟩ := exists_signByAccessKey_nineteen
  have hsigned := signedBy_of_signAs hp
  have haccepted := (accepted_of_signByAccessKey hp).2
  have hend : p.nonce ++ "1" ++ Numeral.ofInt64 9 = p.nonce ++ Numeral.ofInt64 p.time := by
    have hnumeral : "1" ++ Numeral.ofInt64 9 = Numeral.ofInt64 19 := by decide
    rw [hsigned.time_eq, String.append_assoc, hnumeral]
  refine ⟨p, _, hp, rfl, hsigned.time_eq, ?_, haccepted, ?_⟩
  · unfold signingMessage
    rw [String.append_assoc, ← hend, ← String.append_assoc]
  · exact verify_of_moved_border (haccepted 14 5 (by decide)) hsigned.identity_eq hend (by decide)

/-- One signature is accepted at one clock for two times, under two nonces. -/
theorem one_signature_two_times :
    ∃ p q : Payload, signByAccessKey ⟨1, by decide⟩ [] (drawNonce zeros).1 19 = .ok p ∧
      q = { p with nonce := p.nonce ++ "1", time := 9 } ∧ p.signature = q.signature ∧
      p.verify [] 14 5 = .ok () ∧ q.verify [] 14 5 = .ok () ∧
      p.signingMessage = q.signingMessage ∧ p.nonce ≠ q.nonce ∧ p.time = 19 ∧ q.time = 9 := by
  obtain ⟨p, q, hsigned, hmoved, htime, hmessage, hp, hq⟩ := exists_moved_border
  refine ⟨p, q, hsigned, hmoved, by rw [hmoved], hp 14 5 (by decide), hq, hmessage, fun h => ?_, htime,
    by rw [hmoved]⟩
  rw [hmoved] at h
  have hlength : p.nonce.length = (p.nonce ++ "1").length := congrArg String.length h
  have hone : "1".length = 1 := rfl
  rw [String.length_append, hone] at hlength
  omega

/-- The two payloads on either side of the edge: a tolerance of 5 lets the border move at 14, where it keeps
the identity and the hash in their places, and at 15 the same signature is accepted for one nonce and
one time. -/
theorem parts_agree_from_fifteen :
    ∃ p q : Payload, p ≠ q ∧ p.verify [] 14 5 = .ok () ∧ q.verify [] 14 5 = .ok () ∧
      p.signingMessage = q.signingMessage ∧ p.identity = q.identity ∧ p.bodyHash = q.bodyHash ∧
      p.verify [] 15 5 = .ok () ∧
      ∀ (r : Payload) (body : Bytes), r.verify body 15 5 = .ok () →
        p.signingMessage = r.signingMessage → p.nonce = r.nonce ∧ p.time = r.time := by
  obtain ⟨p, q, -, hmoved, htime, hmessage, hp, hq⟩ := exists_moved_border
  have hfourteen := hp 14 5 (by decide)
  have hfifteen := hp 15 5 (by decide)
  have hfront := accepted_parts_agree hfourteen hq hmessage
  refine ⟨p, q, fun h => ?_, hfourteen, hq, hmessage, hfront.1, hfront.2.1, hfifteen, ?_⟩
  · have hother : q.time = 9 := by rw [hmoved]
    rw [h, hother] at htime
    exact absurd htime (by decide)
  · intro r body hr hsame
    exact (accepted_parts_agree hfifteen hr hsame).2.2 (Or.inr (by decide))

end Payload

end WalletAuth.Auth
