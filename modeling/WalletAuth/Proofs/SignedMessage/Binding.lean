import Mathlib
import WalletAuth.Proofs.Encoding.CompactSize
import WalletAuth.Proofs.SignedMessage

/-! What a signature of a message commits to. A message enters by its digest, up to the group order, and by
nothing else. Of all texts that carry one `r`, and one `s` or its negative, a key accepts a single one
for a message. -/
namespace WalletAuth
open Curve
set_option autoImplicit false

namespace SignedMessage

/-! ## The string that is hashed

It is read back as the phrase and the message and as nothing else, so messages that differ have strings
that differ. -/

section

open CompactSize

/-- Reads two framed pieces that nothing follows. -/
def pieces? (l : Bytes) : Option (Bytes × Bytes) := do
  let (first, rest) ← unframe? l
  let (second, rest) ← unframe? rest
  if rest.isEmpty then some (first, second) else none

theorem pieces?_frame_append {first second : Bytes} (hfirst : first.length < UInt64.size)
    (hsecond : second.length < UInt64.size) :
    pieces? (frame first ++ frame second) = some (first, second) := by
  have hread := unframe?_frame_append hsecond []
  rw [List.append_nil] at hread
  unfold pieces?
  simp only [unframe?_frame_append hfirst, hread, bind, Option.bind_some]
  rfl

theorem framed_injective : Function.Injective framed := by
  intro m m' h
  exact frame_injective (List.append_cancel_left h)

/-- A number is written in as many octets as its width says and is read back from them, whatever follows;
any other octets that are read as the number are more. The string for a message is read back as the
phrase and the message, and no two messages share a string. -/
theorem hashed_strings_told_apart :
    (∀ (v : UInt64) (rest : Bytes),
      (encode v).length = width v ∧ decode? (encode v ++ rest) = some (v, rest)) ∧
    (∀ (v : UInt64) (l rest : Bytes), decode? l = some (v, rest) →
      l = encode v ++ rest ∨ width v + rest.length < l.length) ∧
    (∀ m : Bytes, m.length < UInt64.size → pieces? (framed m) = some (phrase, m)) ∧
    ∀ m m' : Bytes, m ≠ m' → framed m ≠ framed m' := by
  refine ⟨fun v rest => ⟨length_encode v, decode?_encode v rest⟩,
    fun v l rest => eq_encode_or_lt_of_decode?, fun m hm => ?_, fun m m' => framed_injective.ne⟩
  have hphrase : phrase.length < UInt64.size := by decide
  exact pieces?_frame_append hphrase hm

/-- The first number that needs a marker is read from five octets too, which are two more than its written
form; a message of one octet and that octet twice have different strings. -/
theorem first_marked_number_told_apart :
    decode? [0xfe, 0xfd, 0, 0, 0, 7] = some (0xfd, [7]) ∧ encode 0xfd = [0xfd, 0xfd, 0] ∧
      width 0xfd + 1 < 6 ∧ pieces? (framed [7]) = some (phrase, [7]) ∧
      framed [7] ≠ framed [7, 7] := by
  obtain ⟨-, hshortest, hread, hapart⟩ := hashed_strings_told_apart
  have hlong : decode? [0xfe, 0xfd, 0, 0, 0, 7] = some (0xfd, [7]) := by decide
  have hother : [0xfe, 0xfd, 0, 0, 0, 7] ≠ encode 0xfd ++ [7] := by decide
  exact ⟨hlong, by decide, (hshortest _ _ _ hlong).resolve_left hother,
    hread [7] (by decide), hapart [7] [7, 7] (by decide)⟩

end

/-! ## Accepted signatures -/

theorem verifyText_eq_ok_true_iff {message : Bytes} {text : String} {key : PublicKey} :
    verifyText message text key = .ok true ↔ ∃ sig : Signature,
      Base64.encode (sig.compact true).toList = text ∧ sig.recover (digest message) = .ok key := by
  rw [verifyText_eq_ok_iff]
  constructor
  · rintro ⟨signer, hleads, hsame⟩
    rw [PublicKey.beq_iff_eq.mp hsame] at hleads
    exact leadsTo_iff.mp hleads
  · intro h
    exact ⟨key, leadsTo_iff.mpr h, PublicKey.beq_iff_eq.mpr rfl⟩

theorem verify_eq_ok_true_iff {message l : Bytes} {key : PublicKey} :
    verify message l key = .ok true ↔ ∃ sig : Signature,
      (sig.compact true).toList = l ∧ sig.recover (digest message) = .ok key := by
  have hencode : verifyText message (Base64.encode l) key = verify message l key :=
    verifyText_encode message l key
  rw [← hencode, verifyText_eq_ok_true_iff]
  simp only [Base64.encode_injective.eq_iff]

/-! ## One digest -/

theorem verify_congr {m m' : Bytes} (h : scalarOf (digest m).toNat = scalarOf (digest m').toNat)
    (l : Bytes) (key : PublicKey) : verify m l key = verify m' l key := by
  unfold verify recover
  simp only [Signature.recover_congr h]

/-- Messages for which one key is found to have made one signature have the same digest up to the group
order. Messages whose digests are the same up to the group order are judged alike, whatever the octets
of the signature and whatever the key. -/
theorem signature_binds_digest (m m' : Bytes) :
    (∀ (l : Bytes) (key : PublicKey), verify m l key = .ok true → verify m' l key = .ok true →
      (digest m).toNat ≡ (digest m').toNat [MOD groupOrder]) ∧
    ((digest m).toNat ≡ (digest m').toNat [MOD groupOrder] →
      ∀ (l : Bytes) (key : PublicKey), verify m l key = verify m' l key) := by
  constructor
  · intro l key h h'
    obtain ⟨sig, hl, hsig⟩ := verify_eq_ok_true_iff.mp h
    obtain ⟨sig', hl', hsig'⟩ := verify_eq_ok_true_iff.mp h'
    have hsame := Signature.eq_of_toList_compact (hl.trans hl'.symm)
    rw [← hsame] at hsig'
    exact scalarOf_eq_iff.mp (Signature.scalarOf_of_recover hsig hsig')
  · intro h
    exact verify_congr (scalarOf_eq_iff.mpr h)

/-- The first key signed the empty message. -/
theorem exists_recover_digest_nil :
    ∃ sig : Signature, sig.recover (digest []) = .ok PublicKey.generator := by
  have hverify : PublicKey.generator.verify (digest [])
      ⟨Octets.ofNat 32 0xf7a45b212236cfafb2a397e64ecb1f7a4f65fcbd8b382de9462f704193f6d7f6,
        Octets.ofNat 32 0x16b182047f590753b426d8942d32680f112698125223615319941a067f3791b3, 0⟩ = true := by
    decide +kernel
  obtain ⟨id, hid⟩ := Signature.exists_recover_of_verify hverify
  exact ⟨_, hid⟩

/-- A signature of the empty message by the first key is one of the messages with its digest and of no
others, so not of a message of one octet. -/
theorem empty_message_alone_signed :
    ∃ l : Bytes, verify [] l PublicKey.generator = .ok true ∧
      (∀ m, verify m l PublicKey.generator = .ok true ↔
        (digest m).toNat ≡ (digest []).toNat [MOD groupOrder]) ∧
      verify [0] l PublicKey.generator ≠ .ok true := by
  obtain ⟨sig, hsig⟩ := exists_recover_digest_nil
  have haccepted := verify_eq_ok_true_iff.mpr ⟨sig, rfl, hsig⟩
  have hbinds : ∀ m, verify m (sig.compact true).toList PublicKey.generator = .ok true ↔
      (digest m).toNat ≡ (digest []).toNat [MOD groupOrder] := by
    intro m
    constructor
    · intro h
      exact (signature_binds_digest m []).1 _ _ h haccepted
    · intro h
      rw [(signature_binds_digest m []).2 h]
      exact haccepted
  have hother : ¬ (digest [0]).toNat ≡ (digest []).toNat [MOD groupOrder] := by decide +kernel
  exact ⟨_, haccepted, hbinds, fun h => hother ((hbinds [0]).mp h)⟩

/-! ## One spelling -/

/-- The signature that a text spells, whichever way it marks the key. -/
def signature? (text : String) : Option Signature :=
  match Base64.decode text with
  | .error _ => none
  | .ok l => match Signature.ofCompact l with
    | .error _ => none
    | .ok (sig, _) => some sig

theorem signature?_encode_compact (sig : Signature) (compressed : Bool) :
    signature? (Base64.encode (sig.compact compressed).toList) = some sig := by
  unfold signature?
  rw [Base64.decode_encode]
  simp only [Signature.ofCompact_compact]

/-- Texts that are accepted for one message and one key, and that spell the same `r` with the same `s` or
its negative, are the same text. -/
theorem accepted_text_unique {message : Bytes} {key : PublicKey} {t₁ t₂ : String}
    (h₁ : verifyText message t₁ key = .ok true) (h₂ : verifyText message t₂ key = .ok true) :
    ∃ sig₁ sig₂ : Signature, signature? t₁ = some sig₁ ∧ signature? t₂ = some sig₂ ∧
      (sig₁.r = sig₂.r → sig₁.s = sig₂.s ∨ sig₁.s.toNat + sig₂.s.toNat = groupOrder →
        t₁ = t₂) := by
  obtain ⟨sig₁, rfl, hsig₁⟩ := verifyText_eq_ok_true_iff.mp h₁
  obtain ⟨sig₂, rfl, hsig₂⟩ := verifyText_eq_ok_true_iff.mp h₂
  refine ⟨sig₁, sig₂, signature?_encode_compact sig₁ true, signature?_encode_compact sig₂ true, ?_⟩
  intro hr hs
  rw [Signature.eq_of_recover hsig₁ hsig₂ hr hs]

/-- The first key signed the empty message with a text that has no second spelling: another recovery
identifier, the negative of `s`, the mark of an uncompressed key and whatever other text tells the
same numbers are refused. -/
theorem empty_message_signed_once :
    ∃ (text : String) (sig : Signature), verifyText [] text PublicKey.generator = .ok true ∧
      signature? text = some sig ∧
      ∀ (other : String) (sig' : Signature), other ≠ text → signature? other = some sig' →
        sig.r = sig'.r → sig.s = sig'.s ∨ sig.s.toNat + sig'.s.toNat = groupOrder →
        verifyText [] other PublicKey.generator ≠ .ok true := by
  obtain ⟨made, hmade⟩ := exists_recover_digest_nil
  have haccepted := verifyText_eq_ok_true_iff.mpr ⟨made, rfl, hmade⟩
  obtain ⟨sig, -, hsig, -, -⟩ := accepted_text_unique haccepted haccepted
  refine ⟨_, sig, haccepted, hsig, ?_⟩
  intro other sig' hne hsig' hr hs hother
  obtain ⟨sig₁, sig₂, hsig₁, hsig₂, hunique⟩ := accepted_text_unique haccepted hother
  rw [hsig] at hsig₁
  rw [hsig'] at hsig₂
  cases hsig₁
  cases hsig₂
  exact hne (hunique hr hs).symm

end SignedMessage

end WalletAuth
