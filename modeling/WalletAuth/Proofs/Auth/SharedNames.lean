import Mathlib
import WalletAuth.Proofs.Auth.Atomic
import WalletAuth.Proofs.Text.Canonical

/-! Names that are one up to the case of letters. Nothing refuses them: of the parts that are written under
one name the last one stays, and the payload is then read back as another one or not at all. Only the
hash and the nonce may share a name, and only if their texts are equal. -/
namespace WalletAuth.Auth
open Http
open ExtendedKey (firstRoot)
set_option autoImplicit false

/-! ## Reading back -/

namespace HeaderNames

/-- The names that no part may share. -/
def unshared (names : HeaderNames) : List String :=
  [names.xpub, names.accessKey, names.time, names.signature]

/-- Whether no two names are one, but for those of the hash and the nonce if their texts are equal. -/
structure KeepApart (names : HeaderNames) (p : Payload) : Prop where
  hash : ((names.hash :: names.unshared).map lowered).Nodup
  nonce : ((names.nonce :: names.unshared).map lowered).Nodup
  shared : lowered names.hash = lowered names.nonce → p.bodyHash = p.nonce

end HeaderNames

theorem Plan.Consistent.nodup_names {plan : Plan} (h : plan.Consistent) {l : List (String × String)}
    (hl : ∀ t ∈ l, t ∈ plan.texts) (htexts : (l.map Prod.snd).Nodup) :
    (l.map fun t => lowered t.1).Nodup := by
  rw [List.Nodup, List.pairwise_map] at htexts ⊢
  exact htexts.imp_of_mem fun ht hu hne hname => hne (h.single _ (hl _ ht) _ (hl _ hu) hname)

namespace Payload

variable {p : Payload} {names : HeaderNames} {m written : HeaderMap}

/-- The signature is written last, so no other part hides it, and only the signature can hide the time. -/
theorem last?_time : (p.plan names).last? names.time =
    if lowered names.signature = lowered names.time then some (names.signature, p.signature)
    else some (names.time, Numeral.ofInt64 p.time) := by
  have hreverse : (p.plan names).texts.reverse =
      [(names.signature, p.signature), (names.time, Numeral.ofInt64 p.time), (names.nonce, p.nonce),
        (names.hash, p.bodyHash), ((p.identityNames names).1, p.identity.text)] := rfl
  unfold Plan.last?
  rw [hreverse, List.find?_cons]
  by_cases hname : lowered names.signature = lowered names.time
  · rw [decide_eq_true hname, if_pos hname]
  · rw [decide_eq_false hname, if_neg hname, List.find?_cons, decide_eq_true rfl]

/-- What is written is read back exactly if the plan is consistent, unless the signature can be read as the
time. -/
theorem read_iff_consistent (hp : p.Carried) (hsignature : Numeral.int64? p.signature ≠ some p.time)
    (h : p.write names m = .ok written) :
    read written names = .ok p ↔ (p.plan names).Consistent := by
  have htext := text?_of_write hp h
  have hpart : ∀ t ∈ p.fieldTexts names, t.1 ∈ (p.plan names).names :=
    fun t ht => List.mem_append_right _ (List.mem_map_of_mem ht)
  have hother : (p.identityNames names).2 ∈ (p.plan names).names := List.mem_cons_self
  rw [Plan.consistent_iff]
  constructor
  · intro hread
    obtain ⟨hidentity, htime, hhash, hnonce, hsig⟩ := read_eq_ok_iff.mp hread
    obtain ⟨hown, hnone⟩ := readIdentity_eq_ok_iff.mp hidentity
    obtain ⟨text, hspelled, hvalue⟩ := readTime_eq_ok_iff.mp htime
    -- The time could be found in another spelling, but no part is written over it that is one.
    have htimeText : written.text? names.time = some (Numeral.ofInt64 p.time) := by
      rw [htext _ (hpart (names.time, Numeral.ofInt64 p.time) (by simp [fieldTexts])),
        last?_time] at hspelled ⊢
      split at hspelled
      · cases hspelled
        exact absurd hvalue hsignature
      · next hname => rw [if_neg hname, Option.map_some]
    refine ⟨fun t ht => ?_, fun s hs => ?_⟩
    · rw [← htext t.1 (hpart t ht)]
      change t ∈ p.fieldTexts names at ht
      unfold fieldTexts at ht
      revert t
      simp only [List.forall_mem_cons]
      exact ⟨hown, hhash, hnonce, htimeText, hsig, by simp⟩
    · obtain rfl := List.mem_singleton.mp hs
      rw [htext _ hother] at hnone
      exact Option.map_eq_none_iff.mp hnone
  · rintro ⟨hlast, hnone⟩
    refine read_of_texts (fun t ht => ?_) ?_
    · rw [htext t.1 (hpart t ht)]
      exact hlast t ht
    · rw [htext _ hother, hnone _ List.mem_cons_self]
      rfl

/-! ## Texts that are told apart -/

/-- The parts but for the hash and the nonce. -/
def unsharedTexts (p : Payload) (names : HeaderNames) : List (String × String) :=
  [((p.identityNames names).1, p.identity.text), (names.time, Numeral.ofInt64 p.time),
    (names.signature, p.signature)]

theorem mem_fieldTexts_iff {t : String × String} : t ∈ p.fieldTexts names ↔
    t = (names.hash, p.bodyHash) ∨ t = (names.nonce, p.nonce) ∨ t ∈ p.unsharedTexts names := by
  unfold fieldTexts unsharedTexts
  simp only [List.mem_cons]
  tauto

theorem nodup_unshared_iff (p : Payload) {t : String × String} :
    ((t.1 :: names.unshared).map lowered).Nodup ↔
      (∀ u ∈ t :: p.unsharedTexts names, lowered u.1 ≠ lowered (p.identityNames names).2) ∧
        ((t :: p.unsharedTexts names).map fun u => lowered u.1).Nodup := by
  have hperm : ((p.identityNames names).2 :: t.1 :: (p.identityNames names).1 ::
      [names.time, names.signature]).Perm (t.1 :: names.unshared) := by
    unfold identityNames
    cases p.identity with
    | xpub text => exact (List.Perm.swap _ _ _).trans ((List.Perm.swap _ _ _).cons _)
    | accessKey text => exact List.Perm.swap _ _ _
  rw [← (hperm.map lowered).nodup_iff, List.map_cons, List.nodup_cons]
  refine and_congr_left fun _ => ?_
  show _ ∉ (t :: p.unsharedTexts names).map (fun u => lowered u.1) ↔ _
  simp only [List.mem_map, not_exists, not_and, Ne]

theorem consistent_of_keepApart (h : names.KeepApart p) : (p.plan names).Consistent := by
  obtain ⟨hhashOther, hhashNames⟩ := (nodup_unshared_iff p (t := (names.hash, p.bodyHash))).mp h.hash
  obtain ⟨hnonceOther, hnonceNames⟩ := (nodup_unshared_iff p (t := (names.nonce, p.nonce))).mp h.nonce
  have hsame : ∀ {l : List (String × String)}, (l.map fun t => lowered t.1).Nodup →
      ∀ t ∈ l, ∀ u ∈ l, lowered t.1 = lowered u.1 → t.2 = u.2 :=
    fun hl t ht u hu hname => congrArg Prod.snd (List.inj_on_of_nodup_map hl ht hu hname)
  refine ⟨fun t ht u hu hname => ?_, fun s hs t ht => ?_⟩
  · -- Two parts are the hash and the nonce, or one of these can be left out.
    rcases mem_fieldTexts_iff.mp ht with rfl | rfl | ht <;>
      rcases mem_fieldTexts_iff.mp hu with rfl | rfl | hu
    · rfl
    · exact h.shared hname
    · exact hsame hhashNames _ List.mem_cons_self u (List.mem_cons_of_mem _ hu) hname
    · exact (h.shared hname.symm).symm
    · rfl
    · exact hsame hnonceNames _ List.mem_cons_self u (List.mem_cons_of_mem _ hu) hname
    · exact hsame hhashNames t (List.mem_cons_of_mem _ ht) _ List.mem_cons_self hname
    · exact hsame hnonceNames t (List.mem_cons_of_mem _ ht) _ List.mem_cons_self hname
    · exact hsame hhashNames t (List.mem_cons_of_mem _ ht) u (List.mem_cons_of_mem _ hu) hname
  · obtain rfl := List.mem_singleton.mp hs
    rcases mem_fieldTexts_iff.mp ht with rfl | rfl | ht
    · exact hhashOther _ List.mem_cons_self
    · exact hnonceOther _ List.mem_cons_self
    · exact hhashOther t (List.mem_cons_of_mem _ ht)

/-- Where only the hash and the nonce can have one text, no other names can be one. -/
theorem keepApart_of_consistent
    (hhash : (p.bodyHash :: (p.unsharedTexts names).map Prod.snd).Nodup)
    (hnonce : (p.nonce :: (p.unsharedTexts names).map Prod.snd).Nodup)
    (h : (p.plan names).Consistent) : names.KeepApart p := by
  have hapart : ∀ t ∈ p.fieldTexts names, (t.2 :: (p.unsharedTexts names).map Prod.snd).Nodup →
      ((t.1 :: names.unshared).map lowered).Nodup := by
    intro t ht htexts
    have hmem : ∀ u ∈ t :: p.unsharedTexts names, u ∈ (p.plan names).texts := by
      rw [List.forall_mem_cons]
      exact ⟨ht, fun u hu => mem_fieldTexts_iff.mpr (Or.inr (Or.inr hu))⟩
    exact (nodup_unshared_iff p).mpr
      ⟨fun u hu => h.cleared _ (List.mem_singleton_self _) u (hmem u hu), h.nodup_names hmem htexts⟩
  have hfirst : (names.hash, p.bodyHash) ∈ p.fieldTexts names := mem_fieldTexts_iff.mpr (Or.inl rfl)
  have hsecond : (names.nonce, p.nonce) ∈ p.fieldTexts names :=
    mem_fieldTexts_iff.mpr (Or.inr (Or.inl rfl))
  exact ⟨hapart _ hfirst hhash, hapart _ hsecond hnonce, h.single _ hfirst _ hsecond⟩

/-! ## Signed payloads -/

/-- The payloads that are signed with a nonce that was drawn. -/
inductive Signed (p : Payload) : Prop
  | xpriv {root : ExtendedKey} {body : Bytes} {e : Entropy} {time : Int64}
    (h : signByXpriv root body (drawNonce e).1 time = .ok p)
  | accessKey {key : PrivateKey} {body : Bytes} {e : Entropy} {time : Int64}
    (h : signByAccessKey key body (drawNonce e).1 time = .ok p)

namespace Signed

theorem carried (h : p.Signed) : p.Carried := by
  cases h with
  | xpriv h => exact carried_of_signByXpriv h
  | accessKey h => exact carried_of_signByAccessKey h

theorem signedBy (h : p.Signed) : ∃ identity key body e time,
    SignedBy p identity key body (drawNonce e).1 time := by
  cases h with
  | xpriv h =>
    obtain ⟨key, hsigned⟩ := signedBy_of_signByXpriv h
    exact ⟨_, key, _, _, _, hsigned⟩
  | accessKey h => exact ⟨_, _, _, _, _, signedBy_of_signAs h⟩

theorem length_identity (h : p.Signed) : (Utf8.encode p.identity.text).length = 111 ∨
    (Utf8.encode p.identity.text).length = 66 := by
  cases h with
  | @xpriv root _ _ _ h =>
    obtain ⟨key, hsigned⟩ := signedBy_of_signByXpriv h
    rw [hsigned.identity_eq]
    exact Or.inl root.neuter.length_utf8_print
  | @accessKey key _ _ _ h =>
    rw [(signedBy_of_signAs h).identity_eq]
    right
    show (Utf8.encode (Hex.encode key.publicKey.compressed.toList)).length = 66
    rw [Hex.length_utf8_encode, Octets.length_toList]

theorem exists_signature (h : p.Signed) : ∃ o : Octets 65, Base64.encode o.toList = p.signature := by
  obtain ⟨identity, key, body, e, time, hsigned⟩ := h.signedBy
  obtain ⟨o, -, ho⟩ := map_eq_ok_iff.mp hsigned.signature
  exact ⟨o, ho⟩

theorem length_signature (h : p.Signed) : (Utf8.encode p.signature).length = 88 := by
  obtain ⟨o, ho⟩ := h.exists_signature
  rw [← ho, Base64.length_utf8_encode, Octets.length_toList]

/-- The text of a signature ends in padding. -/
theorem int64?_signature (h : p.Signed) : Numeral.int64? p.signature = none := by
  obtain ⟨o, ho⟩ := h.exists_signature
  have hpadding : Base64.padding ∈ Utf8.encode p.signature := by
    rw [← ho]
    apply Base64.padding_mem_utf8_encode
    rw [Octets.length_toList]
    decide
  rw [Option.eq_none_iff_forall_ne_some]
  intro v hv
  rcases Numeral.mem_of_int64? hv _ hpadding with hplus | hminus | ⟨d, hd⟩
  · exact absurd hplus (by decide)
  · exact absurd hminus (by decide)
  · cases hd

/-- The parts have different lengths, but for the hash and the nonce. -/
theorem nodup_texts (h : p.Signed) (names : HeaderNames) :
    (p.bodyHash :: (p.unsharedTexts names).map Prod.snd).Nodup ∧
      (p.nonce :: (p.unsharedTexts names).map Prod.snd).Nodup := by
  have hidentity := h.length_identity
  have hsignature := h.length_signature
  have htime := Numeral.length_utf8_ofInt64_le p.time
  have hnodup : ∀ s, (Utf8.encode s).length = 64 →
      (s :: (p.unsharedTexts names).map Prod.snd).Nodup := by
    intro s hs
    apply List.Nodup.of_map fun s => (Utf8.encode s).length
    unfold unsharedTexts
    simp only [List.map_cons, List.map_nil, List.nodup_cons, List.mem_cons, List.not_mem_nil,
      List.nodup_nil, or_false, not_or, not_false_eq_true, and_true]
    omega
  obtain ⟨identity, key, body, e, time, hsigned⟩ := h.signedBy
  constructor
  · apply hnodup
    rw [hsigned.bodyHash_eq, hashBody, Hex.length_utf8_encode, Octets.length_toList]
  · apply hnodup
    rw [hsigned.nonce_eq, length_drawNonce]
    rfl

end Signed

/-! ## Refusals -/

theorem Signed.exists_run (h : p.Signed) (names : HeaderNames)
    (hvalid : ∀ s ∈ names.all, (HeaderName.ofString? s).isSome = true) (out : Outgoing) :
    ∃ out', (onHeaders (p.writeHeaders names)).run out = .ok () out' := by
  obtain ⟨written, hwrite⟩ := exists_write_of_valid hvalid h.carried out.headers
  rw [write_eq] at hwrite
  rw [run_onHeaders_writeHeaders, hwrite]
  exact ⟨_, rfl⟩

/-- A signed payload is refused exactly for a name that is not valid, and nothing changes then. It is read
back exactly if its names keep apart. -/
theorem read_back_iff_keepApart (hp : p.Signed) (names : HeaderNames) (out : Outgoing) :
    (∀ e out', (onHeaders (p.writeHeaders names)).run out = .error e out' →
      e = .headerName ∧ out' = out ∧ ∃ s ∈ names.all, HeaderName.ofString? s = none) ∧
    ∀ out', (onHeaders (p.writeHeaders names)).run out = .ok () out' →
      (∀ s ∈ names.all, (HeaderName.ofString? s).isSome = true) ∧
        (read out'.headers names = .ok p ↔ names.KeepApart p) := by
  have hperm := p.plan_names_perm names
  rw [run_onHeaders_writeHeaders]
  constructor
  · intro e out' h
    obtain ⟨hwrite, hout⟩ := Outgoing.settle_eq_error_iff.mp h
    obtain ⟨he, s, hs, hname⟩ :=
      Plan.write_eq_error (fun t ht => (hp.carried t.2 (mem_texts ht)).2) hwrite
    exact ⟨he, hout.symm, s, hperm.mem_iff.mp hs, hname⟩
  · intro out' h
    obtain ⟨hwrite, -⟩ := Outgoing.settle_eq_ok_iff.mp h
    have hnumeral : Numeral.int64? p.signature ≠ some p.time := by
      rw [hp.int64?_signature]
      rintro ⟨⟩
    rw [read_iff_consistent hp.carried hnumeral ((p.write_eq names _).trans hwrite)]
    obtain ⟨hhash, hnonce⟩ := hp.nodup_texts names
    exact ⟨fun s hs => Plan.valid_of_write hwrite s (hperm.mem_iff.mpr hs),
      keepApart_of_consistent hhash hnonce, consistent_of_keepApart⟩

theorem hash_ne_nonce (h : signByAccessKey ⟨1, by decide⟩ [] (drawNonce zeros).1 0 = .ok p) :
    p.bodyHash ≠ p.nonce := by
  have hsigned := signedBy_of_signAs h
  have hoctets : (Hash.sha256 []).toList ≠ (zeros.next nonceLength).toList := by decide +kernel
  rw [hsigned.bodyHash_eq, hsigned.nonce_eq]
  exact Hex.encode_injective.ne hoctets

/-- Over an old value of the other kind, the first key is read back from the usual names. A name of the hash
that is the name of the nonce, and one name for both kinds of identity, are not refused and lose a
part; an empty name is refused. -/
theorem first_payloads_read_back :
    let stale : HeaderName := ⟨"x-auth-xpub".toList, by decide +kernel⟩
    let out : Outgoing := ⟨⟨[(stale, ⟨[0x31], by decide⟩)]⟩, zeros⟩
    (∃ p, signByAccessKey ⟨1, by decide⟩ [] (drawNonce zeros).1 0 = .ok p ∧
      (∃ out', (onHeaders (p.writeHeaders {})).run out = .ok () out' ∧ read out'.headers {} = .ok p) ∧
      (∃ out', (onHeaders (p.writeHeaders { hash := "X-Auth-Nonce" })).run out = .ok () out' ∧
        read out'.headers { hash := "X-Auth-Nonce" } ≠ .ok p) ∧
      (onHeaders (p.writeHeaders { time := "" })).run out = .error .headerName out) ∧
    ∃ p, signByXpriv firstRoot [] (drawNonce zeros).1 0 = .ok p ∧
      ∃ out', (onHeaders (p.writeHeaders { accessKey := "X-Auth-Xpub" })).run out = .ok () out' ∧
        read out'.headers { accessKey := "X-Auth-Xpub" } ≠ .ok p := by
  intro stale out
  obtain ⟨p, hp⟩ := exists_signByAccessKey
  obtain ⟨q, hq⟩ := exists_signByXpriv
  have hsigned : p.Signed := .accessKey hp
  have hroot : q.Signed := .xpriv hq
  refine ⟨⟨p, hp, ?_, ?_, ?_⟩, q, hq, ?_⟩
  · obtain ⟨out', hrun⟩ := hsigned.exists_run {} HeaderNames.usable_default.valid out
    have hapart : HeaderNames.KeepApart {} p :=
      ⟨by decide +kernel, by decide +kernel, fun h => absurd h (by decide +kernel)⟩
    exact ⟨out', hrun, ((read_back_iff_keepApart hsigned {} out).2 out' hrun).2.mpr hapart⟩
  · obtain ⟨out', hrun⟩ := hsigned.exists_run { hash := "X-Auth-Nonce" } (by decide +kernel) out
    refine ⟨out', hrun, mt ((read_back_iff_keepApart hsigned _ out).2 out' hrun).2.mp fun hapart => ?_⟩
    exact hash_ne_nonce hp (hapart.shared (by decide +kernel))
  · cases hrun : (onHeaders (p.writeHeaders { time := "" })).run out with
    | ok _ out' =>
      have hvalid := ((read_back_iff_keepApart hsigned _ out).2 out' hrun).1
      exact absurd (hvalid "" (by decide +kernel)) (by decide +kernel)
    | error e out' =>
      obtain ⟨rfl, rfl, -⟩ := (read_back_iff_keepApart hsigned _ out).1 e out' hrun
      rfl
  · obtain ⟨out', hrun⟩ := hroot.exists_run { accessKey := "X-Auth-Xpub" } (by decide +kernel) out
    refine ⟨out', hrun, mt ((read_back_iff_keepApart hroot _ out).2 out' hrun).2.mp fun hapart => ?_⟩
    exact absurd hapart.hash (by decide +kernel)

/-- Where the name of the hash is that of the nonce, the first key is written without an error and not read
back. -/
theorem shared_name_not_read_back :
    ∃ (p : Payload) (out' : Outgoing), signByAccessKey ⟨1, by decide⟩ [] (drawNonce zeros).1 0 = .ok p ∧
      (onHeaders (p.writeHeaders { hash := "X-Auth-Nonce" })).run ⟨.empty, zeros⟩ = .ok () out' ∧
      read out'.headers { hash := "X-Auth-Nonce" } ≠ .ok p := by
  obtain ⟨p, hp⟩ := exists_signByAccessKey
  obtain ⟨out', hrun⟩ := Signed.exists_run (.accessKey hp) { hash := "X-Auth-Nonce" }
    (by decide +kernel) ⟨.empty, zeros⟩
  refine ⟨p, out', hp, hrun, fun hread => hash_ne_nonce hp ?_⟩
  obtain ⟨-, -, hhash, hnonce, -⟩ := read_eq_ok_iff.mp hread
  have hone : out'.headers.text? "X-Auth-Nonce" = out'.headers.text? "x-auth-nonce" :=
    out'.headers.text?_congr (by decide +kernel)
  exact Option.some.inj (hhash.symm.trans (hone.trans hnonce))

end Payload

end WalletAuth.Auth
