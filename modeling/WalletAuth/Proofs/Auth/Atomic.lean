import Mathlib
import WalletAuth.Auth.Authenticator
import WalletAuth.Proofs.Auth.Signed

/-! A call of an authenticator changes all of its header fields or none. The call makes a plan, draws what it
needs for it, and takes the steps of the plan; what the fields say then are the texts of the signer, and
nothing that signers make is ever refused under valid names. -/
namespace WalletAuth.Auth
open Http
open ExtendedKey (firstRoot)
set_option autoImplicit false

/-! ## The plan of a call -/

namespace Signer

/-- The names that a signer writes one value for. -/
def written (signer : Signer) (names : HeaderNames) : List String :=
  match signer with
  | .xpub _ => [names.xpub]
  | .xpriv _ => [names.xpub, names.hash, names.nonce, names.time, names.signature]
  | .accessKey _ => [names.accessKey, names.hash, names.nonce, names.time, names.signature]

/-- What the header fields say of a call that succeeds: who the signer is and, if it signs, the hash of the
body, the nonce, the time, and the signature over all of them. -/
inductive Says (names : HeaderNames) (body : Bytes) (nonce : String) (time : Int64) :
    Signer → List (String × String) → Prop
  | xpub (text : String) : Says names body nonce time (.xpub text) [(names.xpub, text)]
  | xpriv {root : ExtendedKey} {p : Payload}
    (h : Payload.signByXpriv root body nonce time = .ok p) :
    Says names body nonce time (.xpriv root)
      [(names.xpub, root.neuter.print), (names.hash, hashBody body), (names.nonce, nonce),
        (names.time, Numeral.ofInt64 time), (names.signature, p.signature)]
  | accessKey {key : PrivateKey} {p : Payload}
    (h : Payload.signByAccessKey key body nonce time = .ok p) :
    Says names body nonce time (.accessKey key)
      [(names.accessKey, key.publicKey.toHex), (names.hash, hashBody body), (names.nonce, nonce),
        (names.time, Numeral.ofInt64 time), (names.signature, p.signature)]

/-- The names that a signer leaves without values. -/
def cleared (signer : Signer) (names : HeaderNames) : List String :=
  match signer with
  | .xpub _ => [names.accessKey, names.hash, names.nonce, names.time, names.signature]
  | .xpriv _ => [names.accessKey]
  | .accessKey _ => [names.xpub]

/-- The source after a call, which draws a nonce only to sign. -/
def leave (signer : Signer) (e : Entropy) : Entropy :=
  match signer with
  | .xpub _ => e
  | .xpriv _ => (drawNonce e).2
  | .accessKey _ => (drawNonce e).2

def plan (signer : Signer) (names : HeaderNames) (body : Bytes) (nonce : String) (time : Int64) :
    Except Error Plan :=
  match signer with
  | .xpub text => .ok (xpubPlan names text)
  | .xpriv root => (Payload.signByXpriv root body nonce time).map (·.plan names)
  | .accessKey key => (Payload.signByAccessKey key body nonce time).map (·.plan names)

variable {signer : Signer} {names : HeaderNames} {body : Bytes} {nonce : String} {time : Int64}
  {plan : Plan}

theorem cleared_append_written_perm (signer : Signer) (names : HeaderNames) :
    (signer.cleared names ++ signer.written names).Perm names.all := by
  cases signer with
  | xpub text => exact List.perm_append_singleton _ _
  | xpriv root => exact List.Perm.swap _ _ _
  | accessKey key => exact List.Perm.refl _

theorem plan_xpriv_eq_ok_iff {root : ExtendedKey} :
    (xpriv root).plan names body nonce time = .ok plan ↔
      ∃ p, Payload.signByXpriv root body nonce time = .ok p ∧ p.plan names = plan := by
  unfold Signer.plan
  dsimp only
  rw [map_eq_ok_iff]

theorem plan_accessKey_eq_ok_iff {key : PrivateKey} :
    (accessKey key).plan names body nonce time = .ok plan ↔
      ∃ p, Payload.signByAccessKey key body nonce time = .ok p ∧ p.plan names = plan := by
  unfold Signer.plan
  dsimp only
  rw [map_eq_ok_iff]

theorem Says.names_eq {texts : List (String × String)} (h : signer.Says names body nonce time texts) :
    texts.map Prod.fst = signer.written names := by
  cases h <;> rfl

theorem says_of_plan (h : signer.plan names body nonce time = .ok plan) :
    signer.Says names body nonce time plan.texts ∧ plan.stale = signer.cleared names := by
  cases signer with
  | xpub text =>
    cases h
    exact ⟨.xpub text, rfl⟩
  | xpriv root =>
    obtain ⟨p, hp, rfl⟩ := plan_xpriv_eq_ok_iff.mp h
    obtain ⟨key, hsigned⟩ := Payload.signedBy_of_signByXpriv hp
    unfold Payload.plan Payload.fieldTexts Payload.identityNames
    rw [hsigned.identity_eq, hsigned.bodyHash_eq, hsigned.nonce_eq, hsigned.time_eq]
    exact ⟨.xpriv hp, rfl⟩
  | accessKey key =>
    obtain ⟨p, hp, rfl⟩ := plan_accessKey_eq_ok_iff.mp h
    have hsigned := Payload.signedBy_of_signAs hp
    unfold Payload.plan Payload.fieldTexts Payload.identityNames
    rw [hsigned.identity_eq, hsigned.bodyHash_eq, hsigned.nonce_eq, hsigned.time_eq]
    exact ⟨.accessKey hp, rfl⟩

theorem names_perm_of_plan (h : signer.plan names body nonce time = .ok plan) :
    plan.names.Perm names.all := by
  obtain ⟨hwords, hcleared⟩ := says_of_plan h
  unfold Plan.names
  rw [hwords.names_eq, hcleared]
  exact signer.cleared_append_written_perm names

end Signer

/-! ## The run of a call -/

/-- How a call ends that has come to header fields or to an error. -/
def Outgoing.settle (out : Outgoing) (r : Except Error HeaderMap) :
    EStateM.Result Error Outgoing Unit :=
  Auth.settle out (r.map fun headers => { out with headers })

theorem Outgoing.settle_eq_ok_iff {out out' : Outgoing} {r : Except Error HeaderMap} :
    out.settle r = .ok () out' ↔ r = .ok out'.headers ∧ out.entropy = out'.entropy := by
  obtain ⟨headers, entropy⟩ := out'
  unfold settle
  rw [Auth.settle_eq_ok_iff, map_eq_ok_iff]
  simp

theorem Outgoing.settle_eq_error_iff {out out' : Outgoing} {r : Except Error HeaderMap} {e : Error} :
    out.settle r = .error e out' ↔ r = .error e ∧ out = out' := by
  unfold settle
  rw [Auth.settle_eq_error_iff, map_eq_error_iff]

/-- A request is changed as its header fields are. -/
theorem run_onHeaders {steps : HeaderM Unit} {out : Outgoing} {r : Except Error HeaderMap}
    (h : steps.run out.headers = settle out.headers r) : (onHeaders steps).run out = out.settle r := by
  unfold EStateM.run onHeaders
  rw [h]
  cases r <;> rfl

/-- Steps in place are not undone, so what is changed before one fails stays changed. -/
example : (onHeaders (do
      eraseField ⟨['a'], by decide⟩
      throw .headerName)).run ⟨⟨[(⟨['a'], by decide⟩, ⟨[0x31], by decide⟩)]⟩, ⟨fun _ => 0, 0⟩⟩ =
    .error .headerName ⟨.empty, ⟨fun _ => 0, 0⟩⟩ := rfl

theorem Payload.run_onHeaders_writeHeaders (p : Payload) (names : HeaderNames) (out : Outgoing) :
    (onHeaders (p.writeHeaders names)).run out = out.settle ((p.plan names).write out.headers) := by
  rw [writeHeaders_eq]
  exact run_onHeaders (Plan.run_steps _ _)

/-- A nonce is drawn, and only then the payload is signed and written. -/
theorem run_signed (sign : String → Except Error Payload) (names : HeaderNames) (out : Outgoing) :
    (do
      let nonce ← takeNonce
      let payload ← ofExcept (sign nonce)
      onHeaders (payload.writeHeaders names) : AuthM Unit).run out =
      ({ out with entropy := (drawNonce out.entropy).2 } : Outgoing).settle
        ((sign (drawNonce out.entropy).1).map (·.plan names) >>= fun plan =>
          plan.write out.headers) := by
  -- Drawing changes the source alone, so the fields that are written are those at the start.
  show (ofExcept (sign (drawNonce out.entropy).1) >>= fun payload =>
    onHeaders (payload.writeHeaders names)).run { out with entropy := (drawNonce out.entropy).2 } = _
  rw [run_ofExcept_bind]
  cases sign (drawNonce out.entropy).1 with
  | error e => rfl
  | ok payload => exact payload.run_onHeaders_writeHeaders names _

namespace Authenticator

variable {a : Authenticator} {body : Bytes} {time : Int64} {out out' : Outgoing} {e : Error}

/-- Whatever the signer, a call draws what it needs, plans, and takes the steps of the plan. -/
theorem run_sign (a : Authenticator) (body : Bytes) (time : Int64) (out : Outgoing) :
    (a.sign body time).run out =
      ({ out with entropy := a.signer.leave out.entropy } : Outgoing).settle
        (a.signer.plan a.names body (drawNonce out.entropy).1 time >>= fun plan =>
          plan.write out.headers) := by
  obtain ⟨signer, names⟩ := a
  unfold sign
  cases signer with
  | xpub text =>
    dsimp only
    rw [writeXpubOnly_eq]
    exact run_onHeaders (Plan.run_steps _ _)
  | xpriv root => exact run_signed (fun nonce => Payload.signByXpriv root body nonce time) names out
  | accessKey key =>
    exact run_signed (fun nonce => Payload.signByAccessKey key body nonce time) names out

theorem sign_eq_ok_iff : (a.sign body time).run out = .ok () out' ↔
    (∃ plan, a.signer.plan a.names body (drawNonce out.entropy).1 time = .ok plan ∧
      plan.write out.headers = .ok out'.headers) ∧ a.signer.leave out.entropy = out'.entropy := by
  rw [run_sign, Outgoing.settle_eq_ok_iff, bind_eq_ok_iff]

theorem headers_of_sign_eq_error (h : (a.sign body time).run out = .error e out') :
    out'.headers = out.headers := by
  rw [run_sign, Outgoing.settle_eq_error_iff] at h
  rw [← h.2]

/-! ## Names that others use -/

theorem values_of_sign (h : (a.sign body time).run out = .ok () out') {n : HeaderName}
    (hn : n.characters ∉ a.names.all.map lowered) :
    out'.headers.values n = out.headers.values n := by
  obtain ⟨⟨plan, hplan, hwrite⟩, -⟩ := sign_eq_ok_iff.mp h
  have hperm := (Signer.names_perm_of_plan hplan).map lowered
  exact Plan.values_of_notMem hwrite (mt hperm.mem_iff.mp hn)

/-! ## The signer's own names -/

theorem under_of_sign (h : (a.sign body time).run out = .ok () out')
    (hdistinct : (a.names.all.map lowered).Nodup) :
    (∃ texts, a.signer.Says a.names body (drawNonce out.entropy).1 time texts ∧
      ∀ t ∈ texts, ∃ v, HeaderValue.ofString? t.2 = some v ∧ out'.headers.under t.1 = some [v]) ∧
    ∀ s ∈ a.signer.cleared a.names, out'.headers.under s = some [] := by
  obtain ⟨⟨plan, hplan, hwrite⟩, -⟩ := sign_eq_ok_iff.mp h
  obtain ⟨hwords, hcleared⟩ := Signer.says_of_plan hplan
  have hconsistent : plan.Consistent :=
    .of_nodup (((Signer.names_perm_of_plan hplan).map lowered).nodup_iff.mpr hdistinct)
  refine ⟨⟨plan.texts, hwords, fun t ht => Plan.under_of_mem_texts hwrite hconsistent ht⟩, ?_⟩
  intro s hs
  rw [← hcleared] at hs
  exact Plan.under_of_mem_stale hwrite hconsistent hs

end Authenticator

/-! ## Signers that can be made -/

/-- The ways to make a signer: from keys, and from the texts that a wallet is configured with. -/
inductive Signer.Made : Signer → Prop
  | xpub (k : ExtendedKey) : Made (ofXpubKey k)
  | xpriv {k : ExtendedKey} {signer : Signer} (h : ofXprivKey k = .ok signer) : Made signer
  | accessKey (key : PrivateKey) : Made (.accessKey key)
  | configured {c : Credentials} {signer : Signer} (h : c.signer = .ok signer) : Made signer

namespace Signer

theorem exists_of_ofXpub {s : String} {signer : Signer} (h : ofXpub s = .ok signer) :
    ∃ k, signer = ofXpubKey k := by
  unfold ofXpub at h
  split at h
  · cases h
  · split at h
    · cases h
    · next k hk =>
      split at h
      · cases h
      · exact ⟨k, (Except.ok.inj h).symm⟩

theorem exists_of_ofXprivKey {k : ExtendedKey} {signer : Signer} (h : ofXprivKey k = .ok signer) :
    ∃ k, signer = .xpriv k := by
  unfold ofXprivKey at h
  split at h
  · exact ⟨k, (Except.ok.inj h).symm⟩
  · cases h

theorem exists_of_ofXpriv {s : String} {signer : Signer} (h : ofXpriv s = .ok signer) :
    ∃ k, signer = .xpriv k := by
  unfold ofXpriv at h
  split at h
  · cases h
  · split at h
    · cases h
    · exact exists_of_ofXprivKey h

theorem exists_of_ofAccessKey {s : String} {signer : Signer} (h : ofAccessKey s = .ok signer) :
    ∃ key, signer = .accessKey key := by
  unfold ofAccessKey at h
  split at h
  · cases h
  · split at h
    · cases h
    · next key hkey => exact ⟨key, (Except.ok.inj h).symm⟩

/-- A signer that only names itself names an extended key as it is printed. -/
theorem Made.exists_print {text : String} (h : Made (.xpub text)) :
    ∃ k : ExtendedKey, text = k.print := by
  have hcases : (∃ k, Signer.xpub text = ofXpubKey k) ∨ (∃ k, Signer.xpub text = .xpriv k) ∨
      ∃ key, Signer.xpub text = .accessKey key := by
    generalize Signer.xpub text = signer at h
    cases h with
    | xpub k => exact Or.inl ⟨k, rfl⟩
    | xpriv h => exact Or.inr (Or.inl (exists_of_ofXprivKey h))
    | accessKey key => exact Or.inr (Or.inr ⟨key, rfl⟩)
    | @configured c _ h =>
      cases c with
      | xpub s => exact Or.inl (exists_of_ofXpub h)
      | xpriv s => exact Or.inr (Or.inl (exists_of_ofXpriv h))
      | accessKey s => exact Or.inr (Or.inr (exists_of_ofAccessKey h))
  rcases hcases with ⟨k, hk⟩ | ⟨k, hk⟩ | ⟨key, hkey⟩
  · exact ⟨k.neuter, Signer.xpub.inj hk⟩
  · cases hk
  · cases hkey

end Signer

/-! ## What is never refused -/

/-- The errors of keys and signatures. -/
inductive Error.OfKeys : Error → Prop
  | derivation (cause : KeyError) : OfKeys (.derivation cause)
  | keyParse (cause : KeyError) : OfKeys (.keyParse cause)
  | signing (cause : SignedMessage.Error) : OfKeys (.signing cause)

namespace Payload

variable {key : PrivateKey} {body : Bytes} {nonce : String} {time : Int64} {e : Error}

theorem ofKeys_of_signAs {identity : Identity} (h : signAs identity key body nonce time = .error e) :
    e.OfKeys := by
  unfold signAs at h
  dsimp only at h
  rw [map_eq_error_iff, mapError_eq_error_iff] at h
  obtain ⟨cause, -, rfl⟩ := h
  exact .signing cause

theorem ofKeys_of_signByXpriv {root : ExtendedKey} (h : signByXpriv root body nonce time = .error e) :
    e.OfKeys := by
  unfold signByXpriv at h
  split at h
  · cases h
    exact .derivation _
  · split at h
    · cases h
      exact .keyParse _
    · exact ofKeys_of_signAs h

end Payload

namespace Signer

variable {signer : Signer} {names : HeaderNames} {body : Bytes} {time : Int64} {plan : Plan}

theorem ofKeys_of_plan {nonce : String} {e : Error}
    (h : signer.plan names body nonce time = .error e) : e.OfKeys := by
  cases signer with
  | xpub text => cases h
  | xpriv root => exact Payload.ofKeys_of_signByXpriv (map_eq_error_iff.mp h)
  | accessKey key => exact Payload.ofKeys_of_signAs (map_eq_error_iff.mp h)

theorem Made.isPlain_of_plan {source : Entropy} (hmade : signer.Made)
    (h : signer.plan names body (drawNonce source).1 time = .ok plan) :
    ∀ t ∈ plan.texts, ∀ c ∈ t.2.toList, Char.IsPlain c := by
  cases signer with
  | xpub text =>
    cases h
    obtain ⟨k, rfl⟩ := hmade.exists_print
    intro t ht
    rw [List.mem_singleton.mp ht]
    exact Base58.isPlain_of_mem_encode
  | xpriv root =>
    obtain ⟨p, hp, rfl⟩ := plan_xpriv_eq_ok_iff.mp h
    exact fun t ht => (Payload.carried_of_signByXpriv hp t.2 (Payload.mem_texts ht)).2
  | accessKey key =>
    obtain ⟨p, hp, rfl⟩ := plan_accessKey_eq_ok_iff.mp h
    exact fun t ht => (Payload.carried_of_signByAccessKey hp t.2 (Payload.mem_texts ht)).2

end Signer

namespace Authenticator

variable {a : Authenticator} {body : Bytes} {time : Int64} {out out' : Outgoing} {e : Error}

/-- Under valid names nothing but keys and signatures can make a call fail. -/
theorem ofKeys_of_sign (hmade : a.signer.Made)
    (hvalid : ∀ s ∈ a.names.all, (HeaderName.ofString? s).isSome = true)
    (h : (a.sign body time).run out = .error e out') : e.OfKeys := by
  rw [run_sign, Outgoing.settle_eq_error_iff] at h
  cases hplan : a.signer.plan a.names body (drawNonce out.entropy).1 time with
  | error cause =>
    rw [hplan] at h
    cases h.1
    exact Signer.ofKeys_of_plan hplan
  | ok plan =>
    -- A plan that was made is written, so the call did not fail.
    have hperm := Signer.names_perm_of_plan hplan
    obtain ⟨written, hwritten⟩ := Plan.exists_write
      (fun s hs => hvalid s (hperm.mem_iff.mp hs)) (hmade.isPlain_of_plan hplan) out.headers
    rw [hplan] at h
    cases hwritten.symm.trans h.1

/-- Below depth 247 there is no room for the way that a nonce leads down. -/
theorem exists_error_of_sign {root : ExtendedKey} {names : HeaderNames} (hdepth : 247 < root.depth.toNat) :
    ∃ e out', (sign ⟨.xpriv root, names⟩ body time).run out = .error e out' := by
  cases hrun : (sign ⟨.xpriv root, names⟩ body time).run out with
  | error e out' => exact ⟨e, out', rfl⟩
  | ok _ out' =>
    obtain ⟨⟨plan, hplan, -⟩, -⟩ := sign_eq_ok_iff.mp hrun
    obtain ⟨p, hp, -⟩ := Signer.plan_xpriv_eq_ok_iff.mp hplan
    exact absurd (Payload.depth_le_of_signByXpriv hp) hdepth.not_ge

/-! ## All or nothing -/

/-- A call that fails leaves the header fields as they were. One that succeeds leaves the values of all names
but its own; if its own names differ, the texts that its signer has to say are then the only values of
their names, and each other one has none. Valid names and the texts of signers are never refused. -/
theorem sign_all_or_nothing (a : Authenticator) (body : Bytes) (time : Int64) (out : Outgoing) :
    (∀ e out', (a.sign body time).run out = .error e out' → out'.headers = out.headers) ∧
    (∀ out', (a.sign body time).run out = .ok () out' →
      (∀ n : HeaderName, n.characters ∉ a.names.all.map lowered →
        out'.headers.values n = out.headers.values n) ∧
      ((a.names.all.map lowered).Nodup →
        (∃ texts, a.signer.Says a.names body (drawNonce out.entropy).1 time texts ∧
          ∀ t ∈ texts, ∃ v, HeaderValue.ofString? t.2 = some v ∧ out'.headers.under t.1 = some [v]) ∧
        ∀ s ∈ a.signer.cleared a.names, out'.headers.under s = some [])) ∧
    (a.signer.Made → (∀ s ∈ a.names.all, (HeaderName.ofString? s).isSome = true) →
      ∀ e out', (a.sign body time).run out = .error e out' → e ≠ .headerName ∧ e ≠ .headerValue) := by
  refine ⟨fun e out' h => headers_of_sign_eq_error h,
    fun out' h => ⟨fun n hn => values_of_sign h hn, under_of_sign h⟩, ?_⟩
  intro hmade hvalid e out' h
  have hkeys := ofKeys_of_sign hmade hvalid h
  constructor
  · rintro rfl
    cases hkeys
  · rintro rfl
    cases hkeys

/-- On a request with a field that has two values and one from an access key: the public half of the first
root fails for the last of its names, which is empty, and changes nothing; the root itself signs
beside the field of two values and clears the other; and a root at the greatest depth fails for want
of a child. -/
theorem first_calls_all_or_nothing :
    let other : HeaderName := ⟨['a', 'g', 'e'], by decide⟩
    let stale : HeaderName := ⟨"x-auth-key".toList, by decide +kernel⟩
    let v : HeaderValue := ⟨[0x31], by decide⟩
    let w : HeaderValue := ⟨[0x32], by decide⟩
    let out : Outgoing := ⟨⟨[(other, v), (stale, v), (other, w)]⟩, Payload.zeros⟩
    (∃ out', (sign ⟨.ofXpubKey firstRoot, { signature := "" }⟩ [] 0).run out =
      .error .headerName out' ∧ out'.headers = out.headers) ∧
    (∃ out' p, (sign ⟨.xpriv firstRoot, {}⟩ [] 0).run out = .ok () out' ∧
      Payload.signByXpriv firstRoot [] (drawNonce Payload.zeros).1 0 = .ok p ∧
      out'.headers.values other = [v, w] ∧ out'.headers.under "x-auth-key" = some [] ∧
      (∃ u, HeaderValue.ofString? "0" = some u ∧ out'.headers.under "x-auth-time" = some [u]) ∧
      ∃ u, HeaderValue.ofString? p.signature = some u ∧
        out'.headers.under "x-auth-signature" = some [u]) ∧
    ∃ e out', (sign ⟨.xpriv { firstRoot with depth := 255 }, {}⟩ [] 0).run out =
      .error e out' ∧ e ≠ .headerName ∧ e ≠ .headerValue := by
  intro other stale v w out
  refine ⟨?_, ?_, ?_⟩
  · have hrefused : (xpubPlan { signature := "" } firstRoot.neuter.print).write out.headers =
        .error .headerName := by decide +kernel
    have hrun : (sign ⟨.ofXpubKey firstRoot, { signature := "" }⟩ [] 0).run out =
        .error .headerName out := by
      have hplan : (Signer.ofXpubKey firstRoot).plan { signature := "" } []
          (drawNonce out.entropy).1 0 = .ok (xpubPlan { signature := "" } firstRoot.neuter.print) := rfl
      rw [run_sign, Outgoing.settle_eq_error_iff]
      exact ⟨bind_eq_error_iff.mpr (Or.inr ⟨_, hplan, hrefused⟩), rfl⟩
    exact ⟨out, hrun, (sign_all_or_nothing _ _ _ _).1 _ _ hrun⟩
  · obtain ⟨p, hp⟩ := Payload.exists_signByXpriv
    obtain ⟨written, hwritten, -, -⟩ := Payload.exists_write HeaderNames.usable_default
      (Payload.carried_of_signByXpriv hp) out.headers
    rw [Payload.write_eq] at hwritten
    have hplan : (Signer.xpriv firstRoot).plan {} [] (drawNonce Payload.zeros).1 0 =
        .ok (p.plan {}) := Signer.plan_xpriv_eq_ok_iff.mpr ⟨p, hp, rfl⟩
    have hrun : (sign ⟨.xpriv firstRoot, {}⟩ [] 0).run out =
        .ok () ⟨written, (drawNonce Payload.zeros).2⟩ :=
      sign_eq_ok_iff.mpr ⟨⟨_, hplan, hwritten⟩, rfl⟩
    obtain ⟨hother, hown⟩ := (sign_all_or_nothing _ _ _ _).2.1 _ hrun
    obtain ⟨⟨texts, hwords, hone⟩, hnone⟩ := hown HeaderNames.usable_default.distinct
    have hzero : Numeral.ofInt64 0 = "0" := by decide +kernel
    cases hwords with
    | @xpriv _ p hp =>
      rw [hzero] at hone
      exact ⟨_, p, hrun, hp, (hother other (by decide +kernel)).trans rfl,
        hnone _ List.mem_cons_self, hone ("x-auth-time", "0") (by simp),
        hone ("x-auth-signature", p.signature) (by simp)⟩
  · have hmade : Signer.Made (.xpriv { firstRoot with depth := 255 }) :=
      .xpriv (k := { firstRoot with depth := 255 }) rfl
    have hdeep : ∃ e out', (sign ⟨.xpriv { firstRoot with depth := 255 }, {}⟩ [] 0).run out =
        .error e out' := exists_error_of_sign (by decide)
    obtain ⟨e, out', hrun⟩ := hdeep
    exact ⟨e, out', hrun, (sign_all_or_nothing _ _ _ _).2.2 hmade HeaderNames.usable_default.valid
      e out' hrun⟩

end Authenticator

end WalletAuth.Auth
