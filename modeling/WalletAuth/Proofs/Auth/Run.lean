import Mathlib
import WalletAuth.Proofs.Auth.Atomic

/-! Calls on one request, one after the other, by any signers under the same names and with one source of
random octets. Whether a call succeeds does not depend on the header fields that it meets, and one that
succeeds settles all six names, so the fields are in the end as the last call that succeeded alone
would have left them. A signer draws its octets whether its call succeeds or not, and no octet is
drawn twice. -/
namespace WalletAuth
set_option autoImplicit false

/-! ## Places of the source -/

namespace Entropy

theorem skip_skip (e : Entropy) (m n : ℕ) : (e.skip m).skip n = e.skip (m + n) := by
  unfold skip
  rw [Nat.add_assoc]

/-- The next octets are those at the places behind the ones that have been drawn. -/
theorem toList_next (e : Entropy) (n : ℕ) :
    (e.next n).toList = (List.range' e.drawn n).map e.octet := by
  rw [List.range'_eq_map_range, List.map_map]
  rfl

end Entropy

namespace Auth
open Http
open ExtendedKey (firstRoot)

/-- How many octets a call of a signer draws. -/
def Signer.draws : Signer → ℕ
  | .xpub _ => 0
  | .xpriv _ => 32
  | .accessKey _ => 32

theorem Signer.leave_eq_skip (signer : Signer) (e : Entropy) :
    signer.leave e = e.skip signer.draws := by
  cases signer <;> rfl

/-! ## Turns -/

structure Call where
  signer : Signer
  body : Bytes
  time : Int64

/-- A call and the state of the request that it meets. -/
structure Turn where
  call : Call
  start : Outgoing

namespace Turn

variable {t : Turn} {names : HeaderNames} {done : Outgoing}

def run (t : Turn) (names : HeaderNames) : EStateM.Result Error Outgoing Unit :=
  (Authenticator.sign ⟨t.call.signer, names⟩ t.call.body t.call.time).run t.start

def succeeds (t : Turn) (names : HeaderNames) : Bool :=
  match t.run names with
  | .ok _ _ => true
  | .error _ _ => false

/-- The state that a call leaves, whether it succeeds or not. -/
def finish (t : Turn) (names : HeaderNames) : Outgoing :=
  match t.run names with
  | .ok _ done => done
  | .error _ done => done

/-- The places of the source that a call draws from. -/
def places (t : Turn) : List ℕ := List.range' t.start.entropy.drawn t.call.signer.draws

/-- The same call with the same octets on other header fields. -/
def onto (t : Turn) (m : HeaderMap) : Turn := ⟨t.call, ⟨m, t.start.entropy⟩⟩

theorem onto_onto (t : Turn) (m m' : HeaderMap) : (t.onto m).onto m' = t.onto m' := rfl

/-- What a call leaves behind that signs: a payload with this nonce, which is the only value of its name
if the names differ. -/
def Writes (t : Turn) (names : HeaderNames) (nonce : String) : Prop :=
  (∃ p : Payload, p.nonce = nonce ∧ p.write names t.start.headers = .ok (t.finish names).headers) ∧
  ((names.all.map lowered).Nodup →
    ∃ v, (t.finish names).headers.under names.nonce = some [v] ∧ v.text? = some nonce)

theorem succeeds_iff : t.succeeds names = true ↔ t.run names = .ok () (t.finish names) := by
  unfold succeeds finish
  cases t.run names <;> simp

theorem headers_of_fails (h : t.succeeds names = false) :
    (t.finish names).headers = t.start.headers := by
  unfold succeeds at h
  unfold finish
  cases hrun : t.run names with
  | ok _ done =>
    rw [hrun] at h
    cases h
  | error e done => exact Authenticator.headers_of_sign_eq_error hrun

/-- A call draws its octets whether it succeeds or not. -/
theorem entropy_finish (t : Turn) (names : HeaderNames) :
    (t.finish names).entropy = t.start.entropy.skip t.call.signer.draws := by
  have hrun : t.run names = _ := Authenticator.run_sign _ _ _ _
  unfold finish
  rw [hrun, ← Signer.leave_eq_skip]
  generalize (t.call.signer.plan names t.call.body _ t.call.time >>= fun plan =>
    plan.write t.start.headers) = r
  cases r <;> rfl

theorem run_eq_ok {plan : Plan} {written : HeaderMap}
    (hplan : t.call.signer.plan names t.call.body (drawNonce t.start.entropy).1 t.call.time = .ok plan)
    (hwrite : plan.write t.start.headers = .ok written) :
    t.run names = .ok () ⟨written, t.call.signer.leave t.start.entropy⟩ :=
  Authenticator.sign_eq_ok_iff.mpr ⟨⟨plan, hplan, hwrite⟩, rfl⟩

/-- A call that succeeds does so on any header fields, and where the fields agree in the names that are not
its own, it leaves the same. -/
theorem succeeds_onto (h : t.succeeds names = true) (m : HeaderMap) :
    (t.onto m).succeeds names = true ∧ ∀ n : HeaderName,
      (n.characters ∉ names.all.map lowered → m.values n = t.start.headers.values n) →
        ((t.onto m).finish names).headers.values n = (t.finish names).headers.values n := by
  obtain ⟨⟨plan, hplan, hwrite⟩, -⟩ := Authenticator.sign_eq_ok_iff.mp (succeeds_iff.mp h)
  obtain ⟨written, hwritten, hvalues⟩ := Plan.exists_write_of_write hwrite m
  have hrun := run_eq_ok (t := t.onto m) hplan hwritten
  have hfinish : (t.onto m).finish names = ⟨written, t.call.signer.leave t.start.entropy⟩ := by
    unfold finish
    rw [hrun]
    rfl
  have hperm := (Signer.names_perm_of_plan hplan).map lowered
  refine ⟨succeeds_iff.mpr (hfinish ▸ hrun), fun n hn => ?_⟩
  rw [hfinish]
  exact hvalues n fun hnot => hn (mt hperm.mem_iff.mpr hnot)

theorem values_finish (t : Turn) {n : HeaderName} (hn : n.characters ∉ names.all.map lowered) :
    (t.finish names).headers.values n = t.start.headers.values n := by
  cases h : t.succeeds names with
  | false => rw [headers_of_fails h]
  | true => exact Authenticator.values_of_sign (succeeds_iff.mp h) hn

/-- A payload that a plan was made of is written with its nonce. -/
theorem writes_of_payload {p : Payload} (h : (p.plan names).write t.start.headers =
      .ok (t.finish names).headers) (hnonce : p.nonce = (drawNonce t.start.entropy).1) :
    t.Writes names (drawNonce t.start.entropy).1 := by
  refine ⟨⟨p, hnonce, (p.write_eq names _).trans h⟩, fun hdistinct => ?_⟩
  have hmem : (names.nonce, p.nonce) ∈ (p.plan names).texts := by
    simp [Payload.plan, Payload.fieldTexts]
  obtain ⟨v, hv, hunder⟩ := Plan.under_of_mem_texts h (p.consistent_of_distinct hdistinct) hmem
  obtain ⟨v', hv', htext⟩ := HeaderValue.exists_of_plain (Payload.drawNonce_plain t.start.entropy).2
  rw [hnonce, hv'] at hv
  exact ⟨v, hunder, Option.some.inj hv ▸ htext⟩

/-- A call that signs writes the octets that it drew as its nonce. -/
theorem writes_drawn (h : t.succeeds names = true) (hdraws : t.call.signer.draws = 32) :
    t.Writes names (Hex.encode (t.places.map t.start.entropy.octet)) := by
  obtain ⟨⟨plan, hplan, hwrite⟩, -⟩ := Authenticator.sign_eq_ok_iff.mp (succeeds_iff.mp h)
  have hnonce : (drawNonce t.start.entropy).1 = Hex.encode (t.places.map t.start.entropy.octet) := by
    unfold places
    rw [hdraws, ← Entropy.toList_next]
    rfl
  rw [← hnonce]
  obtain ⟨⟨signer, body, time⟩, start⟩ := t
  cases signer with
  | xpub text => cases hdraws
  | xpriv root =>
    obtain ⟨p, hp, rfl⟩ := Signer.plan_xpriv_eq_ok_iff.mp hplan
    obtain ⟨key, hsigned⟩ := Payload.signedBy_of_signByXpriv hp
    exact writes_of_payload hwrite hsigned.nonce_eq
  | accessKey key =>
    obtain ⟨p, hp, rfl⟩ := Signer.plan_accessKey_eq_ok_iff.mp hplan
    exact writes_of_payload hwrite (Payload.signedBy_of_signAs hp).nonce_eq

end Turn

/-! ## Runs -/

/-- The calls of a run, each with the state that the ones before it leave. -/
def turns (names : HeaderNames) : Outgoing → List Call → List Turn
  | _, [] => []
  | out, call :: rest => ⟨call, out⟩ :: turns names (Turn.finish ⟨call, out⟩ names) rest

/-- The state that a run leaves. -/
def outcome (names : HeaderNames) : Outgoing → List Call → Outgoing
  | out, [] => out
  | out, call :: rest => outcome names (Turn.finish ⟨call, out⟩ names) rest

/-- The last turn of a run that succeeds. -/
def owner? (names : HeaderNames) (out : Outgoing) (calls : List Call) : Option Turn :=
  ((turns names out calls).filter (·.succeeds names)).getLast?

section

variable {names : HeaderNames} {out : Outgoing} {calls : List Call}

theorem owner?_cons (call : Call) (rest : List Call) :
    owner? names out (call :: rest) =
      (owner? names (Turn.finish ⟨call, out⟩ names) rest).or
        (if Turn.succeeds ⟨call, out⟩ names then some ⟨call, out⟩ else none) := by
  unfold owner?
  rw [turns, List.filter_cons]
  split
  · rw [List.getLast?_cons]
    cases ((turns names (Turn.finish ⟨call, out⟩ names) rest).filter (·.succeeds names)).getLast? <;>
      rfl
  · rw [Option.or_none]

/-- Up to a turn of a run the source has moved on and is the same source. -/
theorem entropy_of_mem_turns {t : Turn} (ht : t ∈ turns names out calls) :
    ∃ drawn, t.start.entropy = out.entropy.skip drawn := by
  induction calls generalizing out with
  | nil => cases ht
  | cons call rest ih =>
    rcases List.mem_cons.mp ht with rfl | hrest
    · exact ⟨0, rfl⟩
    · obtain ⟨drawn, h⟩ := ih hrest
      rw [Turn.entropy_finish, Entropy.skip_skip] at h
      exact ⟨_, h⟩

/-- No place of the source is drawn from twice. -/
theorem pairwise_turns : (turns names out calls).Pairwise fun t u => t.places.Disjoint u.places := by
  induction calls generalizing out with
  | nil => exact List.Pairwise.nil
  | cons call rest ih =>
    refine List.pairwise_cons.mpr ⟨fun u hu => ?_, ih⟩
    -- A later turn starts behind the places of this one.
    obtain ⟨drawn, hstart⟩ := entropy_of_mem_turns hu
    rw [Turn.entropy_finish, Entropy.skip_skip] at hstart
    intro place hfirst hlater
    unfold Turn.places at hfirst hlater
    rw [hstart] at hlater
    rw [List.mem_range'_1] at hfirst hlater
    have hbehind := hlater.1
    unfold Entropy.skip at hbehind
    dsimp only at hbehind hfirst
    omega

theorem headers_of_owner?_eq_none (h : owner? names out calls = none) :
    (outcome names out calls).headers = out.headers := by
  induction calls generalizing out with
  | nil => rfl
  | cons call rest ih =>
    rw [owner?_cons, Option.or_eq_none_iff] at h
    have hfails : Turn.succeeds ⟨call, out⟩ names = false := by
      cases hcall : Turn.succeeds ⟨call, out⟩ names with
      | false => rfl
      | true =>
        rw [hcall] at h
        cases h.2
    exact (ih h.1).trans (Turn.headers_of_fails hfails)

/-- The last call that succeeds leaves what it would leave alone. -/
theorem values_of_owner? {t : Turn} (h : owner? names out calls = some t) :
    (t.onto out.headers).succeeds names = true ∧ ∀ n : HeaderName,
      (outcome names out calls).headers.values n =
        ((t.onto out.headers).finish names).headers.values n := by
  induction calls generalizing out with
  | nil => cases h
  | cons call rest ih =>
    rw [owner?_cons] at h
    cases hrest : owner? names (Turn.finish ⟨call, out⟩ names) rest with
    | some later =>
      rw [hrest, Option.some_or] at h
      obtain rfl := Option.some.inj h
      obtain ⟨hsucceeds, hvalues⟩ := ih hrest
      -- The turn is moved from the fields that the first call leaves to those before it.
      obtain ⟨hsucceeds', hvalues'⟩ := Turn.succeeds_onto hsucceeds out.headers
      rw [Turn.onto_onto] at hsucceeds' hvalues'
      refine ⟨hsucceeds', fun n => (hvalues n).trans (hvalues' n fun hn => ?_).symm⟩
      exact (Turn.values_finish ⟨call, out⟩ hn).symm
    | none =>
      rw [hrest, Option.none_or, Option.ite_none_right_eq_some] at h
      obtain ⟨hsucceeds, hturn⟩ := h
      obtain rfl := Option.some.inj hturn
      exact ⟨hsucceeds, fun n => congrArg (·.values n) (headers_of_owner?_eq_none hrest)⟩

end

/-- A run leaves what the last call that succeeded leaves alone, with the octets that it drew, and nothing
changes if no call succeeds. A call of a signer with a private key draws 32 octets, also if it fails,
and its nonce spells them; other calls draw none. No two calls draw the same octet. -/
theorem last_success_owns_request (names : HeaderNames) (calls : List Call) (out : Outgoing) :
    (owner? names out calls = none → (outcome names out calls).headers = out.headers) ∧
    (∀ t, owner? names out calls = some t → (t.onto out.headers).succeeds names = true ∧
      ∀ n : HeaderName, (outcome names out calls).headers.values n =
        ((t.onto out.headers).finish names).headers.values n) ∧
    (∀ t ∈ turns names out calls,
      (t.finish names).entropy = t.start.entropy.skip t.call.signer.draws ∧
      (t.succeeds names = true → t.call.signer.draws = 32 →
        t.Writes names (Hex.encode (t.places.map out.entropy.octet)))) ∧
    (turns names out calls).Pairwise fun t u => t.places.Disjoint u.places := by
  refine ⟨headers_of_owner?_eq_none, fun t h => values_of_owner? h, fun t ht => ?_, pairwise_turns⟩
  obtain ⟨drawn, hstart⟩ := entropy_of_mem_turns ht
  have hsame : t.start.entropy.octet = out.entropy.octet := by
    rw [hstart]
    rfl
  refine ⟨t.entropy_finish names, fun hsucceeds hdraws => ?_⟩
  rw [← hsame]
  exact Turn.writes_drawn hsucceeds hdraws

/-- The first root signs between two calls that fail at the greatest depth. The first failure takes the
first 32 octets of the source, so the nonce is made of the next ones. -/
theorem first_root_owns_between_failures :
    let deep : Call := ⟨.xpriv { firstRoot with depth := 255 }, [], 0⟩
    let first : Call := ⟨.xpriv firstRoot, [], 0⟩
    let out : Outgoing := ⟨.empty, Payload.zeros⟩
    (outcome {} out [deep]).headers = out.headers ∧
    ∃ t, owner? {} out [deep, first, deep] = some t ∧ t.places = List.range' 32 32 ∧
      (t.onto out.headers).succeeds {} = true ∧
      (∀ n : HeaderName, (outcome {} out [deep, first, deep]).headers.values n =
        ((t.onto out.headers).finish {}).headers.values n) ∧
      t.Writes {} (Hex.encode (List.replicate 32 0)) := by
  intro deep first out
  have hdeep : ∀ start, Turn.succeeds ⟨deep, start⟩ {} = false := by
    intro start
    have hdepth : 247 < ({ firstRoot with depth := 255 } : ExtendedKey).depth.toNat := by
      decide
    have herror : ∃ e done, (Authenticator.sign ⟨.xpriv { firstRoot with depth := 255 }, {}⟩
        [] 0).run start = .error e done :=
      Authenticator.exists_error_of_sign hdepth
    obtain ⟨e, done, hrun⟩ := herror
    unfold Turn.succeeds Turn.run
    rw [hrun]
  have hfirst : ∀ start, start.entropy = Payload.zeros.skip 32 →
      Turn.succeeds ⟨first, start⟩ {} = true := by
    intro start hstart
    obtain ⟨p, hp⟩ := Payload.exists_signByXpriv
    obtain ⟨written, hwritten, -, -⟩ := Payload.exists_write HeaderNames.usable_default
      (Payload.carried_of_signByXpriv hp) start.headers
    have hnonce : (drawNonce start.entropy).1 = (drawNonce Payload.zeros).1 := by
      rw [hstart]
      rfl
    have hplan : first.signer.plan {} [] (drawNonce start.entropy).1 0 = .ok (p.plan {}) := by
      rw [hnonce]
      exact Signer.plan_xpriv_eq_ok_iff.mpr ⟨p, hp, rfl⟩
    rw [Payload.write_eq] at hwritten
    unfold Turn.succeeds
    rw [Turn.run_eq_ok (t := ⟨first, start⟩) hplan hwritten]
  have hafter : (Turn.finish ⟨deep, out⟩ {}).entropy = Payload.zeros.skip 32 :=
    Turn.entropy_finish ⟨deep, out⟩ {}
  have hnone : owner? {} out [deep] = none := by
    simp [owner?, turns, hdeep]
  have howner : owner? {} out [deep, first, deep] = some ⟨first, Turn.finish ⟨deep, out⟩ {}⟩ := by
    simp only [owner?_cons, hdeep, hfirst _ hafter]
    rfl
  have hplaces : Turn.places ⟨first, Turn.finish ⟨deep, out⟩ {}⟩ = List.range' 32 32 := by
    unfold Turn.places
    rw [hafter]
    rfl
  obtain ⟨-, howned, hturns, -⟩ := last_success_owns_request {} [deep, first, deep] out
  obtain ⟨halone, hvalues⟩ := howned _ howner
  have hwrites := (hturns _ (List.mem_cons_of_mem _ List.mem_cons_self)).2 (hfirst _ hafter) rfl
  rw [hplaces] at hwrites
  exact ⟨(last_success_owns_request {} [deep] out).1 hnone, _, howner, hplaces, halone, hvalues,
    hwrites⟩

end Auth

end WalletAuth
