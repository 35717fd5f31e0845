import Mathlib
import WalletAuth.Proofs.Auth.Signed
import WalletAuth.Proofs.Text.Canonical

/-! Payloads as header fields hold them. Whatever can be read can be written again, into any header fields
and under any usable names. The identity, the hash and the nonce are signed as they stand there; the
time is signed in its canonical spelling, and every other spelling of it is read as well. -/
namespace WalletAuth.Http
set_option autoImplicit false

namespace HeaderMap

/-- The texts of the first values of some names, one behind the other, if all of them can be read. -/
def joined? (m : HeaderMap) (names : List String) : Option String :=
  (names.mapM fun name => (m.first? name).bind HeaderValue.text?).map String.join

theorem read_first?_of_text? {m : HeaderMap} {name s : String} (h : m.text? name = some s) :
    (m.first? name).bind HeaderValue.text? = some s := by
  obtain ⟨v, hfirst, hv⟩ := (text?_eq_some_iff.mp h).1
  rw [hfirst]
  exact hv

theorem joined?_of_texts {m : HeaderMap} {names texts : List String}
    (h : List.Forall₂ (fun name s => m.text? name = some s) names texts) :
    m.joined? names = some (String.join texts) := by
  have hread : (names.mapM fun name => (m.first? name).bind HeaderValue.text?) = some texts := by
    induction h with
    | nil => rfl
    | cons hname _ ih =>
      rw [List.mapM_cons, read_first?_of_text? hname, ih]
      rfl
  unfold joined?
  rw [hread]
  rfl

end HeaderMap

end WalletAuth.Http

namespace WalletAuth.Auth
open Http
set_option autoImplicit false

namespace Payload

variable {p : Payload} {names : HeaderNames} {m : HeaderMap}

/-! ## Passing on -/

theorem carried_of_read (h : read m names = .ok p) : p.Carried := by
  obtain ⟨hidentity, -, hhash, hnonce, hsignature⟩ := read_eq_ok_iff.mp h
  unfold Carried texts
  simp only [List.forall_mem_cons]
  exact ⟨HeaderMap.isPlain_of_text? (readIdentity_eq_ok_iff.mp hidentity).1,
    HeaderMap.isPlain_of_text? hhash, HeaderMap.isPlain_of_text? hnonce,
    ⟨Numeral.ofInt64_ne_empty p.time, Numeral.isPlain_of_mem_ofInt64⟩,
    HeaderMap.isPlain_of_text? hsignature, by simp⟩

/-- A payload that was read is written into any header fields, under the same names or others, and it is
read there again without a change. -/
theorem read_payload_passed_on (h : read m names = .ok p) {names' : HeaderNames}
    (hnames : names'.Usable) (m' : HeaderMap) :
    ∃ written, p.write names' m' = .ok written ∧ read written names' = .ok p :=
  exists_write_read hnames (carried_of_read h) m'

/-- An identity that is a tab and the first of two values, and a time with a sign and zeros to spare. -/
theorem spelled_time_passed_on :
    let names : HeaderNames := ⟨"a", "B", "c", "d", "e", "f"⟩
    let m : HeaderMap := ⟨[(⟨['a'], by decide⟩, ⟨[0x09], by decide⟩),
      (⟨['a'], by decide⟩, ⟨[0x78], by decide⟩), (⟨['c'], by decide⟩, ⟨[0x68], by decide⟩),
      (⟨['d'], by decide⟩, ⟨[0x6e], by decide⟩),
      (⟨['e'], by decide⟩, ⟨[0x2b, 0x30, 0x30, 0x37], by decide⟩),
      (⟨['f'], by decide⟩, ⟨[0x73], by decide⟩)]⟩
    let p : Payload := ⟨.xpub "\t", "h", "n", 7, "s"⟩
    read m names = .ok p ∧ names.Usable ∧
      ∀ m', ∃ written, p.write names m' = .ok written ∧ read written names = .ok p := by
  intro names m p
  have hread : read m names = .ok p := by decide +kernel
  have hnames : names.Usable := ⟨by decide +kernel, by decide +kernel⟩
  exact ⟨hread, hnames, fun m' => read_payload_passed_on hread hnames m'⟩

/-! ## The signed text -/

/-- The names of the parts that are signed, in their order. -/
def signedNames (p : Payload) (names : HeaderNames) : List String :=
  [(p.identityNames names).1, names.hash, names.nonce, names.time]

theorem joined?_signedNames (h : read m names = .ok p) {time : String}
    (htime : m.text? names.time = some time) : m.joined? (p.signedNames names) =
      some (p.identity.text ++ p.bodyHash ++ p.nonce ++ time) := by
  obtain ⟨hidentity, -, hhash, hnonce, -⟩ := read_eq_ok_iff.mp h
  have htexts : List.Forall₂ (fun name s => m.text? name = some s) (p.signedNames names)
      [p.identity.text, p.bodyHash, p.nonce, time] :=
    .cons (readIdentity_eq_ok_iff.mp hidentity).1 (.cons hhash (.cons hnonce (.cons htime .nil)))
  have hjoin : String.join [p.identity.text, p.bodyHash, p.nonce, time] =
      p.identity.text ++ p.bodyHash ++ p.nonce ++ time := by
    simp [String.join]
  rw [HeaderMap.joined?_of_texts htexts, hjoin]

/-- The texts in the fields, one behind the other, are the signed text up to the spelling of the time, so
they are the signed text exactly if the time is spelled as it is written. -/
theorem signed_as_on_wire_iff (h : read m names = .ok p) :
    ∃ front time : String, m.joined? (p.signedNames names) = some (front ++ time) ∧
      m.joined? [names.time] = some time ∧ Numeral.int64? time = some p.time ∧
      p.signingMessage = front ++ Numeral.ofInt64 p.time ∧
      (m.joined? (p.signedNames names) = some p.signingMessage ↔
        Numeral.Canonical (Utf8.encode time)) := by
  obtain ⟨time, htext, hvalue⟩ := readTime_eq_ok_iff.mp (read_eq_ok_iff.mp h).2.1
  have hjoined := joined?_signedNames h htext
  have hlast : m.joined? [names.time] = some time := by
    rw [HeaderMap.joined?_of_texts (.cons htext .nil)]
    simp [String.join]
  refine ⟨p.identity.text ++ p.bodyHash ++ p.nonce, time, hjoined, hlast, hvalue, rfl, ?_⟩
  rw [hjoined, Option.some.injEq, ← Numeral.ofInt64_eq_iff hvalue]
  unfold signingMessage
  rw [String.append_right_inj, eq_comm]

/-- The time `-7` is signed as it stands in its field, and the time `-07`, which is read as the same, is
not. -/
theorem minus_seven_as_on_wire :
    let names : HeaderNames := ⟨"a", "B", "c", "d", "e", "f"⟩
    let fields (time : HeaderValue) : HeaderMap := ⟨[(⟨['a'], by decide⟩, ⟨[0x78], by decide⟩),
      (⟨['c'], by decide⟩, ⟨[0x68], by decide⟩), (⟨['d'], by decide⟩, ⟨[0x6e], by decide⟩),
      (⟨['e'], by decide⟩, time), (⟨['f'], by decide⟩, ⟨[0x73], by decide⟩)]⟩
    let written := fields ⟨[0x2d, 0x37], by decide⟩
    let spelled := fields ⟨[0x2d, 0x30, 0x37], by decide⟩
    let p : Payload := ⟨.xpub "x", "h", "n", -7, "s"⟩
    read written names = .ok p ∧ written.joined? (p.signedNames names) = some p.signingMessage ∧
      read spelled names = .ok p ∧ spelled.joined? (p.signedNames names) ≠ some p.signingMessage := by
  intro names fields written spelled p
  have hread : read written names = .ok p := by decide +kernel
  have hread' : read spelled names = .ok p := by decide +kernel
  obtain ⟨-, time, -, htime, -, -, hiff⟩ := signed_as_on_wire_iff hread
  obtain ⟨-, time', -, htime', -, -, hiff'⟩ := signed_as_on_wire_iff hread'
  have hseven : written.joined? [names.time] = some "-7" := by decide +kernel
  have hseven' : spelled.joined? [names.time] = some "-07" := by decide +kernel
  obtain rfl := Option.some.inj (hseven.symm.trans htime)
  obtain rfl := Option.some.inj (hseven'.symm.trans htime')
  have hoctets : Utf8.encode "-07" = [0x2d, 0x30, 0x37] := by decide +kernel
  refine ⟨hread, hiff.mpr (.negative (b := 0x37) (by decide) []), hread', mt hiff'.mp ?_⟩
  rw [hoctets]
  intro hcanonical
  cases hcanonical with
  | positive hb => exact absurd hb (by decide)
  | negative hb => exact absurd hb (by decide)

/-! ## Another spelling -/

theorem ofString?_ne_time (hnames : names.Usable) {n : HeaderName}
    (hn : HeaderName.ofString? names.time = some n) :
    ∀ s ∈ [names.xpub, names.accessKey, names.hash, names.nonce, names.signature],
      HeaderName.ofString? s ≠ some n := by
  intro s hs hsame
  have hperm : ([names.xpub, names.accessKey, names.hash, names.nonce] ++
      names.time :: [names.signature]).Perm
        (names.time :: [names.xpub, names.accessKey, names.hash, names.nonce, names.signature]) :=
    List.perm_middle
  have hdistinct := (hperm.map lowered).nodup_iff.mp hnames.distinct
  rw [List.map_cons, List.nodup_cons] at hdistinct
  have hlowered : lowered s = lowered names.time :=
    (HeaderName.characters_of_ofString? hsame).symm.trans (HeaderName.characters_of_ofString? hn)
  exact hdistinct.1 (hlowered ▸ List.mem_map_of_mem hs)

/-- The time may be spelled again on the way. -/
theorem read_insert_time (hnames : names.Usable) (h : read m names = .ok p) {n : HeaderName}
    {v : HeaderValue} {text : String} (hn : HeaderName.ofString? names.time = some n)
    (hv : v.text? = some text) (hvalue : Numeral.int64? text = some p.time) :
    read (m.insert n v) names = .ok p := by
  have hkept : ∀ s ∈ [names.xpub, names.accessKey, names.hash, names.nonce, names.signature],
      (m.insert n v).text? s = m.text? s :=
    fun s hs => HeaderMap.text?_insert_of_ne (ofString?_ne_time hnames hn s hs)
  simp only [List.forall_mem_cons] at hkept
  obtain ⟨hxpub, hkey, hhash, hnonce, hsignature, -⟩ := hkept
  have hidentity : readIdentity (m.insert n v) names = readIdentity m names := by
    unfold readIdentity
    rw [hxpub, hkey]
  have htime : (m.insert n v).text? names.time = some text := by
    have hne : text ≠ "" := by
      rintro rfl
      have hnone : Numeral.int64? "" = none := by decide
      rw [hnone] at hvalue
      cases hvalue
    refine HeaderMap.text?_of_under ?_ hv hne
    rw [HeaderMap.under_insert, if_pos hn]
  obtain ⟨hown, -, hparts⟩ := read_eq_ok_iff.mp h
  rw [read_eq_ok_iff, hidentity, hhash, hnonce, hsignature]
  exact ⟨hown, readTime_eq_ok_iff.mpr ⟨text, htime, hvalue⟩, hparts⟩

theorem length_under_of_write {written : HeaderMap} (h : p.write names m = .ok written) :
    ∀ s ∈ names.all, ∃ l, written.under s = some l ∧ l.length ≤ 1 := by
  intro s hs
  rw [write_eq] at h
  rcases Plan.under_of_write h ((p.plan_names_perm names).mem_iff.mpr hs) with
    ⟨-, hunder⟩ | ⟨_, v, -, -, hunder⟩
  · exact ⟨[], hunder, Nat.zero_le 1⟩
  · exact ⟨[v], hunder, le_rfl⟩

/-- A request that the first key signed is accepted after its time `0` was spelled `+0` on the way, a text
that the signature does not cover. -/
theorem respelled_time_accepted :
    ∃ (p : Payload) (m : HeaderMap),
      signByAccessKey ⟨1, by decide⟩ [] (drawNonce zeros).1 0 = .ok p ∧
      (∀ s ∈ HeaderNames.all {}, ∃ l, m.under s = some l ∧ l.length ≤ 1) ∧
      read m {} = .ok p ∧ p.verify [] 0 0 = .ok () ∧
      m.text? "x-auth-time" = some "+0" ∧
      m.joined? (p.signedNames {}) ≠ some p.signingMessage := by
  obtain ⟨p, hp⟩ := exists_signByAccessKey
  have htime := (signedBy_of_signAs hp).time_eq
  obtain ⟨written, hwrite, hread⟩ :=
    exists_write_read HeaderNames.usable_default (carried_of_signByAccessKey hp) .empty
  let time : HeaderName := ⟨"x-auth-time".toList, by decide +kernel⟩
  let spelled : HeaderValue := ⟨[0x2b, 0x30], by decide⟩
  have hname : HeaderName.ofString? "x-auth-time" = some time := by decide +kernel
  have hspelled : spelled.text? = some "+0" := by decide +kernel
  have hvalue : Numeral.int64? "+0" = some p.time := by
    rw [htime]
    decide +kernel
  have hrespelled : read (written.insert time spelled) {} = .ok p :=
    read_insert_time HeaderNames.usable_default hread hname hspelled hvalue
  have hunder : (written.insert time spelled).under "x-auth-time" = some [spelled] := by
    rw [HeaderMap.under_insert, if_pos hname]
  have htext := HeaderMap.text?_of_under hunder hspelled (by decide)
  refine ⟨p, written.insert time spelled, hp, ?_, hrespelled,
    (accepted_of_signByAccessKey hp).2 0 0 (by decide), htext, ?_⟩
  · intro s hs
    rw [HeaderMap.under_insert]
    split
    · exact ⟨_, rfl, le_rfl⟩
    · exact length_under_of_write hwrite s hs
  · rw [joined?_signedNames hrespelled htext, Ne, Option.some.injEq]
    unfold signingMessage
    rw [String.append_right_inj, htime]
    decide

end Payload

end WalletAuth.Auth
