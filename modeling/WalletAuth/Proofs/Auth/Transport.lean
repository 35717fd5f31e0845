import Mathlib
import WalletAuth.Proofs.Auth.Plan
import WalletAuth.Proofs.Text.Numeral

/-! A payload of plain texts survives header fields. Whatever the fields held before, writing leaves one
value under the name of each part and none under the name of the other kind of identity, so reading
finds the payload again. -/
namespace WalletAuth.Auth
open Http
set_option autoImplicit false

/-! ## Names -/

namespace HeaderNames

/-- Whether all names are valid and no two of them differ in the case of letters only. -/
structure Usable (names : HeaderNames) : Prop where
  valid : ∀ s ∈ names.all, (HeaderName.ofString? s).isSome = true
  distinct : (names.all.map fun s => s.toList.map lowerAscii).Nodup

theorem usable_default : Usable {} := ⟨by decide, by decide⟩

end HeaderNames

namespace Payload

def texts (p : Payload) : List String :=
  [p.identity.text, p.bodyHash, p.nonce, Numeral.ofInt64 p.time, p.signature]

/-- Whether all parts can be read from header fields. -/
def Carried (p : Payload) : Prop := ∀ s ∈ p.texts, s ≠ "" ∧ ∀ c ∈ s.toList, Char.IsPlain c

theorem mem_texts {p : Payload} {names : HeaderNames} {t : String × String}
    (ht : t ∈ p.fieldTexts names) : t.2 ∈ p.texts := by
  have hmap : (p.fieldTexts names).map Prod.snd = p.texts := rfl
  rw [← hmap]
  exact List.mem_map_of_mem ht

/-! ## Writing -/

theorem plan_names_perm (p : Payload) (names : HeaderNames) :
    (p.plan names).names.Perm names.all := by
  unfold plan Plan.names fieldTexts identityNames HeaderNames.all
  cases p.identity with
  | xpub text => exact List.Perm.swap _ _ _
  | accessKey text => exact List.Perm.refl _

theorem consistent_of_distinct (p : Payload) {names : HeaderNames}
    (hdistinct : (names.all.map lowered).Nodup) : (p.plan names).Consistent :=
  .of_nodup (((p.plan_names_perm names).map lowered).nodup_iff.mpr hdistinct)

theorem exists_write_of_valid {p : Payload} {names : HeaderNames}
    (hvalid : ∀ s ∈ names.all, (HeaderName.ofString? s).isSome = true) (hp : p.Carried)
    (m : HeaderMap) : ∃ written, p.write names m = .ok written := by
  rw [write_eq]
  exact Plan.exists_write (fun s hs => hvalid s ((p.plan_names_perm names).mem_iff.mp hs))
    (fun t ht => (hp t.2 (mem_texts ht)).2) m

theorem text?_of_write {p : Payload} {names : HeaderNames} {m written : HeaderMap}
    (hp : p.Carried) (h : p.write names m = .ok written) : ∀ s ∈ (p.plan names).names,
      written.text? s = ((p.plan names).last? s).map Prod.snd := by
  rw [write_eq] at h
  exact fun s hs => Plan.text?_of_write (fun t ht => hp t.2 (mem_texts ht)) h hs

/-- Writing succeeds, and each part is then found under its name. -/
theorem exists_write {p : Payload} {names : HeaderNames} (hnames : names.Usable)
    (hp : p.Carried) (m : HeaderMap) :
    ∃ written, p.write names m = .ok written ∧
      (∀ t ∈ p.fieldTexts names, written.text? t.1 = some t.2) ∧
      written.text? (p.identityNames names).2 = none := by
  obtain ⟨hlast, hnone⟩ := Plan.consistent_iff.mp (p.consistent_of_distinct hnames.distinct)
  obtain ⟨written, hwrite⟩ := exists_write_of_valid hnames.valid hp m
  refine ⟨written, hwrite, fun t ht => ?_, ?_⟩
  · rw [text?_of_write hp hwrite t.1 (List.mem_append_right _ (List.mem_map_of_mem ht))]
    exact hlast t ht
  · rw [text?_of_write hp hwrite _ List.mem_cons_self, hnone _ List.mem_cons_self]
    rfl

/-! ## Reading -/

theorem required_eq_ok_iff {m : HeaderMap} {name s : String} :
    required m name = .ok s ↔ m.text? name = some s := by
  unfold required
  cases m.text? name <;> simp

/-- An identity is read that is found under its own name, if nothing is found under the other name. -/
theorem readIdentity_eq_ok_iff {p : Payload} {m : HeaderMap} {names : HeaderNames} :
    readIdentity m names = .ok p.identity ↔
      m.text? (p.identityNames names).1 = some p.identity.text ∧
        m.text? (p.identityNames names).2 = none := by
  unfold readIdentity identityNames
  cases p.identity <;> cases m.text? names.xpub <;> cases m.text? names.accessKey <;>
    simp [Identity.text]

theorem readTime_eq_ok_iff {m : HeaderMap} {names : HeaderNames} {time : Int64} :
    readTime m names = .ok time ↔
      ∃ text, m.text? names.time = some text ∧ Numeral.int64? text = some time := by
  unfold readTime
  rw [bind_eq_ok_iff]
  refine exists_congr fun text => and_congr required_eq_ok_iff ?_
  cases Numeral.int64? text <;> simp

/-- A payload is read exactly if each of its parts is found. The time may be spelled in any way. -/
theorem read_eq_ok_iff {p : Payload} {m : HeaderMap} {names : HeaderNames} :
    read m names = .ok p ↔ readIdentity m names = .ok p.identity ∧
      readTime m names = .ok p.time ∧ m.text? names.hash = some p.bodyHash ∧
      m.text? names.nonce = some p.nonce ∧ m.text? names.signature = some p.signature := by
  unfold read
  simp only [bind_eq_ok_iff, required_eq_ok_iff]
  constructor
  · rintro ⟨identity, hidentity, time, htime, hash, hhash, nonce, hnonce, signature, hsignature, h⟩
    cases h
    exact ⟨hidentity, htime, hhash, hnonce, hsignature⟩
  · rintro ⟨hidentity, htime, hhash, hnonce, hsignature⟩
    exact ⟨_, hidentity, _, htime, _, hhash, _, hnonce, _, hsignature, rfl⟩

theorem read_of_texts {p : Payload} {names : HeaderNames} {m : HeaderMap}
    (htexts : ∀ t ∈ p.fieldTexts names, m.text? t.1 = some t.2)
    (hother : m.text? (p.identityNames names).2 = none) : read m names = .ok p := by
  unfold fieldTexts at htexts
  simp only [List.forall_mem_cons] at htexts
  obtain ⟨hidentity, hhash, hnonce, htime, hsignature, -⟩ := htexts
  exact read_eq_ok_iff.mpr ⟨readIdentity_eq_ok_iff.mpr ⟨hidentity, hother⟩,
    readTime_eq_ok_iff.mpr ⟨_, htime, Numeral.int64?_ofInt64 p.time⟩, hhash, hnonce, hsignature⟩

/-- What is written is read back, whatever the fields held before. -/
theorem exists_write_read {p : Payload} {names : HeaderNames} (hnames : names.Usable)
    (hp : p.Carried) (m : HeaderMap) :
    ∃ written, p.write names m = .ok written ∧ read written names = .ok p := by
  obtain ⟨written, hwrite, htexts, hother⟩ := exists_write hnames hp m
  exact ⟨written, hwrite, read_of_texts htexts hother⟩

end Payload

end WalletAuth.Auth
