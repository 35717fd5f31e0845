import Mathlib
import WalletAuth.Ecdsa.Signature
import WalletAuth.Proofs.Number.Octets

/-! The form of 65 octets. A signature and its mark go into it and come out of it unchanged; octets of any
other length, and a header below 27 or above 34, are refused. -/
namespace WalletAuth
set_option autoImplicit false

namespace Signature

theorem toNat_header (id : Fin 4) (compressed : Bool) :
    (UInt8.ofNat (headerBase + id.val + if compressed then 4 else 0)).toNat =
      headerBase + (id.val + if compressed then 4 else 0) := by
  have hsmall : headerBase + id.val + (if compressed then 4 else 0) < UInt8.size := by
    have hid := id.isLt
    unfold headerBase UInt8.size
    split <;> omega
  rw [UInt8.toNat_ofNat_of_lt' hsmall, Nat.add_assoc]

theorem ofCompact_compact (sig : Signature) (compressed : Bool) :
    ofCompact (sig.compact compressed).toList = .ok (sig, compressed) := by
  have hid := sig.recoveryId.isLt
  have hbody : Octets.ofList? (32 + 32) (sig.r.toList ++ sig.s.toList) =
      some (sig.r.append sig.s) :=
    Octets.ofList?_toList (sig.r.append sig.s)
  have hrange : (headerBase ≤ headerBase + (sig.recoveryId.val + if compressed then 4 else 0) &&
      headerBase + (sig.recoveryId.val + if compressed then 4 else 0) < headerBase + 8) = true := by
    rw [Bool.and_eq_true, decide_eq_true_iff, decide_eq_true_iff]
    split <;> omega
  have hrecovery : Fin.ofNat 4 (sig.recoveryId.val + if compressed then 4 else 0) =
      sig.recoveryId := by
    apply Fin.ext
    rw [Fin.val_ofNat]
    split <;> omega
  have hflag : decide (4 ≤ sig.recoveryId.val + if compressed then 4 else 0) = compressed := by
    cases compressed
    · rw [decide_eq_false_iff_not]
      simp only [Bool.false_eq_true, if_false]
      omega
    · rw [decide_eq_true_iff]
      simp only [if_true]
      omega
  unfold compact ofCompact
  simp only [hbody, toNat_header, hrange, if_true, Nat.add_sub_cancel_left, hrecovery, hflag,
    Octets.front_append, Octets.back_append]

theorem eq_of_toList_compact {sig sig' : Signature} {compressed : Bool}
    (h : (sig.compact compressed).toList = (sig'.compact compressed).toList) : sig = sig' := by
  have hread := ofCompact_compact sig compressed
  rw [h, ofCompact_compact sig' compressed] at hread
  cases hread
  rfl

theorem toList_compact (sig : Signature) (compressed : Bool) : (sig.compact compressed).toList =
    UInt8.ofNat (headerBase + sig.recoveryId.val + if compressed then 4 else 0) ::
      (sig.r.toList ++ sig.s.toList) := rfl

theorem ofCompact_of_length {l : Bytes} (h : l.length ≠ 65) :
    ofCompact l = .error (.signature (.length l.length)) := by
  cases l with
  | nil => rfl
  | cons header body =>
    have hbody : Octets.ofList? (32 + 32) body = none := dif_neg fun hlength => h (by
      rw [List.length_cons, hlength])
    unfold ofCompact
    simp only [hbody]

theorem ofCompact_of_header {header : UInt8} {body : Bytes} (hbody : body.length = 64)
    (h : header < 27 ∨ 34 < header) :
    ofCompact (header :: body) = .error (.signature (.header header)) := by
  have hrange : ¬ (headerBase ≤ header.toNat && header.toNat < headerBase + 8) = true := by
    have h27 : (27 : UInt8).toNat = 27 := rfl
    have h34 : (34 : UInt8).toNat = 34 := rfl
    rw [UInt8.lt_iff_toNat_lt, UInt8.lt_iff_toNat_lt] at h
    rw [Bool.and_eq_true, decide_eq_true_iff, decide_eq_true_iff]
    unfold headerBase
    omega
  unfold ofCompact
  simp only [Octets.ofList?_of_length hbody (n := 32 + 32), if_neg hrange]

/-- Every header from 27 to 34 is that of a signature. -/
theorem exists_compact {header : UInt8} {body : Bytes} (hbody : body.length = 64)
    (hlow : 27 ≤ header) (hhigh : header ≤ 34) :
    ∃ sig compressed, (compact sig compressed).toList = header :: body := by
  let numbers : Octets (32 + 32) := ⟨body, hbody⟩
  refine ⟨⟨numbers.front, numbers.back, Fin.ofNat 4 (header.toNat - headerBase)⟩,
    decide (4 ≤ header.toNat - headerBase), ?_⟩
  have hparts : numbers.front.toList ++ numbers.back.toList = body := by
    rw [← Octets.toList_append, Octets.front_append_back]
  have hheader : headerBase + (header.toNat - headerBase) % 4 +
      (if decide (4 ≤ header.toNat - headerBase) then 4 else 0) = header.toNat := by
    have h27 : (27 : UInt8).toNat = 27 := rfl
    have h34 : (34 : UInt8).toNat = 34 := rfl
    rw [UInt8.le_iff_toNat_le] at hlow hhigh
    unfold headerBase
    by_cases hflag : 4 ≤ header.toNat - 27
    · rw [decide_eq_true hflag, if_pos rfl]
      omega
    · rw [decide_eq_false hflag, if_neg Bool.false_ne_true]
      omega
  rw [toList_compact]
  simp only [Fin.val_ofNat, hheader, UInt8.ofNat_toNat, hparts]

end Signature

end WalletAuth
