import Mathlib
import WalletAuth.Proofs.HdKey.Path
import WalletAuth.Proofs.HdKey.Step

/-! Walks in two parts. A path that goes on with another one leads where the other one leads from its end. A
text of whole pieces that goes on with another one spells both paths, one behind the other; but a text is
read to its end before the first step is taken, so that of a piece that spells nothing and a step that fails
the piece is what is heard of. -/
namespace WalletAuth
set_option autoImplicit false

namespace Path

variable {a : String}

/-- Whole pieces spell what they spell, whatever stands behind them. -/
theorem ofText_append (ha : (Utf8.encode a).length % chunkLength = 0) (b : String) :
    ofText (a ++ b) = (do
      let path ← ofText a
      let rest ← ofText b
      return path ++ rest) := by
  have hcut := chunks_append_of_dvd (by decide : 0 < chunkLength) (Nat.dvd_of_mod_eq_zero ha)
    (Utf8.encode b)
  unfold ofText
  rw [Utf8.encode_append, hcut, List.mapM_append]

end Path

namespace ExtendedKey

variable {k : ExtendedKey} {a b : String} {rest : List UInt32} {e : KeyError}

/-- Behind a text that can be read, one walk is as good as two. -/
theorem descendText_append_of_ok (ha : (Utf8.encode a).length % Path.chunkLength = 0)
    (hb : Path.ofText b = .ok rest) :
    k.descendText (a ++ b) = k.descendText a >>= fun parent => parent.descendText b := by
  have hspelled := Path.ofText_append ha b
  rw [hb] at hspelled
  cases hpath : Path.ofText a with
  | error e =>
    rw [hpath] at hspelled
    rw [descendText_of_error hspelled, descendText_of_error hpath]
    rfl
  | ok path =>
    rw [hpath] at hspelled
    have hsteps : ∀ parent : ExtendedKey, parent.descendText b = parent.descend rest :=
      fun parent => descendText_of_ofText hb
    rw [descendText_of_ofText hspelled, descendText_of_ofText hpath, descend_append]
    simp only [hsteps]

/-- A text that cannot be read is found out before the first walk is begun. -/
theorem descendText_append_of_error (ha : (Utf8.encode a).length % Path.chunkLength = 0)
    (hb : Path.ofText b = .error e) :
    k.descendText (a ++ b) = Path.ofText a >>= fun _ => .error e := by
  have hspelled := Path.ofText_append ha b
  rw [hb] at hspelled
  cases hpath : Path.ofText a with
  | error e' =>
    rw [hpath] at hspelled
    exact descendText_of_error hspelled
  | ok path =>
    rw [hpath] at hspelled
    exact descendText_of_error hspelled

theorem descendText_append_eq_ok_iff (ha : (Utf8.encode a).length % Path.chunkLength = 0)
    {last : ExtendedKey} :
    k.descendText (a ++ b) = .ok last ↔
      ∃ parent, k.descendText a = .ok parent ∧ parent.descendText b = .ok last := by
  cases hb : Path.ofText b with
  | ok rest => rw [descendText_append_of_ok ha hb, bind_eq_ok_iff]
  | error e =>
    rw [descendText_append_of_error ha hb, bind_eq_ok_iff]
    simp only [descendText_of_error hb, reduceCtorEq, and_false, exists_false]

/-- Walks compose. Down a path in two parts the second walk starts where the first one ends, and the first of
them to fail decides the error. A text behind whole pieces adds its path to theirs, and its walk to theirs if
they succeed; where one of the walks fails, both ways fail alike as long as the second text spells a path,
and otherwise the whole text fails as soon as it is read. -/
theorem walks_compose (k : ExtendedKey) :
    (∀ path rest, k.descend (path ++ rest) = k.descend path >>= fun parent => parent.descend rest) ∧
    ∀ a b : String, (Utf8.encode a).length % 8 = 0 →
      Path.ofText (a ++ b) = (do
        let path ← Path.ofText a
        let rest ← Path.ofText b
        return path ++ rest) ∧
      (∀ last, k.descendText (a ++ b) = .ok last ↔
        ∃ parent, k.descendText a = .ok parent ∧ parent.descendText b = .ok last) ∧
      (∀ rest, Path.ofText b = .ok rest →
        k.descendText (a ++ b) = k.descendText a >>= fun parent => parent.descendText b) ∧
      ∀ e, Path.ofText b = .error e →
        k.descendText (a ++ b) = Path.ofText a >>= fun _ => .error e := by
  refine ⟨k.descend_append, fun a b ha => ⟨Path.ofText_append ha b, ?_, ?_, ?_⟩⟩
  · exact fun last => descendText_append_eq_ok_iff ha
  · exact fun rest => descendText_append_of_ok ha
  · exact fun e => descendText_append_of_error ha

/-- Two pieces below the root of a seed. At the last depth the first of them fails alone as with the second
one behind it, unless that one spells no index. -/
theorem two_pieces_compose :
    ∃ root parent last, ofSeed ((List.range 16).map UInt8.ofNat) .mainnet = .ok root ∧
      root.descendText ("00000001" ++ "+2") = .ok last ∧
      root.descendText "00000001" = .ok parent ∧ parent.descendText "+2" = .ok last ∧
      let deep := { root with depth := 255 }
      deep.descendText "00000001" = .error .depthExceeded ∧
      deep.descendText ("00000001" ++ "+2") = .error .depthExceeded ∧
      deep.descendText ("00000001" ++ "-2") = .error (.pathIndex (-2)) := by
  have hwhole : (Utf8.encode "00000001").length % 8 = 0 := by decide +kernel
  have hfirst : Path.ofText "00000001" = .ok [1] := by decide +kernel
  have hsecond : Path.ofText "+2" = .ok [2] := by decide +kernel
  have hnone : Path.ofText "-2" = .error (.pathIndex (-2)) := by decide +kernel
  have hrun : (ofSeed ((List.range 16).map UInt8.ofNat) .mainnet).map (fun root =>
      (root.descendText ("00000001" ++ "+2")).isOk) = .ok true := by
    decide +kernel
  obtain ⟨root, hseed, hok⟩ := map_eq_ok_iff.mp hrun
  obtain ⟨last, hlast⟩ := exists_of_isOk hok
  obtain ⟨-, hends, -, -⟩ := (walks_compose root).2 "00000001" "+2" hwhole
  obtain ⟨parent, hparent, hrest⟩ := (hends last).mp hlast
  have hdeep : { root with depth := 255 }.descendText "00000001" = .error .depthExceeded := by
    rw [descendText_of_ofText hfirst, descend_singleton]
    exact if_pos rfl
  have hcompose := walks_compose { root with depth := 255 }
  obtain ⟨-, -, hreadable, -⟩ := hcompose.2 "00000001" "+2" hwhole
  obtain ⟨-, -, -, hunreadable⟩ := hcompose.2 "00000001" "-2" hwhole
  refine ⟨root, parent, last, hseed, hlast, hparent, hrest, hdeep, ?_, ?_⟩
  · rw [hreadable _ hsecond, hdeep]
    rfl
  · rw [hunreadable _ hnone, hfirst]
    rfl

end ExtendedKey

end WalletAuth
