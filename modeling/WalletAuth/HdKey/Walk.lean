import WalletAuth.HdKey.Derive
import WalletAuth.HdKey.Print
import WalletAuth.Text.Numeral

/-! Paths and walks through a tree of keys. A text spells a path: its octets are cut into chunks of eight,
and each chunk, read as a signed hexadecimal number and reduced, is an index that is not hardened, so
that a random nonce leads to a key of its own. A walk replaces the key at hand step by step. -/
namespace WalletAuth
set_option autoImplicit false

namespace Path

def chunkLength : Nat := 8

/-- The modulus of the indices, which leaves out the last one that is not hardened. -/
def modulus : Int := 0x7fffffff

/-- The index that a chunk spells. The remainder has the sign of the number, so a negative number that
is no multiple of the modulus has no index. -/
def index (chunk : Bytes) : Except KeyError UInt32 :=
  match Numeral.signed? 16 Hex.digitValue? chunk with
  | none => .error (.pathChunk chunk)
  | some v =>
    let reduced := v.tmod modulus
    if reduced < 0 then .error (.pathIndex reduced) else .ok (UInt32.ofNat reduced.toNat)

/-- The path that a text spells, or the error of the first chunk that spells no index. -/
def ofText (s : String) : Except KeyError (List UInt32) :=
  (chunks chunkLength (Utf8.encode s)).mapM index

/-- The path to the key that contacts are paired with. -/
def pairing : List UInt32 := [0, 0]

end Path

namespace ExtendedKey

def descendText (k : ExtendedKey) (s : String) : Except KeyError ExtendedKey := do
  k.descend (← Path.ofText s)

def pairingKey (k : ExtendedKey) : Except KeyError ExtendedKey := k.descend Path.pairing

end ExtendedKey

/-! ## Walks

A step that fails leaves the key as it is. -/

namespace ExtendedKey

inductive Step where
  | child (index : UInt32)
  | path (indices : List UInt32)
  | text (s : String)
  | pairing
  | neuter
  /-- To what the printed key reads back as. -/
  | reread
deriving DecidableEq, Repr

def take (k : ExtendedKey) : Step → Except KeyError ExtendedKey
  | .child index => k.child index
  | .path indices => k.descend indices
  | .text s => k.descendText s
  | .pairing => k.pairingKey
  | .neuter => .ok k.neuter
  | .reread => read k.print

/-- The key after a step, which is the old one if the step fails. -/
def after (k : ExtendedKey) (step : Step) : ExtendedKey :=
  match k.take step with
  | .ok next => next
  | .error _ => k

def walk (k : ExtendedKey) (steps : List Step) : ExtendedKey := steps.foldl after k

end ExtendedKey

end WalletAuth
