import WalletAuth.Octets
import WalletAuth.Number.Chunks

/-! What the iterated hashes share: a message is padded to whole blocks with its length at the end, and
the blocks are folded into a state of machine words one after another. -/
namespace WalletAuth.Hash
set_option autoImplicit false

universe u

/-- The message, one marker bit, as many zeros as bring the whole to a multiple of `block` octets, and
the length field. -/
def pad (block : Nat) (lengthField message : Bytes) : Bytes :=
  let used := (message.length + 1 + lengthField.length) % block
  message ++ 0x80 :: (List.replicate ((block - used) % block) 0 ++ lengthField)

/-- Folds the blocks of a padded message into a state. -/
def iterate {σ : Type u} (compress : σ → Bytes → σ) (start : σ) (block : Nat) (padded : Bytes) : σ :=
  (chunks block padded).foldl compress start

/-- The length of a message in bits, in `width` octets with the most significant first. -/
def bitLength (width : Nat) (message : Bytes) : Bytes := Bytes.ofNat width (message.length * 8)

/-! ## Words of 32 and 64 bits -/

def rotateRight32 (x k : UInt32) : UInt32 := x >>> k ||| x <<< (32 - k)

def rotateLeft32 (x k : UInt32) : UInt32 := x <<< k ||| x >>> (32 - k)

def rotateRight64 (x k : UInt64) : UInt64 := x >>> k ||| x <<< (64 - k)

/-- The octets of a word, the most significant first. -/
def word32 (w : UInt32) : Bytes :=
  [(w >>> 24).toUInt8, (w >>> 16).toUInt8, (w >>> 8).toUInt8, w.toUInt8]

/-- The octets of a word, the least significant first. -/
def word32Reversed (w : UInt32) : Bytes :=
  [w.toUInt8, (w >>> 8).toUInt8, (w >>> 16).toUInt8, (w >>> 24).toUInt8]

/-- The octets of a long word, the most significant first. -/
def word64 (w : UInt64) : Bytes := word32 (w >>> 32).toUInt32 ++ word32 w.toUInt32

/-- The words that octets spell four by four, the most significant octet first. -/
def words32 : Bytes → List UInt32
  | a :: b :: c :: d :: rest =>
    (a.toUInt32 <<< 24 ||| b.toUInt32 <<< 16 ||| c.toUInt32 <<< 8 ||| d.toUInt32) :: words32 rest
  | _ => []

/-- The words that octets spell four by four, the least significant octet first. -/
def words32Reversed : Bytes → List UInt32
  | a :: b :: c :: d :: rest =>
    (a.toUInt32 ||| b.toUInt32 <<< 8 ||| c.toUInt32 <<< 16 ||| d.toUInt32 <<< 24) ::
      words32Reversed rest
  | _ => []

/-- Joins words two by two into long words, the more significant one first. -/
def joinWords : List UInt32 → List UInt64
  | a :: b :: rest => (a.toUInt64 <<< 32 ||| b.toUInt64) :: joinWords rest
  | _ => []

end WalletAuth.Hash
