import WalletAuth.Hash.Sha

/-! The hash of 160 bits that runs two lines of rounds over each block and adds them up crosswise, and
the key fingerprint hash built on it. -/
namespace WalletAuth.Hash
set_option autoImplicit false

namespace Ripemd160

structure State where
  a : UInt32
  b : UInt32
  c : UInt32
  d : UInt32
  e : UInt32

def start : State := ⟨0x67452301, 0xefcdab89, 0x98badcfe, 0x10325476, 0xc3d2e1f0⟩

def combine : Nat → UInt32 → UInt32 → UInt32 → UInt32
  | 0, x, y, z => x ^^^ y ^^^ z
  | 1, x, y, z => (x &&& y) ||| (~~~x &&& z)
  | 2, x, y, z => (x ||| ~~~y) ^^^ z
  | 3, x, y, z => (x &&& z) ||| (y &&& ~~~z)
  | _, x, y, z => x ^^^ (y ||| ~~~z)

/-- Sixteen rounds that share a way of combining and a constant. -/
structure Stage where
  way : Nat
  constant : UInt32
  /-- Which word of the block each round takes, and how far it turns the sum. -/
  rounds : List (Nat × UInt32)

/-- One round on the word `w`, turned by `turn`. -/
def State.round (way : Nat) (constant : UInt32) (s : State) (w turn : UInt32) : State :=
  let t := rotateLeft32 (s.a + combine way s.b s.c s.d + w + constant) turn + s.e
  ⟨s.e, t, s.b, rotateLeft32 s.c 10, s.d⟩

def Stage.run (block : List UInt32) (s : State) (stage : Stage) : State :=
  stage.rounds.foldl
    (fun s r => s.round stage.way stage.constant (block.getD r.1 0) r.2) s

/-- The stages of a line, from the word and the turn of each round. -/
def line (ways : List Nat) (constants : List UInt32) (picks : List (List Nat))
    (turns : List (List UInt32)) : List Stage :=
  ((ways.zip constants).zip (picks.zip turns)).map fun s => ⟨s.1.1, s.1.2, s.2.1.zip s.2.2⟩

def leftPicks : List (List Nat) :=
  [[0, 1, 2, 3, 4, 5, 6, 7, 8, 9, 10, 11, 12, 13, 14, 15],
   [7, 4, 13, 1, 10, 6, 15, 3, 12, 0, 9, 5, 2, 14, 11, 8],
   [3, 10, 14, 4, 9, 15, 8, 1, 2, 7, 0, 6, 13, 11, 5, 12],
   [1, 9, 11, 10, 0, 8, 12, 4, 13, 3, 7, 15, 14, 5, 6, 2],
   [4, 0, 5, 9, 7, 12, 2, 10, 14, 1, 3, 8, 11, 6, 15, 13]]

def rightPicks : List (List Nat) :=
  [[5, 14, 7, 0, 9, 2, 11, 4, 13, 6, 15, 8, 1, 10, 3, 12],
   [6, 11, 3, 7, 0, 13, 5, 10, 14, 15, 8, 12, 4, 9, 1, 2],
   [15, 5, 1, 3, 7, 14, 6, 9, 11, 8, 12, 2, 10, 0, 4, 13],
   [8, 6, 4, 1, 3, 11, 15, 0, 5, 12, 2, 13, 9, 7, 10, 14],
   [12, 15, 10, 4, 1, 5, 8, 7, 6, 2, 13, 14, 0, 3, 9, 11]]

def leftTurns : List (List UInt32) :=
  [[11, 14, 15, 12, 5, 8, 7, 9, 11, 13, 14, 15, 6, 7, 9, 8],
   [7, 6, 8, 13, 11, 9, 7, 15, 7, 12, 15, 9, 11, 7, 13, 12],
   [11, 13, 6, 7, 14, 9, 13, 15, 14, 8, 13, 6, 5, 12, 7, 5],
   [11, 12, 14, 15, 14, 15, 9, 8, 9, 14, 5, 6, 8, 6, 5, 12],
   [9, 15, 5, 11, 6, 8, 13, 12, 5, 12, 13, 14, 11, 8, 5, 6]]

def rightTurns : List (List UInt32) :=
  [[8, 9, 9, 11, 13, 15, 15, 5, 7, 7, 8, 11, 14, 14, 12, 6],
   [9, 13, 15, 7, 12, 8, 9, 11, 7, 7, 12, 7, 6, 15, 13, 11],
   [9, 7, 15, 11, 8, 6, 6, 14, 12, 13, 5, 14, 13, 13, 7, 5],
   [15, 5, 8, 11, 14, 14, 6, 14, 6, 9, 12, 9, 12, 5, 15, 8],
   [8, 5, 12, 9, 12, 5, 14, 6, 8, 13, 6, 5, 15, 13, 11, 11]]

def left : List Stage :=
  line [0, 1, 2, 3, 4] [0, 0x5a827999, 0x6ed9eba1, 0x8f1bbcdc, 0xa953fd4e] leftPicks leftTurns

/-- The right line, which uses the combinations in the opposite order. -/
def right : List Stage :=
  line [4, 3, 2, 1, 0] [0x50a28be6, 0x5c4dd124, 0x6d703ef3, 0x7a6d76e9, 0] rightPicks rightTurns

def compress (s : State) (block : Bytes) : State :=
  let words := words32Reversed block
  let l := left.foldl (Stage.run words) s
  let r := right.foldl (Stage.run words) s
  ⟨s.b + l.c + r.d, s.c + l.d + r.e, s.d + l.e + r.a, s.e + l.a + r.b, s.a + l.b + r.c⟩

def State.words (s : State) : List UInt32 := [s.a, s.b, s.c, s.d, s.e]

end Ripemd160

def ripemd160 (message : Bytes) : Octets 20 :=
  let s := iterate Ripemd160.compress Ripemd160.start 64
    (pad 64 (bitLength 8 message).reverse message)
  ⟨s.words.flatMap word32Reversed, rfl⟩

/-- The hash that identifies a public key: 160 bits of 256. -/
def hash160 (message : Bytes) : Octets 20 := ripemd160 (sha256 message).toList

end WalletAuth.Hash
