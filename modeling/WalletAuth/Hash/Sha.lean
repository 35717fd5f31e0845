import WalletAuth.Hash.Blocks

/-! The secure hashes and keyed hashing. The hash of 160 bits is what one-time codes are cut from. The
second family has two widths, `sha256` over words of 32 bits and `sha512` over words of 64: both run the
same rounds over a window of sixteen words, and a `Variant` holds what differs. -/
namespace WalletAuth.Hash
set_option autoImplicit false

/-! ## The hash of 160 bits -/

namespace Sha1

structure State where
  a : UInt32
  b : UInt32
  c : UInt32
  d : UInt32
  e : UInt32

def start : State := ⟨0x67452301, 0xefcdab89, 0x98badcfe, 0x10325476, 0xc3d2e1f0⟩

/-- How the middle words are combined in the round `t`, and the constant added there. -/
def stage (t : Nat) (s : State) : UInt32 × UInt32 :=
  if t < 20 then ((s.b &&& s.c) ||| (~~~s.b &&& s.d), 0x5a827999)
  else if t < 40 then (s.b ^^^ s.c ^^^ s.d, 0x6ed9eba1)
  else if t < 60 then ((s.b &&& s.c) ||| (s.b &&& s.d) ||| (s.c &&& s.d), 0x8f1bbcdc)
  else (s.b ^^^ s.c ^^^ s.d, 0xca62c1d6)

def State.round (s : State) (t : Nat) (w : UInt32) : State :=
  let (mixed, constant) := stage t s
  ⟨rotateLeft32 s.a 5 + mixed + s.e + constant + w, s.a, rotateLeft32 s.b 30, s.c, s.d⟩

/-- Drops the first word of the window and appends the word sixteen places after it. -/
def slide (window : List UInt32) : List UInt32 :=
  window.tail ++ [rotateLeft32 (window.getD 13 0 ^^^ window.getD 8 0 ^^^ window.getD 2 0 ^^^
    window.getD 0 0) 1]

def compress (s : State) (block : Bytes) : State :=
  let r := (List.range 80).foldl
    (fun r t => (r.1.round t (r.2.getD 0 0), slide r.2)) (s, words32 block)
  ⟨s.a + r.1.a, s.b + r.1.b, s.c + r.1.c, s.d + r.1.d, s.e + r.1.e⟩

def State.words (s : State) : List UInt32 := [s.a, s.b, s.c, s.d, s.e]

end Sha1

def sha1 (message : Bytes) : Octets 20 :=
  let s := iterate Sha1.compress Sha1.start 64 (pad 64 (bitLength 8 message) message)
  ⟨s.words.flatMap word32, rfl⟩

/-! ## The second family -/

namespace Sha2

structure State (ω : Type) where
  a : ω
  b : ω
  c : ω
  d : ω
  e : ω
  f : ω
  g : ω
  h : ω

/-- What one width of the family fixes. -/
structure Variant (ω : Type) where
  start : State ω
  constants : List ω
  mixA : ω → ω
  mixE : ω → ω
  /-- The two mixes that extend the words of a block. -/
  spreadLate : ω → ω
  spreadEarly : ω → ω
  read : Bytes → List ω

variable {ω : Type} [Add ω] [XorOp ω] [AndOp ω] [Complement ω] [OfNat ω 0]

@[specialize] def State.add (s t : State ω) : State ω :=
  ⟨s.a + t.a, s.b + t.b, s.c + t.c, s.d + t.d, s.e + t.e, s.f + t.f, s.g + t.g, s.h + t.h⟩

/-- One round: `w` is the word of the block plus the round's constant. -/
@[specialize] def State.round (v : Variant ω) (s : State ω) (w : ω) : State ω :=
  let choice := (s.e &&& s.f) ^^^ (~~~s.e &&& s.g)
  let majority := (s.a &&& s.b) ^^^ (s.a &&& s.c) ^^^ (s.b &&& s.c)
  let t := s.h + v.mixE s.e + choice + w
  ⟨t + v.mixA s.a + majority, s.a, s.b, s.c, s.d + t, s.e, s.f, s.g⟩

@[specialize] def slide (v : Variant ω) (window : List ω) : List ω :=
  window.tail ++ [v.spreadLate (window.getD 14 0) + window.getD 9 0 +
    v.spreadEarly (window.getD 1 0) + window.getD 0 0]

@[specialize] def compress (v : Variant ω) (s : State ω) (block : Bytes) : State ω :=
  let r := v.constants.foldl
    (fun r k => (r.1.round v (r.2.getD 0 0 + k), slide v r.2)) (s, v.read block)
  s.add r.1

def State.words (s : State ω) : List ω := [s.a, s.b, s.c, s.d, s.e, s.f, s.g, s.h]

/-! ### The width of 32 bits -/

/-- The fractional bits of the cube roots of the first 64 primes. -/
def constants32 : List UInt32 :=
  [0x428a2f98, 0x71374491, 0xb5c0fbcf, 0xe9b5dba5, 0x3956c25b, 0x59f111f1, 0x923f82a4, 0xab1c5ed5,
   0xd807aa98, 0x12835b01, 0x243185be, 0x550c7dc3, 0x72be5d74, 0x80deb1fe, 0x9bdc06a7, 0xc19bf174,
   0xe49b69c1, 0xefbe4786, 0x0fc19dc6, 0x240ca1cc, 0x2de92c6f, 0x4a7484aa, 0x5cb0a9dc, 0x76f988da,
   0x983e5152, 0xa831c66d, 0xb00327c8, 0xbf597fc7, 0xc6e00bf3, 0xd5a79147, 0x06ca6351, 0x14292967,
   0x27b70a85, 0x2e1b2138, 0x4d2c6dfc, 0x53380d13, 0x650a7354, 0x766a0abb, 0x81c2c92e, 0x92722c85,
   0xa2bfe8a1, 0xa81a664b, 0xc24b8b70, 0xc76c51a3, 0xd192e819, 0xd6990624, 0xf40e3585, 0x106aa070,
   0x19a4c116, 0x1e376c08, 0x2748774c, 0x34b0bcb5, 0x391c0cb3, 0x4ed8aa4a, 0x5b9cca4f, 0x682e6ff3,
   0x748f82ee, 0x78a5636f, 0x84c87814, 0x8cc70208, 0x90befffa, 0xa4506ceb, 0xbef9a3f7, 0xc67178f2]

/-- The variant over words of 32 bits. Its start holds the fractional bits of the square roots of the
first eight primes. -/
def variant32 : Variant UInt32 where
  start := ⟨0x6a09e667, 0xbb67ae85, 0x3c6ef372, 0xa54ff53a,
    0x510e527f, 0x9b05688c, 0x1f83d9ab, 0x5be0cd19⟩
  constants := constants32
  mixA x := rotateRight32 x 2 ^^^ rotateRight32 x 13 ^^^ rotateRight32 x 22
  mixE x := rotateRight32 x 6 ^^^ rotateRight32 x 11 ^^^ rotateRight32 x 25
  spreadLate x := rotateRight32 x 17 ^^^ rotateRight32 x 19 ^^^ x >>> 10
  spreadEarly x := rotateRight32 x 7 ^^^ rotateRight32 x 18 ^^^ x >>> 3
  read := words32

/-! ### The width of 64 bits -/

/-- The fractional bits of the cube roots of the first 80 primes. -/
def constants64 : List UInt64 :=
  [0x428a2f98d728ae22, 0x7137449123ef65cd, 0xb5c0fbcfec4d3b2f, 0xe9b5dba58189dbbc,
   0x3956c25bf348b538, 0x59f111f1b605d019, 0x923f82a4af194f9b, 0xab1c5ed5da6d8118,
   0xd807aa98a3030242, 0x12835b0145706fbe, 0x243185be4ee4b28c, 0x550c7dc3d5ffb4e2,
   0x72be5d74f27b896f, 0x80deb1fe3b1696b1, 0x9bdc06a725c71235, 0xc19bf174cf692694,
   0xe49b69c19ef14ad2, 0xefbe4786384f25e3, 0x0fc19dc68b8cd5b5, 0x240ca1cc77ac9c65,
   0x2de92c6f592b0275, 0x4a7484aa6ea6e483, 0x5cb0a9dcbd41fbd4, 0x76f988da831153b5,
   0x983e5152ee66dfab, 0xa831c66d2db43210, 0xb00327c898fb213f, 0xbf597fc7beef0ee4,
   0xc6e00bf33da88fc2, 0xd5a79147930aa725, 0x06ca6351e003826f, 0x142929670a0e6e70,
   0x27b70a8546d22ffc, 0x2e1b21385c26c926, 0x4d2c6dfc5ac42aed, 0x53380d139d95b3df,
   0x650a73548baf63de, 0x766a0abb3c77b2a8, 0x81c2c92e47edaee6, 0x92722c851482353b,
   0xa2bfe8a14cf10364, 0xa81a664bbc423001, 0xc24b8b70d0f89791, 0xc76c51a30654be30,
   0xd192e819d6ef5218, 0xd69906245565a910, 0xf40e35855771202a, 0x106aa07032bbd1b8,
   0x19a4c116b8d2d0c8, 0x1e376c085141ab53, 0x2748774cdf8eeb99, 0x34b0bcb5e19b48a8,
   0x391c0cb3c5c95a63, 0x4ed8aa4ae3418acb, 0x5b9cca4f7763e373, 0x682e6ff3d6b2b8a3,
   0x748f82ee5defb2fc, 0x78a5636f43172f60, 0x84c87814a1f0ab72, 0x8cc702081a6439ec,
   0x90befffa23631e28, 0xa4506cebde82bde9, 0xbef9a3f7b2c67915, 0xc67178f2e372532b,
   0xca273eceea26619c, 0xd186b8c721c0c207, 0xeada7dd6cde0eb1e, 0xf57d4f7fee6ed178,
   0x06f067aa72176fba, 0x0a637dc5a2c898a6, 0x113f9804bef90dae, 0x1b710b35131c471b,
   0x28db77f523047d84, 0x32caab7b40c72493, 0x3c9ebe0a15c9bebc, 0x431d67c49c100d4c,
   0x4cc5d4becb3e42b6, 0x597f299cfc657e2a, 0x5fcb6fab3ad6faec, 0x6c44198c4a475817]

/-- The variant over words of 64 bits, with a start made like that of the other width. -/
def variant64 : Variant UInt64 where
  start := ⟨0x6a09e667f3bcc908, 0xbb67ae8584caa73b, 0x3c6ef372fe94f82b, 0xa54ff53a5f1d36f1,
    0x510e527fade682d1, 0x9b05688c2b3e6c1f, 0x1f83d9abfb41bd6b, 0x5be0cd19137e2179⟩
  constants := constants64
  mixA x := rotateRight64 x 28 ^^^ rotateRight64 x 34 ^^^ rotateRight64 x 39
  mixE x := rotateRight64 x 14 ^^^ rotateRight64 x 18 ^^^ rotateRight64 x 41
  spreadLate x := rotateRight64 x 19 ^^^ rotateRight64 x 61 ^^^ x >>> 6
  spreadEarly x := rotateRight64 x 1 ^^^ rotateRight64 x 8 ^^^ x >>> 7
  read l := joinWords (words32 l)

end Sha2

def sha256 (message : Bytes) : Octets 32 :=
  let s := iterate (Sha2.compress Sha2.variant32) Sha2.variant32.start 64
    (pad 64 (bitLength 8 message) message)
  ⟨s.words.flatMap word32, rfl⟩

def sha512 (message : Bytes) : Octets 64 :=
  let s := iterate (Sha2.compress Sha2.variant64) Sha2.variant64.start 128
    (pad 128 (bitLength 16 message) message)
  ⟨s.words.flatMap word64, rfl⟩

def sha256d (message : Bytes) : Octets 32 := sha256 (sha256 message).toList

/-! ## Keyed hashing

The message is hashed behind the key masked one way, and the result behind the key masked another
way. -/

variable {n : Nat}

/-- The key as one block: hashed if it is longer, and filled up with zeros. -/
def blockKey (hash : Bytes → Octets n) (block : Nat) (key : Bytes) : Bytes :=
  let short := if block < key.length then (hash key).toList else key
  short ++ List.replicate (block - short.length) 0

/-- The tag of a message under a key, for a hash that works on blocks of `block` octets. -/
def hmac (hash : Bytes → Octets n) (block : Nat) (key message : Bytes) : Octets n :=
  let k := blockKey hash block key
  let inner := hash (k.map (· ^^^ 0x36) ++ message)
  hash (k.map (· ^^^ 0x5c) ++ inner.toList)

def hmacSha1 (key message : Bytes) : Octets 20 := hmac sha1 64 key message

def hmacSha256 (key message : Bytes) : Octets 32 := hmac sha256 64 key message

def hmacSha512 (key message : Bytes) : Octets 64 := hmac sha512 128 key message

end WalletAuth.Hash
