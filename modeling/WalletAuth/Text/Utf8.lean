import WalletAuth.Octets

/-! The octets of a text in UTF-8, and the reading of octets that may not be well formed: each longest
beginning of a character that is not continued as UTF-8 demands counts as one ill-formed part. -/
namespace WalletAuth.Utf8
set_option autoImplicit false

def encode (s : String) : Bytes := s.toList.flatMap String.utf8EncodeChar

/-- A character of which some octets have been read. -/
structure Open where
  /-- The least and the greatest value that each octet still due may have. -/
  due : List (UInt8 × UInt8)
  value : Nat

def tail : UInt8 × UInt8 := (0x80, 0xbf)

/-- What a first octet promises. The ranges of the second one leave out the spellings that are too
long, the surrogates and the numbers past the last character. -/
def lead? (b : UInt8) : Option Open :=
  if b < 0x80 then some ⟨[], b.toNat⟩
  else if b < 0xc2 then none
  else if b < 0xe0 then some ⟨[tail], b.toNat - 0xc0⟩
  else if b = 0xe0 then some ⟨[(0xa0, 0xbf), tail], 0⟩
  else if b = 0xed then some ⟨[(0x80, 0x9f), tail], 0xd⟩
  else if b < 0xf0 then some ⟨[tail, tail], b.toNat - 0xe0⟩
  else if b = 0xf0 then some ⟨[(0x90, 0xbf), tail, tail], 0⟩
  else if b < 0xf4 then some ⟨[tail, tail, tail], b.toNat - 0xf0⟩
  else if b = 0xf4 then some ⟨[(0x80, 0x8f), tail, tail], 4⟩
  else none

/-- The characters read so far, last first, with `none` for an ill-formed part, and the character that
has been begun. -/
structure Reader where
  done : List (Option Char)
  current : Option Open

/-- Goes on after the last octet of a character or of an ill-formed part. -/
def Reader.resume (done : List (Option Char)) : Open → Reader
  | ⟨[], value⟩ => ⟨some (Char.ofNat value) :: done, none⟩
  | o => ⟨done, some o⟩

def Reader.start (done : List (Option Char)) (b : UInt8) : Reader :=
  match lead? b with
  | none => ⟨none :: done, none⟩
  | some o => resume done o

/-- Reads one octet. An octet that does not continue the character begun closes an ill-formed part and
is read afresh. -/
def Reader.step (r : Reader) (b : UInt8) : Reader :=
  match r.current with
  | some ⟨(least, greatest) :: due, value⟩ =>
    if least ≤ b && b ≤ greatest then resume r.done ⟨due, value * 64 + b.toNat % 64⟩
    else start (none :: r.done) b
  | _ => start r.done b

/-- The characters of an octet string in order, with `none` for each ill-formed part. -/
def characters (l : Bytes) : List (Option Char) :=
  let r := l.foldl Reader.step ⟨[], none⟩
  (if r.current.isSome then none :: r.done else r.done).reverse

/-- The text that the octets spell, if they are well formed. -/
def decode? (l : Bytes) : Option String := ((characters l).mapM id).map String.ofList

/-- The text that the octets spell, with a replacement character for each ill-formed part. -/
def decodeLossy (l : Bytes) : String :=
  String.ofList ((characters l).map (·.getD '\ufffd'))

end WalletAuth.Utf8
