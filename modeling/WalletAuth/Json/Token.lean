import WalletAuth.Encoding.Hex

/-! The tokens of a document in object notation: punctuation and scalars, with white space between
them. Strings are kept even when an escape in them stands for half a character, since such a string
does no harm where nobody reads it. -/
namespace WalletAuth.Json
set_option autoImplicit false

inductive Scalar where
  | null
  | bool (b : Bool)
  | natural (v : Nat)
  | number
  /-- A string, with `none` for one that spells no text. -/
  | string (s : Option String)
deriving DecidableEq, Repr

inductive Bracket where
  | square
  | brace
deriving DecidableEq, Repr

inductive Token where
  | opening (b : Bracket)
  | closing (b : Bracket)
  | colon
  | comma
  | scalar (v : Scalar)
deriving DecidableEq, Repr

/-! ## Numbers and words -/

def dropDigits? (l : List Char) : Option (List Char) :=
  if (l.takeWhile Char.isDigit).isEmpty then none else some (l.dropWhile Char.isDigit)

def dropInteger? : List Char → Option (List Char)
  | '0' :: rest => if (rest.takeWhile Char.isDigit).isEmpty then some rest else none
  | l => dropDigits? l

def dropFraction? : List Char → Option (List Char)
  | '.' :: rest => dropDigits? rest
  | l => some l

def dropExponent? : List Char → Option (List Char)
  | c :: rest =>
    if c = 'e' || c = 'E' then
      match rest with
      | '+' :: digits => dropDigits? digits
      | '-' :: digits => dropDigits? digits
      | digits => dropDigits? digits
    else some (c :: rest)
  | [] => some []

def isNumber (l : List Char) : Bool :=
  let unsigned := match l with
    | '-' :: rest => rest
    | l => l
  (((dropInteger? unsigned).bind dropFraction?).bind dropExponent?) == some []

/-- The scalar that a run of characters outside of strings spells. -/
def word? (l : List Char) : Option Scalar :=
  if l = "null".toList then some .null
  else if l = "true".toList then some (.bool true)
  else if l = "false".toList then some (.bool false)
  else if !isNumber l then none
  else if l.all Char.isDigit then
    some (.natural (Radix.ofDigits 10 (l.map fun c => c.toNat - 0x30)))
  else some .number

/-! ## Strings -/

/-- The characters that code units spell: a unit that is half a character has to be followed by the
other half. -/
def spell? : List Nat → Option (List Char)
  | [] => some []
  | high :: low :: rest =>
    if 0xd800 ≤ high && high ≤ 0xdbff && 0xdc00 ≤ low && low ≤ 0xdfff then
      (spell? rest).map (Char.ofNat (0x10000 + (high - 0xd800) * 0x400 + (low - 0xdc00)) :: ·)
    else if 0xd800 ≤ high && high ≤ 0xdfff then none
    else (spell? (low :: rest)).map (Char.ofNat high :: ·)
  | [unit] => if 0xd800 ≤ unit && unit ≤ 0xdfff then none else some [Char.ofNat unit]

/-- The code point that a character after a backslash stands for. -/
def escaped? (c : Char) : Option Nat :=
  if c = '"' || c = '\\' || c = '/' then some c.toNat
  else if c = 'b' then some 0x8
  else if c = 'f' then some 0xc
  else if c = 'n' then some 0xa
  else if c = 'r' then some 0xd
  else if c = 't' then some 0x9
  else none

/-! ## Reading tokens -/

/-- Where the reader stands. What has been read of a word or string is held last unit first. -/
inductive Place where
  | between
  | word (read : List Char)
  | string (read : List Nat)
  | escape (read : List Nat)
  /-- Among the four digits of a code unit, of which some have been read. -/
  | unit (read : List Nat) (digits : List Nat)

/-- The tokens read so far, last first, and where the reader stands. -/
structure Lexer where
  tokens : List Token
  place : Place

def hexDigit? (c : Char) : Option Nat := if c.toNat < 0x80 then Hex.digitValue? c.toNat.toUInt8 else none

def isWordCharacter (c : Char) : Bool := c.isAlphanum || c = '-' || c = '+' || c = '.'

def Lexer.start (tokens : List Token) (c : Char) : Option Lexer :=
  if c = ' ' || c = '\n' || c = '\r' || c = '\t' then some ⟨tokens, .between⟩
  else if c = '[' then some ⟨.opening .square :: tokens, .between⟩
  else if c = ']' then some ⟨.closing .square :: tokens, .between⟩
  else if c = '\x7b' then some ⟨.opening .brace :: tokens, .between⟩
  else if c = '\x7d' then some ⟨.closing .brace :: tokens, .between⟩
  else if c = ':' then some ⟨.colon :: tokens, .between⟩
  else if c = ',' then some ⟨.comma :: tokens, .between⟩
  else if c = '"' then some ⟨tokens, .string []⟩
  else if isWordCharacter c then some ⟨tokens, .word [c]⟩
  else none

def Lexer.step (r : Lexer) (c : Char) : Option Lexer :=
  match r.place with
  | .between => start r.tokens c
  | .word read =>
    if isWordCharacter c then some ⟨r.tokens, .word (c :: read)⟩
    else (word? read.reverse).bind fun v => start (.scalar v :: r.tokens) c
  | .string read =>
    if c = '"' then
      some ⟨.scalar (.string ((spell? read.reverse).map String.ofList)) :: r.tokens, .between⟩
    else if c = '\\' then some ⟨r.tokens, .escape read⟩
    else if c.toNat < 0x20 then none
    else some ⟨r.tokens, .string (c.toNat :: read)⟩
  | .escape read =>
    if c = 'u' then some ⟨r.tokens, .unit read []⟩
    else (escaped? c).map fun v => ⟨r.tokens, .string (v :: read)⟩
  | .unit read digits =>
    (hexDigit? c).map fun v =>
      if digits.length < 3 then ⟨r.tokens, .unit read (digits ++ [v])⟩
      else ⟨r.tokens, .string (Radix.ofDigits 16 (digits ++ [v]) :: read)⟩

def tokens? (s : String) : Option (List Token) := do
  let r ← s.toList.foldlM Lexer.step ⟨[], .between⟩
  match r.place with
  | .between => some r.tokens.reverse
  | .word read => (word? read.reverse).map fun v => (.scalar v :: r.tokens).reverse
  | _ => none

end WalletAuth.Json
