import WalletAuth.Text.Utf8

/-! The header fields of a request: names, values, and a map that may give a name several values. -/
namespace WalletAuth.Http
set_option autoImplicit false

/-! ## Names

Tokens of ASCII characters, in which upper and lower case are the same. -/

/-- The characters besides letters and digits that a name may have. -/
def nameMarks : List Char := "!#$%&'*+-.^_`|~".toList

def isNameCharacter (c : Char) : Bool :=
  ('a' ≤ c && c ≤ 'z') || ('0' ≤ c && c ≤ '9') || nameMarks.contains c

/-- The lowercase letter of an uppercase one; other characters stay. -/
def lowerAscii (c : Char) : Char :=
  if 'A' ≤ c && c ≤ 'Z' then Char.ofNat (c.toNat + 0x20) else c

def nameLimit : Nat := 65535

/-- The name of a header field, in lower case. -/
structure HeaderName where
  characters : List Char
  valid : characters.all isNameCharacter = true
deriving DecidableEq

namespace HeaderName

def ofString? (s : String) : Option HeaderName :=
  let l := s.toList.map lowerAscii
  if s.isEmpty || nameLimit < l.length then none
  else if h : l.all isNameCharacter = true then some ⟨l, h⟩ else none

def text (n : HeaderName) : String := String.ofList n.characters

end HeaderName

/-! ## Values

Octets without control characters other than the tab. A value that is plain ASCII can be read as
text. -/

def isValueOctet (b : UInt8) : Bool := b == 0x09 || (0x20 ≤ b && b != 0x7f)

/-- Whether this octet of a value can be read as a character. -/
def isReadable (b : UInt8) : Bool := b == 0x09 || (0x20 ≤ b && b ≤ 0x7e)

structure HeaderValue where
  octets : Bytes
  valid : octets.all isValueOctet = true
deriving DecidableEq

namespace HeaderValue

def ofBytes? (l : Bytes) : Option HeaderValue :=
  if h : l.all isValueOctet = true then some ⟨l, h⟩ else none

def ofString? (s : String) : Option HeaderValue := ofBytes? (Utf8.encode s)

def text? (v : HeaderValue) : Option String :=
  if v.octets.all isReadable then some (String.ofList (v.octets.map fun b => Char.ofNat b.toNat))
  else none

end HeaderValue

/-! ## Fields

A name may have several values, in the order in which they were added; two sets of fields that give
every name the same values are the same to every reader. -/

/-- Header fields in the order in which they were added. There is room for any number of names; that a
program has room for 24576 of them only, and stops when one more is to be inserted, is left out. -/
structure HeaderMap where
  fields : List (HeaderName × HeaderValue)
deriving DecidableEq

namespace HeaderMap

def empty : HeaderMap := ⟨[]⟩

def values (m : HeaderMap) (n : HeaderName) : List HeaderValue :=
  m.fields.filterMap fun f => if f.1 = n then some f.2 else none

def contains (m : HeaderMap) (n : HeaderName) : Bool := !(m.values n).isEmpty

def erase (m : HeaderMap) (n : HeaderName) : HeaderMap :=
  ⟨m.fields.filter fun f => decide (f.1 ≠ n)⟩

def push (m : HeaderMap) (n : HeaderName) (v : HeaderValue) : HeaderMap := ⟨m.fields ++ [(n, v)]⟩

def insert (m : HeaderMap) (n : HeaderName) (v : HeaderValue) : HeaderMap := (m.erase n).push n v

/-- The first value of the name that a text spells, if there is one and it can be read and is not
empty. -/
def text? (m : HeaderMap) (name : String) : Option String :=
  (((HeaderName.ofString? name).bind fun n => (m.values n).head?).bind HeaderValue.text?).filter
    fun s => !s.isEmpty

/-! ### Values after a change -/

@[simp] theorem values_empty (n : HeaderName) : empty.values n = [] := rfl

theorem values_erase (m : HeaderMap) (n k : HeaderName) :
    (m.erase n).values k = if k = n then [] else m.values k := by
  simp only [values, erase, List.filterMap_filter]
  split
  · next h =>
    subst h
    refine List.filterMap_eq_nil_iff.2 fun f _ => ?_
    by_cases h : f.1 = k <;> simp [h]
  · next h =>
    congr 1
    funext f
    by_cases hf : f.1 = k
    · simp [hf, h]
    · simp [hf]

theorem values_push (m : HeaderMap) (n k : HeaderName) (v : HeaderValue) :
    (m.push n v).values k = if k = n then m.values k ++ [v] else m.values k := by
  by_cases h : k = n
  · simp [values, push, List.filterMap_append, h]
  · simp [values, push, List.filterMap_append, h, Ne.symm h]

theorem values_insert (m : HeaderMap) (n k : HeaderName) (v : HeaderValue) :
    (m.insert n v).values k = if k = n then [v] else m.values k := by
  rw [insert, values_push, values_erase]
  split <;> simp_all

end HeaderMap

end WalletAuth.Http
