import WalletAuth.Json.Token

/-! Documents in object notation, read one level deep. Arrays and objects within the outermost one have
to be well formed, at any depth, and are then forgotten. Names may repeat, and keep their order. -/
namespace WalletAuth.Json
set_option autoImplicit false

/-- A value in an array or object. -/
inductive Value where
  | scalar (v : Scalar)
  | nested
deriving DecidableEq, Repr

/-- A whole document. A name is `none` if its escapes spell no text. -/
inductive Document where
  | scalar (v : Scalar)
  | array (l : List Value)
  | object (l : List (Option String × Value))
deriving DecidableEq, Repr

/-- Which tokens may come next. -/
inductive Expected where
  | value
  | valueOrClosing
  | name
  | nameOrClosing
  | colon
  | commaOrClosing
  | nothing
deriving DecidableEq, Repr

/-- What has been read of a document. -/
structure Reader where
  brackets : List Bracket
  expected : Expected
  /-- The name that was read last in the outermost object. -/
  name : Option String
  /-- The values of the outermost array or object, last first, each with its name. -/
  entries : List (Option String × Value)
  document : Option Document

namespace Reader

def start : Reader := ⟨[], .value, none, [], none⟩

/-- Takes note of a complete value, which counts if it stands in the outermost array or object. -/
def finish (r : Reader) (v : Value) : Reader :=
  match r.brackets with
  | [] => { r with expected := .nothing }
  | [_] => { r with expected := .commaOrClosing, entries := (r.name, v) :: r.entries }
  | _ => { r with expected := .commaOrClosing }

def scalar (r : Reader) (v : Scalar) : Reader :=
  if r.brackets.isEmpty then { r with expected := .nothing, document := some (.scalar v) }
  else r.finish (.scalar v)

def opening (r : Reader) : Bracket → Reader
  | .square => { r with brackets := .square :: r.brackets, expected := .valueOrClosing }
  | .brace => { r with brackets := .brace :: r.brackets, expected := .nameOrClosing }

/-- Closes the innermost array or object, if it is of the given kind. -/
def closing (r : Reader) (b : Bracket) : Option Reader :=
  match r.brackets with
  | [] => none
  | [outermost] =>
    if outermost = b then
      let l := r.entries.reverse
      let document := match b with
        | .square => Document.array (l.map Prod.snd)
        | .brace => Document.object l
      some { r with brackets := [], expected := .nothing, document := some document }
    else none
  | innermost :: rest =>
    if innermost = b then some ({ r with brackets := rest }.finish .nested) else none

/-- Reads a name, which counts if it stands in the outermost object. -/
def readName (r : Reader) (name : Option String) : Reader :=
  match r.brackets with
  | [_] => { r with expected := .colon, name }
  | _ => { r with expected := .colon }

def step (r : Reader) (t : Token) : Option Reader :=
  match r.expected, t with
  | .value, .scalar v => some (r.scalar v)
  | .value, .opening b => some (r.opening b)
  | .valueOrClosing, .scalar v => some (r.scalar v)
  | .valueOrClosing, .opening b => some (r.opening b)
  | .valueOrClosing, .closing b => r.closing b
  | .name, .scalar (.string s) => some (r.readName s)
  | .nameOrClosing, .scalar (.string s) => some (r.readName s)
  | .nameOrClosing, .closing b => r.closing b
  | .colon, .colon => some { r with expected := .value }
  | .commaOrClosing, .closing b => r.closing b
  | .commaOrClosing, .comma =>
    match r.brackets with
    | .brace :: _ => some { r with expected := .name }
    | _ => some { r with expected := .value }
  | _, _ => none

end Reader

def read? (s : String) : Option Document := do
  (← (← tokens? s).foldlM Reader.step Reader.start).document

/-! ## Records -/

/-- The values for the fields of a record, from an object with some of the fields or an array with the
first of them. A field of an object may come once; other names are passed over. -/
def Document.fields? (names : List String) : Document → Option (List (Option Value))
  | .scalar _ => none
  | .array l =>
    if names.length < l.length then none
    else some (l.map some ++ List.replicate (names.length - l.length) none)
  | .object l =>
    if l.any (·.1.isNone) then none
    else names.mapM fun name =>
      match l.filter (·.1 = some name) with
      | [] => some none
      | [(_, v)] => some (some v)
      | _ => none

def Value.string? : Value → Option String
  | .scalar (.string s) => s
  | _ => none

def Value.natural? (bound : Nat) : Value → Option Nat
  | .scalar (.natural v) => if v < bound then some v else none
  | _ => none

/-- A field that takes a default where it is missing. -/
def orDefault {α : Type} (decode : Value → Option α) (default : α) : Option Value → Option α
  | none => some default
  | some v => decode v

/-! ## Writing -/

def escape (c : Char) : List Char :=
  if c = '"' || c = '\\' then ['\\', c]
  else if c.toNat = 0x8 then ['\\', 'b']
  else if c.toNat = 0x9 then ['\\', 't']
  else if c.toNat = 0xa then ['\\', 'n']
  else if c.toNat = 0xc then ['\\', 'f']
  else if c.toNat = 0xd then ['\\', 'r']
  else if c.toNat < 0x20 then
    ['\\', 'u', '0', '0', Quoted.digit (c.toNat / 16), Quoted.digit (c.toNat % 16)]
  else [c]

def quote (s : String) : String := String.ofList ('"' :: s.toList.flatMap escape ++ ['"'])

/-- An object from its names and the texts of its values. -/
def object (l : List (String × String)) : String :=
  "\x7b" ++ ",".intercalate (l.map fun f => quote f.1 ++ ":" ++ f.2) ++ "\x7d"

end WalletAuth.Json
