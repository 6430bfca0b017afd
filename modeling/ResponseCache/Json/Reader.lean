import ResponseCache.Json.Token

/-!
# Reading JSON

A stack of open arrays and objects takes the tokens one by one, so nesting is not limited.
-/
namespace ResponseCache.Json

/-- The tree of a document as read: `none` for a text that spells no string. -/
abbrev Document := Json (Option String)

/-- An array or object whose end is not yet seen, with its content last first. -/
inductive Open
  | array (items : List Document)
  | object (members : List (Option String × Document)) (name : Option String)

inductive Expect
  | value
  | valueOrClose
  | name (members : List (Option String × Document))
  | nameOrClose
  | colon (members : List (Option String × Document)) (name : Option String)
  | after (value : Document)

structure ReaderState where
  stack : List Open := []
  expect : Expect := .value

namespace ReaderState

def complete (s : ReaderState) (v : Document) : ReaderState := { s with expect := .after v }

/-- The start of a value. -/
def takeValue (s : ReaderState) : Token → Option ReaderState
  | .null => some (s.complete .null)
  | .bool b => some (s.complete (.bool b))
  | .number n => some (s.complete (.number n))
  | .text t => some (s.complete (.text t))
  | .openBracket => some ⟨.array [] :: s.stack, .valueOrClose⟩
  | .openBrace => some ⟨s.stack, .nameOrClose⟩
  | _ => none

def takeAfter (stack : List Open) (v : Document) (t : Token) : Option ReaderState :=
  match stack, t with
  | .array items :: stack, .comma => some ⟨.array (v :: items) :: stack, .value⟩
  | .array items :: stack, .closeBracket => some ⟨stack, .after (.array (v :: items).reverse)⟩
  | .object members name :: stack, .comma => some ⟨stack, .name ((name, v) :: members)⟩
  | .object members name :: stack, .closeBrace =>
    some ⟨stack, .after (.object ((name, v) :: members).reverse)⟩
  | _, _ => none

def take (s : ReaderState) (t : Token) : Option ReaderState :=
  match s.expect, t with
  | .value, t => s.takeValue t
  | .valueOrClose, .closeBracket => some ⟨s.stack.drop 1, .after (.array [])⟩
  | .valueOrClose, t => s.takeValue t
  | .name members, .text name => some ⟨s.stack, .colon members name⟩
  | .nameOrClose, .text name => some ⟨s.stack, .colon [] name⟩
  | .nameOrClose, .closeBrace => some ⟨s.stack, .after (.object [])⟩
  | .colon members name, .colon => some ⟨.object members name :: s.stack, .value⟩
  | .after v, t => takeAfter s.stack v t
  | _, _ => none

end ReaderState

def ofTokens? (ts : List Token) : Option Document := do
  let s ← ts.foldlM ReaderState.take {}
  match s.stack, s.expect with
  | [], .after v => some v
  | _, _ => none

/-- The document that a list of characters spells, `none` standing for undecodable bytes. -/
def read? (i : Input) : Option Document := do ofTokens? (← tokens i)

def ofText? (s : String) : Option Document := read? (s.toList.map some)

def ofBytes? (bs : Bytes) : Option Document := read? (Utf8.characters bs)

end ResponseCache.Json
