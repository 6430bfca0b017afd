import ResponseCache.Message.Request

/-!
# Request heads on the wire

The bytes are read from left to right. The first bad byte decides the error, and a head that ends
early is incomplete.
-/
namespace ResponseCache

inductive HeadError
  | incomplete | headerName | headerValue | newLine | token | tooManyHeaders | version
deriving DecidableEq

namespace HeadError

def cause : HeadError → Option String
  | incomplete => none
  | headerName => some "invalid header name"
  | headerValue => some "invalid header value"
  | newLine => some "invalid new line"
  | token => some "invalid token"
  | tooManyHeaders => some "too many headers"
  | version => some "invalid HTTP version"

def message (e : HeadError) : String :=
  match e.cause with
  | none => "request head is incomplete"
  | some cause => s!"HTTP parse error: {cause}"

end HeadError

namespace Head

/-- Letters, digits and `!#$%&'*+-.^_|~` with the backquote. -/
def isTokenByte (b : UInt8) : Bool :=
  let n := b.toNat
  (0x30 ≤ n && n ≤ 0x39) || (0x41 ≤ n && n ≤ 0x5a) || (0x61 ≤ n && n ≤ 0x7a) || n == 0x21 ||
    (0x23 ≤ n && n ≤ 0x27) || n == 0x2a || n == 0x2b || n == 0x2d || n == 0x2e || n == 0x5e ||
    n == 0x5f || n == 0x60 || n == 0x7c || n == 0x7e

def isTargetByte (b : UInt8) : Bool := 0x20 < b.toNat && b.toNat != 0x7f

def isValueByte (b : UInt8) : Bool := b.toNat == 0x9 || (0x20 ≤ b.toNat && b.toNat != 0x7f)

def isBlankByte (b : UInt8) : Bool := b.toNat == 0x20 || b.toNat == 0x9

/-- The rest after a line end, if the input starts with one. -/
def lineEnd (otherwise : HeadError) : Bytes → Except HeadError Bytes
  | [] => .error .incomplete
  | b :: bs =>
    if b = 0x0a then .ok bs
    else if b = 0x0d then match bs with
      | [] => .error .incomplete
      | c :: cs => if c = 0x0a then .ok cs else .error otherwise
    else .error otherwise

/-- Drops the empty lines in front of a head. -/
def skipEmptyLines : Bytes → Except HeadError Bytes
  | [] => .error .incomplete
  | [b] => if b = 0x0a ∨ b = 0x0d then .error .incomplete else .ok [b]
  | b :: c :: bs =>
    if b = 0x0a then skipEmptyLines (c :: bs)
    else if b = 0x0d then if c = 0x0a then skipEmptyLines bs else .error .newLine
    else .ok (b :: c :: bs)

/-- A run of one or more bytes of a kind with a space after it. -/
def word (kind : UInt8 → Bool) (bs : Bytes) : Except HeadError (Bytes × Bytes) :=
  match bs.takeWhile kind, bs.dropWhile kind with
  | _, [] => .error .incomplete
  | [], _ => .error .token
  | w, b :: rest => if b = 0x20 then .ok (w, rest) else .error .token

def versionStem : Bytes := [0x48, 0x54, 0x54, 0x50, 0x2f, 0x31, 0x2e]

/-- `HTTP/1.0` or `HTTP/1.1`. Fewer than eight bytes are only checked against what the two share. -/
def version (bs : Bytes) : Except HeadError Bytes :=
  if 8 ≤ bs.length then
    if bs.take 7 = versionStem ∧ (bs.drop 7).head?.any (fun b => b = 0x30 ∨ b = 0x31) then
      .ok (bs.drop 8)
    else .error .version
  else if bs.isPrefixOf versionStem then .error .incomplete else .error .version

/-- A name and its value without the blanks around it. -/
def field (bs : Bytes) : Except HeadError ((Bytes × Bytes) × Bytes) :=
  match bs.takeWhile isTokenByte, bs.dropWhile isTokenByte with
  | _, [] => .error .incomplete
  | [], _ => .error .headerName
  | name, b :: rest =>
    if b = 0x3a then
      let rest := rest.dropWhile isBlankByte
      let value := ((rest.takeWhile isValueByte).reverse.dropWhile isBlankByte).reverse
      match lineEnd .headerValue (rest.dropWhile isValueByte) with
      | .ok rest => .ok ((name, value), rest)
      | .error e => .error e
    else .error .headerName

def startsLineEnd : Bytes → Bool
  | b :: _ => b = 0x0a || b = 0x0d
  | [] => false

/-- The fields up to the empty line; a field is read before it is found to be one too many. -/
def readFields : Nat → Bytes → Except HeadError (List (Bytes × Bytes))
  | slots, bs =>
    if startsLineEnd bs then match lineEnd .newLine bs with
      | .ok _ => .ok []
      | .error e => .error e
    else match field bs with
      | .error e => .error e
      | .ok (f, rest) => match slots with
        | 0 => .error .tooManyHeaders
        | slots + 1 => match readFields slots rest with
          | .ok fs => .ok (f :: fs)
          | .error e => .error e

def maxFields : Nat := 64

end Head

/-- A head in its parts. Only the target is text yet. -/
structure Head where
  method : Bytes
  target : List Char
  fields : List (Bytes × Bytes)

namespace Head

/-- What follows the head is not looked at. -/
def ofBytes (bs : Bytes) : Except HeadError Head := do
  let bs ← skipEmptyLines bs
  let (method, bs) ← word isTokenByte bs
  let (target, bs) ← word isTargetByte bs
  let some target := Utf8.decode? target | .error .token
  let bs ← version bs
  let bs ← lineEnd .newLine bs
  .ok { method, target, fields := ← readFields maxFields bs }

/-- The text of ASCII bytes. -/
def ascii (bs : Bytes) : String := String.ofList (bs.map fun b => Char.ofNat b.toNat)

/-- A field whose value is not UTF-8 is left out. -/
def headers (h : Head) : Headers :=
  ⟨h.fields.filterMap fun (name, value) =>
    (Utf8.decode? value).map fun v => (ascii name, String.ofList v)⟩

/-- The path ends at the first question mark, and the query starts after it. -/
def pathAndQuery (h : Head) : List Char × List Char :=
  (Text.splitOnce '?' h.target).getD (h.target, [])

/-- The host is the first Host field. -/
def request (h : Head) : Request where
  method := Method.ofText (ascii h.method)
  host := (h.headers.get? "host").getD ""
  path := String.ofList h.pathAndQuery.1
  query := Query.read h.pathAndQuery.2
  headers := h.headers

end Head

def Request.ofBytes (bs : Bytes) : Except HeadError Request := (Head.ofBytes bs).map Head.request

end ResponseCache
