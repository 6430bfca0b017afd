import ResponseCache.Json.Value
import ResponseCache.Text.Utf8
import ResponseCache.Text.Hex

/-!
# The tokens of a JSON text

The input is a list of characters in which `none` stands for bytes that spell no character. They are
allowed between quotes, where they leave the text unspelt, and nowhere else.
-/
namespace ResponseCache.Json

inductive Token
  | openBrace | closeBrace | openBracket | closeBracket | colon | comma
  | null
  | bool (value : Bool)
  | number (value : Numeral)
  | text (value : Option String)

abbrev Input := List (Option Char)

/-- What stands between quotes: characters, code units written as escapes, and undecodable parts. -/
inductive Piece | char (c : Char) | unit (n : Nat) | undecodable

/-- Joins the surrogate pairs; a surrogate on its own spells nothing. -/
def spell : List Piece → Option (List Char)
  | [] => some []
  | .char c :: ps => (spell ps).map (c :: ·)
  | .undecodable :: _ => none
  | .unit n :: ps =>
    if n < 0xd800 ∨ 0xe000 ≤ n then (spell ps).map (Char.ofNat n :: ·)
    else if n < 0xdc00 then match ps with
      | .unit m :: qs =>
        if 0xdc00 ≤ m ∧ m < 0xe000 then
          (spell qs).map (Char.ofNat (0x10000 + (n - 0xd800) * 0x400 + (m - 0xdc00)) :: ·)
        else none
      | _ => none
    else none

/-- The character that a one-letter escape stands for. -/
def shortEscape : Char → Option Char
  | '"' => some '"'
  | '\\' => some '\\'
  | '/' => some '/'
  | 'b' => some '\x08'
  | 'f' => some '\x0c'
  | 'n' => some '\n'
  | 'r' => some '\r'
  | 't' => some '\t'
  | _ => none

def hexUnit (a b c d : Option Char) : Option Nat := do
  let a ← Hex.digitValue (← a).toNat
  let b ← Hex.digitValue (← b).toNat
  let c ← Hex.digitValue (← c).toNat
  let d ← Hex.digitValue (← d).toNat
  some (((a * 16 + b) * 16 + c) * 16 + d)

/-- Reads up to the closing quote. The pieces come out last first, in front of `done`. -/
def scanText (done : List Piece) : Input → Option (List Piece × Input)
  | [] => none
  | some '"' :: rest => some (done, rest)
  | some '\\' :: some 'u' :: a :: b :: c :: d :: rest => do
    scanText (.unit (← hexUnit a b c d) :: done) rest
  | some '\\' :: some c :: rest => do scanText (.char (← shortEscape c) :: done) rest
  | some c :: rest => if c.toNat < 0x20 ∨ c = '\\' then none else scanText (.char c :: done) rest
  | none :: rest => scanText (.undecodable :: done) rest

def isDigit : Option Char → Bool
  | some c => c.isDigit
  | none => false

def digitsOf (i : Input) : List Nat := i.map fun c => (c.getD '0').toNat - 0x30

def valueOf (i : Input) : Nat := (digitsOf i).foldl (fun a d => a * 10 + d) 0

/-- One zero, or a run of digits that does not start with one. -/
def scanWhole (i : Input) : Option (Nat × Input) :=
  match i with
  | some '0' :: rest => some (0, rest)
  | _ =>
    let ds := i.takeWhile isDigit
    if ds.isEmpty then none else some (valueOf ds, i.dropWhile isDigit)

/-- A point needs a digit after it. -/
def scanFraction (i : Input) : Option (List Nat × Input) :=
  match i with
  | some '.' :: rest =>
    let ds := rest.takeWhile isDigit
    if ds.isEmpty then none else some (digitsOf ds, rest.dropWhile isDigit)
  | _ => some ([], i)

def scanExponent (i : Input) : Option (Option Int × Input) :=
  match i with
  | some e :: rest =>
    if e = 'e' ∨ e = 'E' then
      let (negative, rest) := match rest with
        | some '-' :: rest => (true, rest)
        | some '+' :: rest => (false, rest)
        | _ => (false, rest)
      let ds := rest.takeWhile isDigit
      if ds.isEmpty then none
      else some (some (if negative then -(valueOf ds : Int) else valueOf ds),
        rest.dropWhile isDigit)
    else some (none, i)
  | _ => some (none, i)

def scanNumeral (i : Input) : Option (Numeral × Input) := do
  let (negative, i) := match i with
    | some '-' :: rest => (true, rest)
    | _ => (false, i)
  let (whole, i) ← scanWhole i
  let (fraction, i) ← scanFraction i
  let (exponent, i) ← scanExponent i
  some ({ negative, whole, fraction, exponent }, i)

/-- The token at the start of the input, which is not blank there. -/
def scanToken (i : Input) : Option (Token × Input) :=
  match i with
  | some '{' :: rest => some (.openBrace, rest)
  | some '}' :: rest => some (.closeBrace, rest)
  | some '[' :: rest => some (.openBracket, rest)
  | some ']' :: rest => some (.closeBracket, rest)
  | some ':' :: rest => some (.colon, rest)
  | some ',' :: rest => some (.comma, rest)
  | some '"' :: rest => do
    let (pieces, rest) ← scanText [] rest
    some (.text ((spell pieces.reverse).map String.ofList), rest)
  | some 'n' :: some 'u' :: some 'l' :: some 'l' :: rest => some (.null, rest)
  | some 't' :: some 'r' :: some 'u' :: some 'e' :: rest => some (.bool true, rest)
  | some 'f' :: some 'a' :: some 'l' :: some 's' :: some 'e' :: rest => some (.bool false, rest)
  | _ => (scanNumeral i).map fun (n, rest) => (.number n, rest)

def isSpace : Option Char → Bool
  | some c => c = ' ' || c = '\n' || c = '\t' || c = '\r'
  | none => false

/-- A token takes at least one character, so the length of the input bounds their number. -/
def tokensWithin : Nat → Input → Option (List Token)
  | 0, i => if i.isEmpty then some [] else none
  | bound + 1, i =>
    let i := i.dropWhile isSpace
    if i.isEmpty then some []
    else do
      let (t, rest) ← scanToken i
      let ts ← tokensWithin bound rest
      some (t :: ts)

def tokens (i : Input) : Option (List Token) := tokensWithin i.length i

end ResponseCache.Json
