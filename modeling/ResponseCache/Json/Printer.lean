import ResponseCache.Json.Value
import ResponseCache.Text.Hex
import ResponseCache.Binary64.Decimal

/-!
# Writing JSON

Compact text has no blanks. Indented text has one member or item a line, two spaces a level, and
closes an empty array or object at once.
-/
namespace ResponseCache.Json

/-- Below a hundred-thousandth and from ten to the sixteenth on a double has an exponent. -/
def doubleLayout : Binary64.Layout := ⟨-5, 15⟩

def double {τ : Type} (x : Binary64) : Json τ := .number (x.numeral doubleLayout)

/-- The quote, the backslash and the characters below U+0020 are escaped and nothing else is. -/
def escapeChar (c : Char) : List Char :=
  if c = '"' then ['\\', '"'] else if c = '\\' then ['\\', '\\']
  else if c.toNat < 0x20 then
    match c.toNat with
    | 0x08 => ['\\', 'b']
    | 0x09 => ['\\', 't']
    | 0x0a => ['\\', 'n']
    | 0x0c => ['\\', 'f']
    | 0x0d => ['\\', 'r']
    | n => ['\\', 'u', '0', '0', Hex.lowerDigit (n / 16), Hex.lowerDigit (n % 16)]
  else [c]

def quoted (s : String) : List Char := '"' :: (s.toList.flatMap escapeChar ++ ['"'])

def word : Bool → List Char
  | true => ['t', 'r', 'u', 'e']
  | false => ['f', 'a', 'l', 's', 'e']

mutual
def compact : Json String → List Char
  | .null => ['n', 'u', 'l', 'l']
  | .bool b => word b
  | .number n => n.text
  | .text s => quoted s
  | .array [] => ['[', ']']
  | .array (j :: js) => '[' :: (j.compact ++ compactItems js ++ [']'])
  | .object [] => ['{', '}']
  | .object ((name, j) :: ms) =>
    '{' :: (quoted name ++ ':' :: j.compact ++ compactMembers ms ++ ['}'])

def compactItems : List (Json String) → List Char
  | [] => []
  | j :: js => ',' :: (j.compact ++ compactItems js)

def compactMembers : List (String × Json String) → List Char
  | [] => []
  | (name, j) :: ms => ',' :: (quoted name ++ ':' :: j.compact ++ compactMembers ms)
end

def newline (level : Nat) : List Char := '\n' :: List.replicate (2 * level) ' '

mutual
def indented (level : Nat) : Json String → List Char
  | .null => ['n', 'u', 'l', 'l']
  | .bool b => word b
  | .number n => n.text
  | .text s => quoted s
  | .array [] => ['[', ']']
  | .array (j :: js) =>
    '[' :: (newline (level + 1) ++ j.indented (level + 1) ++ indentedItems level js ++
      newline level ++ [']'])
  | .object [] => ['{', '}']
  | .object ((name, j) :: ms) =>
    '{' :: (newline (level + 1) ++ quoted name ++ ':' :: ' ' :: j.indented (level + 1) ++
      indentedMembers level ms ++ newline level ++ ['}'])

def indentedItems (level : Nat) : List (Json String) → List Char
  | [] => []
  | j :: js => ',' :: (newline (level + 1) ++ j.indented (level + 1) ++ indentedItems level js)

def indentedMembers (level : Nat) : List (String × Json String) → List Char
  | [] => []
  | (name, j) :: ms =>
    ',' :: (newline (level + 1) ++ quoted name ++ ':' :: ' ' :: j.indented (level + 1) ++
      indentedMembers level ms)
end

end ResponseCache.Json
