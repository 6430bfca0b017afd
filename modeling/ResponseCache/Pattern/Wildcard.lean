import ResponseCache.Pattern.Matching

/-!
# Wildcards

The pattern dialect of key-value stores: `*` is any run of characters, `?` any one, a backslash
takes the next character literally, and `[...]` is one of a set. Every text is a pattern.
-/
namespace ResponseCache

namespace Wildcard

/-- Closed ranges, in either order of their ends. -/
abbrev CharSet := List (Char × Char)

inductive Token
  | literal (c : Char)
  | anyChar
  | anyRun
  | set (negated : Bool) (ranges : CharSet)
deriving DecidableEq

def CharSet.has (set : CharSet) (c : Char) : Bool :=
  set.any fun r => (r.1 ≤ c && c ≤ r.2) || (r.2 ≤ c && c ≤ r.1)

/-- A set that is not closed yet, with its ranges last first. -/
structure OpenSet where
  negated : Bool
  ranges : CharSet := []

def OpenSet.token (s : OpenSet) : Token := .set s.negated s.ranges.reverse

def OpenSet.push (s : OpenSet) (a b : Char) : OpenSet := { s with ranges := (a, b) :: s.ranges }

/-- The end of the pattern closes a set, and a backslash there is literal. -/
def readFrom : Option OpenSet → List Char → List Token
  | none, [] => []
  | some s, [] => [s.token]
  | some s, '\\' :: c :: cs => readFrom (some (s.push c c)) cs
  | some s, ']' :: cs => s.token :: readFrom none cs
  | some s, a :: '-' :: b :: cs => readFrom (some (s.push a b)) cs
  | some s, c :: cs => readFrom (some (s.push c c)) cs
  | none, '*' :: cs => .anyRun :: readFrom none cs
  | none, '?' :: cs => .anyChar :: readFrom none cs
  | none, '[' :: '^' :: cs => readFrom (some { negated := true }) cs
  | none, '[' :: cs => readFrom (some { negated := false }) cs
  | none, '\\' :: c :: cs => .literal c :: readFrom none cs
  | none, c :: cs => .literal c :: readFrom none cs

def read (pattern : String) : List Token := readFrom none pattern.toList

def Token.step : Token → Pattern.Step
  | .literal a => .one (· == a)
  | .anyChar => .one fun _ => true
  | .anyRun => .run fun _ => true
  | .set negated ranges => .one fun c => CharSet.has ranges c != negated

/-- Whether a pattern stands for a whole text. -/
def isMatch (pattern text : String) : Bool :=
  Pattern.isMatch ((read pattern).map Token.step) text.toList

def isSpecial (c : Char) : Bool := c == '*' || c == '?' || c == '[' || c == ']' || c == '\\'

/-- The pattern that stands for one text only. -/
def escape (s : String) : String :=
  String.ofList (s.toList.flatMap fun c => if isSpecial c then ['\\', c] else [c])

end Wildcard
end ResponseCache
