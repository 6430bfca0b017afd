import ResponseCache.Pattern.Matching

/-!
# Path patterns

Patterns over whole keys: `?` is one character, `*` any run of them, `[...]` and `[!...]` one in or
not in a set, and `**` as a whole path component stands for any number of components.
-/
namespace ResponseCache

namespace PathPattern

/-- Single characters and closed ranges. -/
abbrev CharSet := List (Char × Char)

inductive Token
  | literal (c : Char)
  | anyChar
  | anyRun
  | anyComponents
  | inSet (set : CharSet)
  | notInSet (set : CharSet)
deriving DecidableEq

inductive Fault | stars | recursiveStars | unclosedSet
deriving DecidableEq

def Fault.message : Fault → String
  | stars => "wildcards are either regular `*` or recursive `**`"
  | recursiveStars => "recursive wildcards must form a single path component"
  | unclosedSet => "invalid range pattern"

/-- A fault and the place in the pattern where it shows, counted in characters. -/
structure Error where
  place : Nat
  fault : Fault
deriving DecidableEq

def Error.message (e : Error) : String :=
  s!"Pattern syntax error near position {e.place}: {e.fault.message}"

/-- Three characters with a dash in the middle are a range. -/
def charSet : List Char → CharSet
  | a :: '-' :: b :: cs => (a, b) :: charSet cs
  | c :: cs => (c, c) :: charSet cs
  | [] => []

def CharSet.has (set : CharSet) (c : Char) : Bool :=
  set.any fun r => r.1 ≤ c && c ≤ r.2

/-- Inside a set: where it was opened, whether it is negated, and its characters last first. -/
structure OpenSet where
  place : Nat
  negated : Bool
  chars : List Char

def OpenSet.token (s : OpenSet) : Token :=
  if s.negated then .notInSet (charSet s.chars.reverse) else .inSet (charSet s.chars.reverse)

/-- Reads from place `i`; `previous` is the character before it. The first character of a set never
closes it. -/
def readFrom (i : Nat) (previous : Option Char) :
    Option OpenSet → List Char → Except Error (List Token)
  | none, [] => .ok []
  | some s, [] => .error ⟨s.place, .unclosedSet⟩
  | some s, c :: cs =>
    if c = ']' then do .ok (s.token :: (← readFrom (i + 1) (some c) none cs))
    else readFrom (i + 1) (some c) (some { s with chars := c :: s.chars }) cs
  | none, '*' :: '*' :: '*' :: _ => .error ⟨i + 2, .stars⟩
  | none, '*' :: '*' :: cs =>
    if previous = none ∨ previous = some '/' then match cs with
      | [] => .ok [.anyComponents]
      | c :: cs =>
        if c = '/' then do .ok (.anyComponents :: (← readFrom (i + 3) (some c) none cs))
        else .error ⟨i + 2, .recursiveStars⟩
    else .error ⟨i - 1, .recursiveStars⟩
  | none, '[' :: '!' :: c :: cs => readFrom (i + 3) (some c) (some ⟨i, true, [c]⟩) cs
  | none, '[' :: c :: cs =>
    if c = '!' then .error ⟨i, .unclosedSet⟩
    else readFrom (i + 2) (some c) (some ⟨i, false, [c]⟩) cs
  | none, '[' :: [] => .error ⟨i, .unclosedSet⟩
  | none, '*' :: cs => do .ok (.anyRun :: (← readFrom (i + 1) (some '*') none cs))
  | none, '?' :: cs => do .ok (.anyChar :: (← readFrom (i + 1) (some '?') none cs))
  | none, c :: cs => do .ok (.literal c :: (← readFrom (i + 1) (some c) none cs))

def read (pattern : String) : Except Error (List Token) := readFrom 0 none none pattern.toList

/-- Whole components end after a slash or with the text. -/
def Token.step : Token → Pattern.Step
  | .literal a => .one (· == a)
  | .anyChar => .one fun _ => true
  | .anyRun => .run fun _ => true
  | .anyComponents => .run (· == '/')
  | .inSet set => .one (CharSet.has set)
  | .notInSet set => .one (!CharSet.has set ·)

/-- Whether tokens stand for a whole text. -/
def isMatch (ts : List Token) (text : String) : Bool :=
  Pattern.isMatch (ts.map Token.step) text.toList

end PathPattern
end ResponseCache
