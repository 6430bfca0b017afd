/-!
# Decimal numerals

The parts of a number as it is written: sign, whole part, fraction digits and exponent.
-/
namespace ResponseCache

structure Numeral where
  negative : Bool := false
  whole : Nat
  /-- Digit by digit, empty when there is no point. -/
  fraction : List Nat := []
  exponent : Option Int := none
deriving DecidableEq

namespace Numeral

def ofNat (n : Nat) : Numeral := { whole := n }

def digit (n : Nat) : Char := Char.ofNat (0x30 + n)

/-- The sign of the exponent is always written. -/
def exponentText (e : Int) : List Char :=
  'e' :: (if e < 0 then '-' else '+') :: Nat.toDigits 10 e.natAbs

def text (n : Numeral) : List Char :=
  (if n.negative then ['-'] else []) ++ Nat.toDigits 10 n.whole ++
    (if n.fraction.isEmpty then [] else '.' :: n.fraction.map digit) ++
    match n.exponent with
    | none => []
    | some e => exponentText e

/-- The number as `coefficient * 10 ^ scale`, without its sign. -/
def coefficient (n : Numeral) : Nat := n.fraction.foldl (fun a d => a * 10 + d) n.whole

def scale (n : Numeral) : Int := n.exponent.getD 0 - n.fraction.length

/-- The value of a numeral that is a run of digits; `-0` is not. -/
def toNat? (n : Numeral) : Option Nat :=
  if n.negative || !n.fraction.isEmpty || n.exponent.isSome then none else some n.whole

@[simp] theorem toNat?_ofNat (n : Nat) : (ofNat n).toNat? = some n := rfl

end Numeral
end ResponseCache
