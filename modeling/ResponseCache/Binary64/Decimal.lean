import ResponseCache.Binary64.Basic
import ResponseCache.Json.Numeral

/-!
# Shortest decimals

A number is written with the fewest digits that read back as the same number, and of two such
decimals with the nearer one; half-way the even last digit is taken. Every candidate is tried by
reading it back.
-/
namespace ResponseCache.Binary64

/-- A decimal `coefficient * 10 ^ exponent`. -/
structure Decimal where
  coefficient : Nat
  exponent : Int
deriving DecidableEq

def Decimal.num (d : Decimal) : Nat := d.coefficient * 10 ^ d.exponent.toNat
def Decimal.den (d : Decimal) : Nat := 10 ^ (-d.exponent).toNat

def readsBack (x : Binary64) (d : Decimal) : Bool := nearest x.negative d.num d.den == x

/-- The exponent of the leading decimal digit of a magnitude that is not zero. -/
def leadingExponent (x : Binary64) : Int :=
  (Nat.toDigits 10 (x.units * 10 ^ 340 / unitsPerOne)).length - 341

/-- The decimals next to `x` below and above among the multiples of `10 ^ exponent`, nearer one
first. -/
def neighbours (x : Binary64) (exponent : Int) : List Decimal :=
  let num := x.units * 10 ^ (-exponent).toNat
  let den := unitsPerOne * 10 ^ exponent.toNat
  let below := num / den
  if roundQuotient num den = below then [⟨below, exponent⟩, ⟨below + 1, exponent⟩]
  else [⟨below + 1, exponent⟩, ⟨below, exponent⟩]

/-- All digits of `x`; a binary fraction has a finite decimal expansion. -/
def exactDecimal (x : Binary64) : Decimal := ⟨x.units * 5 ^ 1074, -1074⟩

def shortestDecimal (x : Binary64) : Decimal :=
  let leading := x.leadingExponent
  ((List.range 17).findSome? fun (more : Nat) =>
    (x.neighbours (leading - more)).find? x.readsBack).getD x.exactDecimal

/-- The digits of the shortest decimal without zeros at the end, and the exponent of the last
one. -/
def digits (x : Binary64) : List Nat × Int :=
  if x.isZero then ([0], 0)
  else
    let d := x.shortestDecimal
    let all := (Nat.toDigits 10 d.coefficient).map (·.toNat - 0x30)
    let kept := (all.reverse.dropWhile (· == 0)).reverse
    (kept, d.exponent + (all.length - kept.length : Nat))

/-- Which exponents of the leading digit are written without an exponent. -/
structure Layout where
  smallest : Int
  largest : Int

def wholeOf (ds : List Nat) : Nat := ds.foldl (fun a d => a * 10 + d) 0

/-- The places before the point and after it; a zero stands where either is empty. -/
def positional (ds : List Nat) (last : Int) : Nat × List Nat :=
  if 0 ≤ last then (wholeOf (ds ++ List.replicate last.toNat 0), [0])
  else
    let places := (-last).toNat
    if places < ds.length then
      (wholeOf (ds.take (ds.length - places)), ds.drop (ds.length - places))
    else (0, List.replicate (places - ds.length) 0 ++ ds)

/-- With a point, or with one digit before it and an exponent when the layout says so. -/
def numeral (layout : Layout) (x : Binary64) : Numeral :=
  let (ds, last) := x.digits
  let leading := last + ds.length - 1
  if layout.smallest ≤ leading ∧ leading ≤ layout.largest then
    let (whole, fraction) := positional ds last
    { negative := x.negative, whole, fraction }
  else
    { negative := x.negative, whole := ds.headD 0, fraction := ds.tail, exponent := some leading }

/-- Positional notation whatever the exponent, and no point in a whole number. -/
def plainText (x : Binary64) : String :=
  let (ds, last) := x.digits
  let (whole, fraction) := positional ds last
  String.ofList
    (Numeral.text { negative := x.negative, whole, fraction := if 0 ≤ last then [] else fraction })

end ResponseCache.Binary64
