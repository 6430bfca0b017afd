import ResponseCache.Time.Instant

/-!
# Double-precision numbers

A number is a sign, a significand of at most 53 bits and a binary exponent, and stands for
`significand * 2 ^ exponent / 2 ^ 1074`. Arithmetic is exact and rounded once, to the nearest number
and to the even significand half-way. The type has no largest exponent: `isFinite` tells the numbers
that a 64-bit word can hold.
-/
namespace ResponseCache

/-- Each value has one significand and exponent: a short significand goes with exponent zero. -/
def Canonical (significand exponent : Nat) : Prop :=
  significand < 2 ^ 53 ∧ (exponent = 0 ∨ 2 ^ 52 ≤ significand)

instance (m e : Nat) : Decidable (Canonical m e) := by unfold Canonical; infer_instance

@[ext] structure Binary64 where
  negative : Bool
  significand : Nat
  exponent : Nat
  canonical : Canonical significand exponent
deriving DecidableEq

namespace Binary64

def isFinite (x : Binary64) : Bool := x.exponent ≤ 2045

def isZero (x : Binary64) : Bool := x.significand == 0

/-- The magnitude in units of `2 ^ -1074`. -/
def units (x : Binary64) : Nat := x.significand * 2 ^ x.exponent

def unitsPerOne : Nat := 2 ^ 1074

/-- The quotient to the nearest whole number, half-way to the even one. -/
def roundQuotient (num den : Nat) : Nat :=
  let q := num / den
  let r := num % den
  if 2 * r < den then q else if den < 2 * r then q + 1 else q + q % 2

/-- The exponent that leaves a whole part of `q` with 53 bits, or none to drop. -/
def exponentFor (q : Nat) : Nat := if q < 2 ^ 53 then 0 else q.log2 - 52

theorem roundQuotient_le {num den b : Nat} (h : num < den * b) : roundQuotient num den ≤ b := by
  have hq : num / den < b := Nat.div_lt_of_lt_mul h
  unfold roundQuotient
  simp only
  split
  · omega
  · split <;> omega

theorem le_roundQuotient {num den b : Nat} (hd : 0 < den) (h : den * b ≤ num) :
    b ≤ roundQuotient num den := by
  have hq : b ≤ num / den := (Nat.le_div_iff_mul_le hd).mpr (by rw [Nat.mul_comm]; exact h)
  unfold roundQuotient
  simp only
  split
  · omega
  · split <;> omega

/-- The significand of `num / den` units at the exponent that fits it, before a carry. -/
def significandOf (num den : Nat) : Nat := roundQuotient num (den * 2 ^ exponentFor (num / den))

theorem significandOf_bounds {num den : Nat} (hd : 0 < den) :
    significandOf num den ≤ 2 ^ 53 ∧
      (exponentFor (num / den) = 0 ∨ 2 ^ 52 ≤ significandOf num den) := by
  unfold significandOf exponentFor
  by_cases hq : num / den < 2 ^ 53
  · simp only [hq, if_true]
    refine ⟨roundQuotient_le ?_, .inl trivial⟩
    have := Nat.lt_mul_of_div_lt hq hd
    rwa [Nat.pow_zero, Nat.mul_one, Nat.mul_comm]
  · simp only [hq, if_false]
    have hne : num / den ≠ 0 := by omega
    have hlo := Nat.log2_self_le hne
    have hhi : num / den < 2 ^ ((num / den).log2 + 1) := Nat.lt_log2_self
    have h53 : 53 ≤ (num / den).log2 := by
      rcases Nat.lt_or_ge (num / den).log2 53 with h | h
      · have : (2 : Nat) ^ ((num / den).log2 + 1) ≤ 2 ^ 53 :=
          Nat.pow_le_pow_right (by omega) (by omega)
        omega
      · exact h
    generalize (num / den).log2 = l at *
    have e1 : (2 : Nat) ^ (l + 1) = 2 ^ (l - 52) * 2 ^ 53 := by rw [← Nat.pow_add]; congr 1; omega
    have e2 : (2 : Nat) ^ l = 2 ^ (l - 52) * 2 ^ 52 := by rw [← Nat.pow_add]; congr 1; omega
    constructor
    · apply roundQuotient_le
      rw [Nat.mul_assoc, ← e1]
      have := Nat.lt_mul_of_div_lt hhi hd
      rwa [Nat.mul_comm] at this
    · right
      apply le_roundQuotient (Nat.mul_pos hd (Nat.pow_pos (by omega)))
      rw [Nat.mul_assoc, ← e2]
      have := (Nat.le_div_iff_mul_le hd).mp hlo
      rwa [Nat.mul_comm] at this

/-- The number nearest to `num / den` units; a zero denominator gives zero. -/
def nearestUnits (negative : Bool) (num den : Nat) : Binary64 :=
  if hd : 0 < den then
    if h : significandOf num den = 2 ^ 53 then
      ⟨negative, 2 ^ 52, exponentFor (num / den) + 1, by decide, .inr (by decide)⟩
    else
      ⟨negative, significandOf num den, exponentFor (num / den),
        Nat.lt_of_le_of_ne (significandOf_bounds hd).1 h, (significandOf_bounds hd).2⟩
  else ⟨negative, 0, 0, by decide, .inl rfl⟩

/-- The number nearest to a ratio. -/
def nearest (negative : Bool) (num den : Nat) : Binary64 :=
  nearestUnits negative (num * unitsPerOne) den

def zero : Binary64 := ⟨false, 0, 0, by decide, .inl rfl⟩

instance : Inhabited Binary64 := ⟨zero⟩

/-- The sum of two magnitudes. -/
def add (x y : Binary64) : Binary64 := nearestUnits false (x.units + y.units) 1

/-- Whole seconds and the fraction of a second are rounded apart and then added. -/
def ofDuration (d : Duration) : Binary64 :=
  add (nearest false d.seconds 1) (nearest false d.subseconds nanosPerSecond)

/-- The number nearest to `coefficient * 10 ^ exponent`, rounded exactly. A reader that is quick
rather than exact can be one unit off in the last place where a fraction is long, and gives the same
for whole numbers of seconds. Exponents that leave no doubt are not computed. -/
def ofDecimal (negative : Bool) (coefficient : Nat) (exponent : Int) : Option Binary64 :=
  let digits := (Nat.toDigits 10 coefficient).length
  if coefficient = 0 ∨ exponent + digits < -330 then some ⟨negative, 0, 0, by decide, .inl rfl⟩
  else if 310 < exponent + digits then none
  else
    let x := if 0 ≤ exponent then nearest negative (coefficient * 10 ^ exponent.toNat) 1
      else nearest negative coefficient (10 ^ (-exponent).toNat)
    if x.isFinite then some x else none

/-- Seconds, to the nearest nanosecond and half-way to the even one. -/
def nanoseconds (x : Binary64) : Nat := roundQuotient (x.units * nanosPerSecond) unitsPerOne

end Binary64
end ResponseCache
