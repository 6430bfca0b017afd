import ResponseCache.Text.Utf8

/-! # Hexadecimal digits -/
namespace ResponseCache.Hex

def upperDigit (n : Nat) : Char := if n < 10 then Char.ofNat (0x30 + n) else Char.ofNat (0x37 + n)
def lowerDigit (n : Nat) : Char := if n < 10 then Char.ofNat (0x30 + n) else Char.ofNat (0x57 + n)

/-- The value of the character with code `n`, in either case. -/
def digitValue (n : Nat) : Option Nat :=
  if 0x30 ≤ n ∧ n ≤ 0x39 then some (n - 0x30)
  else if 0x41 ≤ n ∧ n ≤ 0x46 then some (n - 0x37)
  else if 0x61 ≤ n ∧ n ≤ 0x66 then some (n - 0x57)
  else none

/-- Two lower-case digits a byte. -/
def ofBytes (bs : Bytes) : List Char :=
  bs.flatMap fun b => [lowerDigit (b.toNat / 16), lowerDigit (b.toNat % 16)]

theorem digitValue_upperDigit {n : Nat} (h : n < 16) :
    digitValue (upperDigit n).toNat = some n := by
  have : ∀ n : Fin 16, digitValue (upperDigit n.1).toNat = some n.1 := by decide
  exact this ⟨n, h⟩

theorem digit_of_digitValue {n v : Nat} (h : digitValue n = some v) :
    0x30 ≤ n ∧ n ≤ 0x39 ∨ 0x41 ≤ n ∧ n ≤ 0x46 ∨ 0x61 ≤ n ∧ n ≤ 0x66 := by
  rw [digitValue] at h
  split at h
  · exact .inl ‹_›
  · split at h
    · exact .inr (.inl ‹_›)
    · split at h
      · exact .inr (.inr ‹_›)
      · cases h

theorem length_ofBytes (bs : Bytes) : (ofBytes bs).length = 2 * bs.length := by
  induction bs with
  | nil => rfl
  | cons b bs ih => simp [ofBytes] at ih ⊢; omega

end ResponseCache.Hex
