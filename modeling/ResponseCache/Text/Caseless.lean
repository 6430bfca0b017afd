/-! # Names that differ in ASCII letter case only -/
namespace ResponseCache.Text

/-- Lower-cases `A` to `Z`; every other character, letters outside ASCII included, stays. -/
def lower (s : String) : List Char := s.toList.map Char.toLower

def upper (s : String) : List Char := s.toList.map Char.toUpper

def sameName (a b : String) : Bool := lower a == lower b

theorem sameName_iff {a b : String} : sameName a b = true ↔ lower a = lower b := by simp [sameName]

@[simp] theorem sameName_self (a : String) : sameName a a = true := by simp [sameName]

theorem sameName_comm (a b : String) : sameName a b = sameName b a := by
  rw [Bool.eq_iff_iff, sameName_iff, sameName_iff]; exact eq_comm

theorem sameName_trans {a b c : String} (h : sameName a b = true) (h' : sameName b c = true) :
    sameName a c = true := by rw [sameName_iff] at *; exact h.trans h'

/-- Names that agree up to case are told apart from a third name alike. -/
theorem sameName_congr {a b : String} (h : sameName a b = true) (c : String) :
    sameName a c = sameName b c := by rw [sameName_iff] at h; simp [sameName, h]

end ResponseCache.Text
