import ResponseCache.Binary64.Decimal
import ResponseCache.Proofs.Rounding

/-!
# Doubles read back from their decimals

The numeral that a finite double is written with is read as the same double, for every double and
every layout. The shortest decimal is one that reads back by its choice; taking zeros off its end
and setting the point changes the decimal and not the ratio.
-/
namespace ResponseCache.Binary64

theorem foldl_digits (ds : List Nat) (start : Nat) :
    ds.foldl (fun a d => a * 10 + d) start = start * 10 ^ ds.length + wholeOf ds := by
  induction ds generalizing start with
  | nil => simp [wholeOf]
  | cons d ds ih =>
    have hzero : wholeOf (d :: ds) = ds.foldl (fun a d => a * 10 + d) d := by simp [wholeOf]
    rw [List.foldl_cons, ih, hzero, ih d, List.length_cons, Nat.pow_succ, Nat.add_mul,
      Nat.mul_assoc, Nat.mul_comm 10, Nat.add_assoc]

theorem wholeOf_append (ds es : List Nat) :
    wholeOf (ds ++ es) = wholeOf ds * 10 ^ es.length + wholeOf es := by
  rw [wholeOf, List.foldl_append]
  exact foldl_digits es (wholeOf ds)

theorem wholeOf_replicate (n : Nat) : wholeOf (List.replicate n 0) = 0 := by
  induction n with
  | zero => rfl
  | succ n ih => rw [List.replicate_succ']; rw [wholeOf_append, ih]; rfl

theorem wholeOf_toDigits (n : Nat) : wholeOf ((Nat.toDigits 10 n).map (·.toNat - 0x30)) = n := by
  have h := Nat.ofDigitChars_ten_toDigits (n := n)
  simp only [Nat.ofDigitChars_eq_foldl, Nat.mul_comm 10] at h
  rw [wholeOf, List.foldl_map]
  exact h

theorem toDigits_lt_ten (n : Nat) : ∀ d ∈ (Nat.toDigits 10 n).map (·.toNat - 0x30), d < 10 := by
  intro d hd
  obtain ⟨c, hc, rfl⟩ := List.mem_map.mp hd
  have hdigit : c.isDigit = true := Nat.isDigit_of_mem_toDigits (by decide) (by decide) hc
  simp only [Char.isDigit, Bool.and_eq_true, decide_eq_true_eq] at hdigit
  have hhigh : c.toNat ≤ 57 := hdigit.2
  omega

theorem lt_pow_length (n : Nat) : n < 10 ^ (Nat.toDigits 10 n).length :=
  (Nat.length_toDigits_le_iff (by decide) Nat.length_toDigits_pos).mp (Nat.le_refl _)

theorem pow_length_le {n : Nat} (h : n ≠ 0) : 10 ^ ((Nat.toDigits 10 n).length - 1) ≤ n := by
  by_cases hone : (Nat.toDigits 10 n).length - 1 = 0
  · rw [hone]
    exact Nat.one_le_iff_ne_zero.mpr h
  · refine Nat.le_of_not_lt fun hlt => ?_
    have hlength :=
      (Nat.length_toDigits_le_iff (b := 10) (by decide) (Nat.pos_of_ne_zero hone)).mpr hlt
    omega

def Decimal.extend (d : Decimal) (k : Nat) : Decimal := ⟨d.coefficient * 10 ^ k, d.exponent - k⟩

theorem Decimal.den_pos (d : Decimal) : 0 < d.den := Nat.pow_pos (by decide)

theorem readsBack_iff {x : Binary64} {d : Decimal} :
    x.readsBack d = true ↔ nearest x.negative d.num d.den = x :=
  beq_iff_eq

@[simp] theorem readsBack_extend (x : Binary64) (d : Decimal) (k : Nat) :
    x.readsBack (d.extend k) = x.readsBack d := by
  have hratio : (d.extend k).num * d.den = d.num * (d.extend k).den := by
    simp only [Decimal.num, Decimal.den, Decimal.extend, Nat.mul_assoc, ← Nat.pow_add]
    congr 2
    omega
  rw [readsBack, nearest_congr (Decimal.den_pos _) d.den_pos hratio]
  rfl

private theorem mul_five_pow (u n : Nat) : u * 5 ^ n * 2 ^ n = 10 ^ n * u := by
  rw [Nat.mul_assoc, ← Nat.mul_pow, Nat.mul_comm]

theorem readsBack_exactDecimal (x : Binary64) : x.readsBack x.exactDecimal = true := by
  have hwhole : (-1074 : Int).toNat = 0 := rfl
  have hplaces : (- -1074 : Int).toNat = 1074 := rfl
  have hnum : x.exactDecimal.num * unitsPerOne = x.exactDecimal.den * x.units := by
    rw [Decimal.num, Decimal.den, exactDecimal, unitsPerOne, hwhole, hplaces, Nat.pow_zero,
      Nat.mul_one]
    exact mul_five_pow x.units 1074
  rw [readsBack_iff, nearest, hnum]
  exact nearestUnits_units x (Decimal.den_pos _)

theorem readsBack_shortestDecimal (x : Binary64) : x.readsBack x.shortestDecimal = true := by
  unfold shortestDecimal
  simp only
  cases h : (List.range 17).findSome? _ with
  | none => exact readsBack_exactDecimal x
  | some d =>
    obtain ⟨more, -, hd⟩ := List.exists_of_findSome?_eq_some h
    exact List.find?_some hd

theorem eq_of_isZero {x : Binary64} (h : x.isZero = true) :
    x = ⟨x.negative, 0, 0, by decide, .inl rfl⟩ := by
  have hm : x.significand = 0 := beq_iff_eq.mp h
  have he : x.exponent = 0 := by
    rcases x.canonical.2 with he | he
    · exact he
    · rw [hm] at he
      exact absurd he (by decide)
  exact Binary64.ext rfl hm he

/-- Zeros at the end of a list of digits stand for a power of ten. -/
theorem eq_strip_append (ds : List Nat) :
    ∃ k, ds = (ds.reverse.dropWhile (· == 0)).reverse ++ List.replicate k 0 := by
  have hzeros : ds.reverse.takeWhile (· == 0) =
      List.replicate (ds.reverse.takeWhile (· == 0)).length 0 := by
    refine List.eq_replicate_of_mem fun d hd => ?_
    exact beq_iff_eq.mp (List.all_eq_true.mp List.all_takeWhile d hd)
  have hsplit : ds.reverse.takeWhile (· == 0) ++ ds.reverse.dropWhile (· == 0) = ds.reverse :=
    List.takeWhile_append_dropWhile
  refine ⟨(ds.reverse.takeWhile (· == 0)).length, List.reverse_inj.mp ?_⟩
  rw [List.reverse_append, List.reverse_reverse, List.reverse_replicate, ← hzeros, hsplit]

theorem digits_of_isZero {x : Binary64} (h : x.isZero = true) : x.digits = ([0], 0) := by
  rw [digits]
  rw [if_pos h]

/-- The digits of a decimal without zeros at the end, and the exponent of the last one. -/
def Decimal.trimmed (d : Decimal) : List Nat × Int :=
  let all := (Nat.toDigits 10 d.coefficient).map (·.toNat - 0x30)
  let kept := (all.reverse.dropWhile (· == 0)).reverse
  (kept, d.exponent + (all.length - kept.length : Nat))

theorem digits_of_not_isZero {x : Binary64} (h : x.isZero = false) :
    x.digits = x.shortestDecimal.trimmed := by
  rw [digits]
  rw [h, if_neg Bool.false_ne_true]
  rfl

theorem Decimal.exists_extend_trimmed (d : Decimal) :
    ∃ k, d = (Decimal.mk (wholeOf d.trimmed.1) d.trimmed.2).extend k := by
  have hwhole := wholeOf_toDigits d.coefficient
  rw [trimmed]
  dsimp only
  generalize (Nat.toDigits 10 d.coefficient).map (·.toNat - 0x30) = all at *
  obtain ⟨k, hk⟩ := eq_strip_append all
  generalize (all.reverse.dropWhile (· == 0)).reverse = kept at *
  subst hk
  rw [wholeOf_append, wholeOf_replicate, Nat.add_zero, List.length_replicate] at hwhole
  have hlength : (kept ++ List.replicate k 0).length - kept.length = k := by simp
  refine ⟨k, ?_⟩
  rw [hlength, extend, hwhole, Int.add_sub_cancel]

theorem Decimal.trimmed_lt_ten (d : Decimal) : ∀ n ∈ d.trimmed.1, n < 10 := by
  intro n hn
  apply toDigits_lt_ten d.coefficient n
  exact List.mem_reverse.mp ((List.dropWhile_sublist _).subset (List.mem_reverse.mp hn))

/-- The digits stand for a decimal that reads back. -/
theorem readsBack_digits (x : Binary64) : x.readsBack ⟨wholeOf x.digits.1, x.digits.2⟩ = true := by
  cases h : x.isZero with
  | true =>
    have hnum : (Decimal.mk (wholeOf [0]) 0).num = 0 := rfl
    have hsmall : 2 * 0 < (Decimal.mk (wholeOf [0]) 0).den := by decide
    rw [digits_of_isZero h, readsBack_iff, nearest, hnum, Nat.zero_mul,
      nearestUnits_underflow hsmall]
    exact (eq_of_isZero h).symm
  | false =>
    obtain ⟨k, hk⟩ := x.shortestDecimal.exists_extend_trimmed
    rw [digits_of_not_isZero h, ← readsBack_extend x _ k, ← hk]
    exact readsBack_shortestDecimal x

theorem digits_lt_ten (x : Binary64) : ∀ d ∈ x.digits.1, d < 10 := by
  cases h : x.isZero with
  | true =>
    rw [digits_of_isZero h]
    simp
  | false =>
    rw [digits_of_not_isZero h]
    exact x.shortestDecimal.trimmed_lt_ten

end ResponseCache.Binary64

namespace ResponseCache

/-- The decimal that a numeral spells, its sign aside. -/
def Numeral.decimal (n : Numeral) : Binary64.Decimal := ⟨n.coefficient, n.scale⟩

namespace Binary64

theorem coefficient_eq (n : Numeral) :
    n.coefficient = n.whole * 10 ^ n.fraction.length + wholeOf n.fraction :=
  foldl_digits n.fraction n.whole

/-- Setting the point keeps the decimal, but for a zero after it. -/
theorem positional_decimal (negative : Bool) (ds : List Nat) (last : Int) :
    ∃ k, (Numeral.mk negative (positional ds last).1 (positional ds last).2 none).decimal =
      (Decimal.mk (wholeOf ds) last).extend k := by
  rw [positional]
  split
  · rename_i h
    refine ⟨last.toNat + 1, ?_⟩
    simp only [Numeral.decimal, Decimal.extend, coefficient_eq, Numeral.scale, Decimal.mk.injEq]
    rw [wholeOf_append, wholeOf_replicate]
    constructor
    · simp [wholeOf, Nat.pow_succ, Nat.mul_assoc]
    · simp; omega
  · rename_i h
    refine ⟨0, ?_⟩
    simp only
    split
    · rename_i hplaces
      have hsplit :=
        wholeOf_append (ds.take (ds.length - (-last).toNat)) (ds.drop (ds.length - (-last).toNat))
      rw [List.take_append_drop] at hsplit
      simp only [Numeral.decimal, Decimal.extend, coefficient_eq, Numeral.scale, Decimal.mk.injEq]
      rw [← hsplit]
      simp; omega
    · rename_i hplaces
      have hpad := wholeOf_append (List.replicate ((-last).toNat - ds.length) 0) ds
      rw [wholeOf_replicate] at hpad
      simp only [Numeral.decimal, Decimal.extend, coefficient_eq, Numeral.scale, Decimal.mk.injEq]
      rw [hpad]
      simp; omega

theorem numeral_decimal (layout : Layout) (x : Binary64) :
    ∃ k, (x.numeral layout).decimal = (Decimal.mk (wholeOf x.digits.1) x.digits.2).extend k := by
  rw [numeral]
  simp only
  split
  · exact positional_decimal ..
  · cases hds : x.digits.1 with
    | nil =>
      refine ⟨1, ?_⟩
      simp [Numeral.decimal, Decimal.extend, coefficient_eq, Numeral.scale, wholeOf]
    | cons d ds =>
      have hwhole : wholeOf (d :: ds) = d * 10 ^ ds.length + wholeOf ds := by
        rw [← foldl_digits]
        simp [wholeOf]
      refine ⟨0, ?_⟩
      simp [Numeral.decimal, Decimal.extend, coefficient_eq, Numeral.scale, hwhole]
      omega

theorem numeral_negative (layout : Layout) (x : Binary64) :
    (x.numeral layout).negative = x.negative := by
  rw [numeral]
  simp only
  split <;> rfl

private theorem positional_lt_ten {ds : List Nat} (h : ∀ d ∈ ds, d < 10) (last : Int) :
    ∀ d ∈ (positional ds last).2, d < 10 := by
  rw [positional]
  split
  · simp
  · dsimp only
    split
    · exact fun d hd => h d (List.mem_of_mem_drop hd)
    · intro d hd
      rcases List.mem_append.mp hd with hd | hd
      · rw [List.eq_of_mem_replicate hd]
        decide
      · exact h d hd

theorem numeral_fraction_lt_ten (layout : Layout) (x : Binary64) :
    ∀ d ∈ (x.numeral layout).fraction, d < 10 := by
  have h := digits_lt_ten x
  rw [numeral]
  dsimp only
  split
  · exact positional_lt_ten h _
  · exact fun d hd => h d (List.mem_of_mem_tail hd)

private theorem two_pow_le {a b : Nat} (h : 2 ^ a ≤ 10 ^ b) (k r : Nat) {m n : Nat}
    (hm : m ≤ a * k + r) (hn : b * k + r ≤ n) : 2 ^ m ≤ 10 ^ n := by
  calc 2 ^ m ≤ 2 ^ (a * k + r) := Nat.pow_le_pow_right (by decide) hm
    _ = (2 ^ a) ^ k * 2 ^ r := by rw [Nat.pow_add, Nat.pow_mul]
    _ ≤ (10 ^ b) ^ k * 10 ^ r :=
      Nat.mul_le_mul (Nat.pow_le_pow_left h k) (Nat.pow_le_pow_left (by decide) r)
    _ = 10 ^ (b * k + r) := by rw [Nat.pow_add, Nat.pow_mul]
    _ ≤ 10 ^ n := Nat.pow_le_pow_right (by decide) hn

/-- What is below the smallest double has three hundred zeros after the point. -/
private theorem units_le {n : Nat} (h : 330 ≤ n) : unitsPerOne * 2 ≤ 10 ^ n := by
  have hpow : ∀ m ≤ 1074, 2 ^ m * 2 ≤ 10 ^ n := by
    intro m hm
    rw [← Nat.pow_succ]
    exact two_pow_le (a := 43) (b := 13) (by decide) 25 0 (by omega) (by omega)
  rw [unitsPerOne]
  exact hpow 1074 (Nat.le_refl _)

/-- Only zero is read back from a decimal below the smallest double. -/
theorem eq_zero_of_small {x : Binary64} {d : Decimal} (h : x.readsBack d = true)
    (hsmall : d.exponent + (Nat.toDigits 10 d.coefficient).length < -330) :
    x = ⟨x.negative, 0, 0, by decide, .inl rfl⟩ := by
  have hc := lt_pow_length d.coefficient
  generalize (Nat.toDigits 10 d.coefficient).length = n at *
  obtain ⟨k, hk⟩ : ∃ k, (-d.exponent).toNat = n + k := ⟨(-d.exponent).toNat - n, by omega⟩
  have hwhole : d.exponent.toNat = 0 := by omega
  have hunits : unitsPerOne * 2 ≤ 10 ^ k := units_le (by omega)
  have hden : 10 ^ n * 10 ^ k = d.den := by rw [Decimal.den, hk, Nat.pow_add]
  have hunder : 2 * (d.num * unitsPerOne) < d.den := by
    calc 2 * (d.num * unitsPerOne) = d.coefficient * (unitsPerOne * 2) := by
          rw [Decimal.num, hwhole, Nat.pow_zero, Nat.mul_one, Nat.mul_comm 2, Nat.mul_assoc]
      _ ≤ d.coefficient * 10 ^ k := Nat.mul_le_mul_left _ hunits
      _ < 10 ^ n * 10 ^ k := Nat.mul_lt_mul_of_pos_right hc (Nat.pow_pos (by decide))
      _ = d.den := hden
  rw [readsBack_iff, nearest, nearestUnits_underflow hunder] at h
  exact h.symm

/-- No finite double is read back from a decimal beyond the largest one. -/
theorem not_isFinite_of_large {x : Binary64} {d : Decimal} (h : x.readsBack d = true)
    (hne : d.coefficient ≠ 0) (hlarge : 310 < d.exponent + (Nat.toDigits 10 d.coefficient).length) :
    x.isFinite = false := by
  have hc := pow_length_le hne
  generalize (Nat.toDigits 10 d.coefficient).length = n at *
  obtain ⟨k, hk⟩ : ∃ k, n - 1 + d.exponent.toNat = (-d.exponent).toNat + k :=
    ⟨n - 1 + d.exponent.toNat - (-d.exponent).toNat, by omega⟩
  have hnum : d.den * 10 ^ k ≤ d.num := by
    calc d.den * 10 ^ k = 10 ^ (n - 1) * 10 ^ d.exponent.toNat := by
          rw [Decimal.den, ← Nat.pow_add, ← hk, Nat.pow_add]
      _ ≤ d.num := Nat.mul_le_mul_right _ hc
  have hpow : ∀ m ≤ 1024, 2 ^ m ≤ 10 ^ k := fun m hm =>
    two_pow_le (a := 93) (b := 28) (by decide) 11 1 hm (by omega)
  have hover : ∀ m ≤ 1024, 2 ^ m * unitsPerOne * d.den ≤ d.num * unitsPerOne := by
    intro m hm
    rw [Nat.mul_right_comm, Nat.mul_comm _ d.den]
    exact Nat.mul_le_mul_right _ (Nat.le_trans (Nat.mul_le_mul_left _ (hpow m hm)) hnum)
  obtain ⟨m, hm⟩ : ∃ m, m = 1024 := ⟨_, rfl⟩
  rw [← readsBack_iff.mp h, nearest]
  exact nearestUnits_overflow d.den_pos (Nat.le_of_eq hm.symm) (hover m (Nat.le_of_eq hm)) _

/-- A decimal that reads back as a finite double is read as it. -/
theorem ofDecimal_of_readsBack {x : Binary64} {d : Decimal} (hfinite : x.isFinite = true)
    (h : x.readsBack d = true) : ofDecimal x.negative d.coefficient d.exponent = some x := by
  rw [ofDecimal]
  dsimp only
  split
  · rename_i hzero
    rcases hzero with hzero | hsmall
    · have hnum : d.num = 0 := by rw [Decimal.num, hzero, Nat.zero_mul]
      rw [readsBack_iff, nearest, hnum, Nat.zero_mul,
        nearestUnits_underflow (Nat.lt_of_le_of_lt (Nat.zero_le _) d.den_pos)] at h
      rw [h]
    · rw [← eq_zero_of_small h hsmall]
  · rename_i hzero
    have hne : d.coefficient ≠ 0 := fun hc => hzero (.inl hc)
    split
    · rename_i hlarge
      rw [not_isFinite_of_large h hne hlarge] at hfinite
      cases hfinite
    · have hnearest :
          (if 0 ≤ d.exponent then nearest x.negative (d.coefficient * 10 ^ d.exponent.toNat) 1
          else nearest x.negative d.coefficient (10 ^ (-d.exponent).toNat)) = x := by
        rw [readsBack_iff, Decimal.num, Decimal.den] at h
        split
        · have hplaces : (-d.exponent).toNat = 0 := by omega
          rwa [hplaces, Nat.pow_zero] at h
        · have hwhole : d.exponent.toNat = 0 := by omega
          rwa [hwhole, Nat.pow_zero, Nat.mul_one] at h
      rw [hnearest, if_pos hfinite]

/-- A finite double is read back from its numeral. -/
theorem ofDecimal_numeral {x : Binary64} (h : x.isFinite = true) (layout : Layout) :
    ofDecimal (x.numeral layout).negative (x.numeral layout).coefficient (x.numeral layout).scale =
      some x := by
  obtain ⟨k, hk⟩ := numeral_decimal layout x
  have hreads : x.readsBack (x.numeral layout).decimal = true := by
    rw [hk, readsBack_extend]
    exact readsBack_digits x
  rw [numeral_negative]
  exact ofDecimal_of_readsBack h hreads

end Binary64
end ResponseCache
