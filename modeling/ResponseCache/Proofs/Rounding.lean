import ResponseCache.Binary64.Basic

/-!
# Rounding to doubles

The nearest number depends on a ratio alone, and a number is the nearest one to itself. Very small
ratios go to zero and very large ones are not finite.
-/
namespace ResponseCache.Binary64

theorem unitsPerOne_pos : 0 < unitsPerOne := by
  have hpow : ∀ k, 0 < 2 ^ k := Nat.two_pow_pos
  rw [unitsPerOne]
  exact hpow 1074

theorem roundQuotient_scale {k : Nat} (hk : 0 < k) (num den : Nat) :
    roundQuotient (k * num) (k * den) = roundQuotient num den := by
  have hq : k * num / (k * den) = num / den := Nat.mul_div_mul_left _ _ hk
  have hr : k * num % (k * den) = k * (num % den) := Nat.mul_mod_mul_left ..
  have hbelow : 2 * (k * (num % den)) < k * den ↔ 2 * (num % den) < den := by
    rw [Nat.mul_left_comm]
    exact Nat.mul_lt_mul_left hk
  have habove : k * den < 2 * (k * (num % den)) ↔ den < 2 * (num % den) := by
    rw [Nat.mul_left_comm 2]
    exact Nat.mul_lt_mul_left hk
  unfold roundQuotient
  simp only [hq, hr, hbelow, habove]

theorem roundQuotient_mul {den : Nat} (hd : 0 < den) (n : Nat) :
    roundQuotient (den * n) den = n := by
  have hq : den * n / den = n := Nat.mul_div_cancel_left n hd
  have hr : den * n % den = 0 := Nat.mul_mod_right den n
  rw [roundQuotient]
  simp only [hq, hr]
  rw [if_pos (by omega)]

theorem roundQuotient_eq_zero {num den : Nat} (h : 2 * num < den) : roundQuotient num den = 0 := by
  have hq : num / den = 0 := Nat.div_eq_of_lt (by omega)
  have hr : num % den = num := Nat.mod_eq_of_lt (by omega)
  rw [roundQuotient]
  simp only [hq, hr]
  rw [if_pos h]

theorem significandOf_scale {k : Nat} (hk : 0 < k) (num den : Nat) :
    significandOf (k * num) (k * den) = significandOf num den := by
  rw [significandOf, Nat.mul_div_mul_left _ _ hk, Nat.mul_assoc, roundQuotient_scale hk]
  rfl

theorem nearestUnits_scale {k : Nat} (hk : 0 < k) (negative : Bool) (num den : Nat) :
    nearestUnits negative (k * num) (k * den) = nearestUnits negative num den := by
  have hs := significandOf_scale hk num den
  have hq : k * num / (k * den) = num / den := Nat.mul_div_mul_left _ _ hk
  have hpos : 0 < k * den ↔ 0 < den := by
    rw [Nat.mul_pos_iff_of_pos_left hk]
  unfold nearestUnits
  simp only [hs, hq, hpos]

/-- Equal ratios have the same nearest number. -/
theorem nearest_congr {num den num' den' : Nat} (hd : 0 < den) (hd' : 0 < den')
    (h : num * den' = num' * den) (negative : Bool) :
    nearest negative num den = nearest negative num' den' := by
  have hnum : den' * (num * unitsPerOne) = den * (num' * unitsPerOne) := by
    rw [← Nat.mul_assoc, ← Nat.mul_assoc, Nat.mul_comm den', Nat.mul_comm den, h]
  unfold nearest
  rw [← nearestUnits_scale hd', hnum, Nat.mul_comm den' den, nearestUnits_scale hd]

theorem nearestUnits_of_ne (negative : Bool) {num den : Nat} (hd : 0 < den)
    (h : significandOf num den ≠ 2 ^ 53) :
    (nearestUnits negative num den).negative = negative ∧
      (nearestUnits negative num den).significand = significandOf num den ∧
      (nearestUnits negative num den).exponent = exponentFor (num / den) := by
  rw [nearestUnits]
  rw [dif_pos hd, dif_neg h]
  exact ⟨rfl, rfl, rfl⟩

theorem exponentFor_units (x : Binary64) : exponentFor x.units = x.exponent := by
  obtain ⟨negative, m, e, hm, hcanonical⟩ := x
  show exponentFor (m * 2 ^ e) = e
  rw [exponentFor]
  by_cases he : e = 0
  · rw [he, Nat.pow_zero, Nat.mul_one, if_pos hm]
  · have hlow : 2 ^ 52 ≤ m := hcanonical.resolve_left he
    have hpow : 2 ≤ 2 ^ e := by
      refine Nat.le_trans ?_
        (Nat.pow_le_pow_right (Nat.zero_lt_two) (Nat.one_le_iff_ne_zero.mpr he))
      exact Nat.le_refl 2
    have hbig : 2 ^ 53 ≤ m * 2 ^ e := Nat.mul_le_mul hlow hpow
    have hlog : (m * 2 ^ e).log2 = 52 + e := by
      refine (Nat.log2_eq_iff (by omega)).mpr ⟨?_, ?_⟩
      · rw [Nat.pow_add]
        exact Nat.mul_le_mul_right _ hlow
      · rw [Nat.add_right_comm, Nat.pow_add]
        exact Nat.mul_lt_mul_of_pos_right hm (Nat.two_pow_pos e)
    rw [if_neg (Nat.not_lt.mpr hbig), hlog]
    omega

/-- A number is the nearest one to itself. -/
theorem nearestUnits_units (x : Binary64) {den : Nat} (hd : 0 < den) :
    nearestUnits x.negative (den * x.units) den = x := by
  have hq : exponentFor (den * x.units / den) = x.exponent := by
    rw [Nat.mul_div_cancel_left _ hd, exponentFor_units]
  have hs : significandOf (den * x.units) den = x.significand := by
    have hunits : den * x.units = den * 2 ^ x.exponent * x.significand := by
      rw [units, Nat.mul_comm x.significand, Nat.mul_assoc]
    rw [significandOf, hq, hunits, roundQuotient_mul (Nat.mul_pos hd (Nat.two_pow_pos _))]
  have hne : significandOf (den * x.units) den ≠ 2 ^ 53 := by
    rw [hs]
    exact Nat.ne_of_lt x.canonical.1
  obtain ⟨hnegative, hsignificand, hexponent⟩ := nearestUnits_of_ne x.negative hd hne
  exact Binary64.ext hnegative (hsignificand.trans hs) (hexponent.trans hq)

theorem nearestUnits_underflow {num den : Nat} (h : 2 * num < den) (negative : Bool) :
    nearestUnits negative num den = ⟨negative, 0, 0, by decide, .inl rfl⟩ := by
  have hd : 0 < den := by omega
  have hq : exponentFor (num / den) = 0 := by
    rw [Nat.div_eq_of_lt (by omega)]
    rfl
  have hs : significandOf num den = 0 := by
    rw [significandOf, hq, Nat.pow_zero, Nat.mul_one, roundQuotient_eq_zero h]
  obtain ⟨hnegative, hsignificand, hexponent⟩ := nearestUnits_of_ne negative hd (by rw [hs]; decide)
  exact Binary64.ext hnegative (hsignificand.trans hs) (hexponent.trans hq)

private theorem le_log2_div {k num den : Nat} (hd : 0 < den) (h : 2 ^ k * den ≤ num) :
    k ≤ (num / den).log2 ∧ num / den ≠ 0 := by
  have hq : 2 ^ k ≤ num / den := (Nat.le_div_iff_mul_le hd).mpr h
  have hne : num / den ≠ 0 := Nat.ne_of_gt (Nat.lt_of_lt_of_le (Nat.two_pow_pos _) hq)
  exact ⟨(Nat.le_log2 hne).mpr hq, hne⟩

theorem nearestUnits_overflow {num den k : Nat} (hd : 0 < den) (hk : 1024 ≤ k)
    (h : 2 ^ k * unitsPerOne * den ≤ num) (negative : Bool) :
    (nearestUnits negative num den).isFinite = false := by
  have hpow : ∀ u, 2 ^ k * 2 ^ u = 2 ^ (k + u) := fun u => (Nat.pow_add 2 k u).symm
  have hunits : 2 ^ k * unitsPerOne = 2 ^ (k + 1074) := by
    rw [unitsPerOne]
    exact hpow 1074
  rw [hunits] at h
  obtain ⟨hlog, hne⟩ := le_log2_div hd h
  have hexponent : 2046 ≤ exponentFor (num / den) := by
    have hbig : ¬num / den < 2 ^ 53 :=
      Nat.not_lt.mpr ((Nat.le_log2 hne).mp (Nat.le_trans (by omega) hlog))
    rw [exponentFor, if_neg hbig]
    omega
  rw [nearestUnits]
  rw [dif_pos hd]
  split
  · simp only [isFinite, decide_eq_false_iff_not]
    omega
  · simp only [isFinite, decide_eq_false_iff_not]
    omega

/-- A whole number of at most 53 bits is a double. -/
theorem exists_whole {n : Nat} (h : n < 2 ^ 53) :
    ∃ x : Binary64, x.negative = false ∧ x.units = n * unitsPerOne ∧ x.isFinite = true := by
  by_cases hn : n = 0
  · exact ⟨zero, rfl, by rw [hn, Nat.zero_mul]; rfl, rfl⟩
  · have hlow := Nat.log2_self_le hn
    have hhigh : n < 2 ^ (n.log2 + 1) := Nat.lt_log2_self
    have hlog : n.log2 ≤ 52 := Nat.le_of_lt_succ ((Nat.log2_lt hn).mpr h)
    generalize n.log2 = l at *
    have h53 : 2 ^ (l + 1) * 2 ^ (52 - l) = 2 ^ 53 := by
      rw [← Nat.pow_add]
      congr 1
      omega
    have h52 : 2 ^ l * 2 ^ (52 - l) = 2 ^ 52 := by
      rw [← Nat.pow_add]
      congr 1
      omega
    have hcanonical : Canonical (n * 2 ^ (52 - l)) (1022 + l) :=
      ⟨h53 ▸ Nat.mul_lt_mul_of_pos_right hhigh (Nat.two_pow_pos _),
        .inr (h52 ▸ Nat.mul_le_mul_right _ hlow)⟩
    refine ⟨⟨false, n * 2 ^ (52 - l), 1022 + l, hcanonical⟩, rfl, ?_, ?_⟩
    · have hscale : ∀ u, 52 - l + (1022 + l) = u →
          n * 2 ^ (52 - l) * 2 ^ (1022 + l) = n * 2 ^ u := by
        intro u hu
        rw [Nat.mul_assoc, ← Nat.pow_add, hu]
      rw [units, unitsPerOne]
      exact hscale 1074 (by omega)
    · simp only [isFinite, decide_eq_true_eq]
      omega

/-- A duration of whole seconds is exact as a double. -/
theorem ofDuration_whole {d : Duration} {n : Nat} (hn : n < 2 ^ 53)
    (hd : d.nanos = n * nanosPerSecond) :
    (ofDuration d).negative = false ∧ (ofDuration d).units = n * unitsPerOne ∧
      (ofDuration d).isFinite = true := by
  obtain ⟨x, hnegative, hunits, hfinite⟩ := exists_whole hn
  have hseconds : d.seconds = n := by
    rw [Duration.seconds, hd]
    exact Nat.mul_div_cancel n (by decide)
  have hsubseconds : d.subseconds = 0 := by
    rw [Duration.subseconds, hd]
    exact Nat.mul_mod_left ..
  have hself := nearestUnits_units x Nat.one_pos
  rw [Nat.one_mul, hnegative] at hself
  have hwhole : nearest false n 1 = x := by rw [nearest, ← hunits, hself]
  have hrest : nearest false 0 nanosPerSecond = zero := by
    have hpos : 0 < nanosPerSecond := by decide
    have hzero := nearestUnits_units zero hpos
    rwa [nearest, Nat.zero_mul]
  have hsum : ofDuration d = x := by
    rw [ofDuration, hseconds, hsubseconds, hwhole, hrest, add]
    exact hself
  rw [hsum]
  exact ⟨hnegative, hunits, hfinite⟩

theorem isZero_iff {x : Binary64} : x.isZero = true ↔ x.units = 0 := by
  rw [isZero, beq_iff_eq, units, Nat.mul_eq_zero, or_iff_left (Nat.ne_of_gt (Nat.two_pow_pos _))]

/-- What is not less than one unit is not rounded to zero. -/
theorem isZero_nearestUnits_iff {num den : Nat} (hd : 0 < den) (h : num = 0 ∨ den ≤ num)
    (negative : Bool) : (nearestUnits negative num den).isZero = true ↔ num = 0 := by
  constructor
  · intro hzero
    refine h.resolve_right fun hle => ?_
    have hbounds : exponentFor (num / den) = 0 ∨ 2 ^ 52 ≤ significandOf num den :=
      (significandOf_bounds hd).2
    have hpos : 0 < significandOf num den := by
      rcases hbounds with hexponent | hbig
      · rw [significandOf, hexponent, Nat.pow_zero, Nat.mul_one]
        exact le_roundQuotient hd (by omega)
      · omega
    rw [nearestUnits, dif_pos hd] at hzero
    split at hzero
    · cases hzero
    · rw [isZero, beq_iff_eq] at hzero
      exact absurd hzero (Nat.ne_of_gt hpos)
  · rintro rfl
    rw [nearestUnits_underflow (by omega)]
    rfl

theorem isZero_add_iff {x y : Binary64} :
    (add x y).isZero = true ↔ x.isZero = true ∧ y.isZero = true := by
  rw [add, isZero_nearestUnits_iff Nat.one_pos (by omega), isZero_iff, isZero_iff]
  omega

theorem isZero_nearest_iff {num den : Nat} (hd : 0 < den) (hden : den ≤ unitsPerOne) :
    (nearest false num den).isZero = true ↔ num = 0 := by
  have hnum : num * unitsPerOne = 0 ↔ num = 0 := by
    rw [Nat.mul_eq_zero, or_iff_left (Nat.ne_of_gt unitsPerOne_pos)]
  have hunits : num * unitsPerOne = 0 ∨ den ≤ num * unitsPerOne := by
    rcases Nat.eq_zero_or_pos num with hzero | hpos
    · exact .inl (hnum.mpr hzero)
    · exact .inr (Nat.le_trans hden (Nat.le_mul_of_pos_left _ hpos))
  rw [nearest, isZero_nearestUnits_iff hd hunits, hnum]

theorem nanosPerSecond_le_unitsPerOne : nanosPerSecond ≤ unitsPerOne := by
  have hpow : ∀ k, 30 ≤ k → nanosPerSecond ≤ 2 ^ k := by
    intro k hk
    refine Nat.le_trans ?_ (Nat.pow_le_pow_right Nat.two_pos hk)
    decide
  rw [unitsPerOne]
  exact hpow 1074 (by omega)

/-- A duration is zero seconds as a double only if it is zero. -/
theorem isZero_ofDuration_iff {d : Duration} : (ofDuration d).isZero = true ↔ d = .zero := by
  have hparts : d.seconds = 0 ∧ d.subseconds = 0 ↔ d.nanos = 0 := by
    simp only [Duration.seconds, Duration.subseconds, nanosPerSecond]
    omega
  rw [ofDuration, isZero_add_iff, isZero_nearest_iff Nat.one_pos unitsPerOne_pos,
    isZero_nearest_iff (by decide) nanosPerSecond_le_unitsPerOne, hparts, Duration.ext_iff]
  rfl

end ResponseCache.Binary64
