import ResponseCache.Json.Token
import ResponseCache.Proofs.Percent

/-!
# Numerals read back

Digits, and the text of a numeral with them, are scanned back as long as nothing follows that would
go on with the number.
-/
namespace ResponseCache

namespace Numeral

def IsPrintable (n : Numeral) : Prop := ∀ d ∈ n.fraction, d < 10

theorem isPrintable_ofNat (n : Nat) : (ofNat n).IsPrintable := by
  intro d hd
  cases hd

theorem digit_toNat {d : Nat} (h : d < 10) : (digit d).toNat = 0x30 + d :=
  Text.toNat_ofNat_of_ascii (by omega)

theorem isDigit_digit {d : Nat} (h : d < 10) : (digit d).isDigit = true := by
  have : ∀ d : Fin 10, (digit d.1).isDigit = true := by decide
  exact this ⟨d, h⟩

/-- A number is written without zeros in front. -/
theorem head?_toDigits {n : Nat} (h : n ≠ 0) : (Nat.toDigits 10 n).head? ≠ some '0' := by
  induction n using Nat.strongRecOn with
  | ind n ih =>
    rw [Nat.toDigits_eq_if (by decide)]
    split
    · simpa using h
    · rename_i hten
      have hdiv := ih (n / 10) (by omega) (by omega)
      obtain ⟨c, cs, hc⟩ := List.exists_cons_of_ne_nil (Nat.toDigits_ne_nil (n := n / 10) (b := 10))
      rw [hc] at hdiv ⊢
      exact hdiv

end Numeral

namespace Json

def EndsDigits (cs : List Char) : Prop := ∀ c ∈ cs.head?, c.isDigit = false

/-- Nothing follows that belongs to a number. -/
def EndsNumeral (cs : List Char) : Prop :=
  ∀ c ∈ cs.head?, c.isDigit = false ∧ c ≠ '.' ∧ c ≠ 'e' ∧ c ≠ 'E'

theorem EndsNumeral.endsDigits {cs : List Char} (h : EndsNumeral cs) : EndsDigits cs :=
  fun c hc => (h c hc).1

theorem takeWhile_isDigit {ds rest : List Char} (hd : ∀ c ∈ ds, c.isDigit = true)
    (hr : EndsDigits rest) :
    ((ds ++ rest).map some).takeWhile isDigit = ds.map some ∧
      ((ds ++ rest).map some).dropWhile isDigit = rest.map some := by
  induction ds with
  | nil =>
    cases rest with
    | nil => exact ⟨rfl, rfl⟩
    | cons c cs =>
      have hc : isDigit (some c) = false := hr c rfl
      exact ⟨List.takeWhile_cons_of_neg (by simp [hc]), List.dropWhile_cons_of_neg (by simp [hc])⟩
  | cons c ds ih =>
    have hc : isDigit (some c) = true := hd c List.mem_cons_self
    have hrest := ih fun d h => hd d (List.mem_cons_of_mem _ h)
    simpa [List.takeWhile_cons, List.dropWhile_cons, hc] using hrest

theorem valueOf_map_some (cs : List Char) : valueOf (cs.map some) = Nat.ofDigitChars 10 cs 0 := by
  simp only [valueOf, digitsOf, List.map_map, List.foldl_map, Nat.ofDigitChars_eq_foldl,
    Function.comp_def, Option.getD_some, Nat.mul_comm 10]
  rfl

@[simp] theorem valueOf_toDigits (n : Nat) : valueOf ((Nat.toDigits 10 n).map some) = n := by
  rw [valueOf_map_some, Nat.ofDigitChars_ten_toDigits]

theorem digitsOf_digits {ds : List Nat} (h : ∀ d ∈ ds, d < 10) :
    digitsOf ((ds.map Numeral.digit).map some) = ds := by
  induction ds with
  | nil => rfl
  | cons d ds ih =>
    have hd := Numeral.digit_toNat (h d List.mem_cons_self)
    have hrest := ih fun x hx => h x (List.mem_cons_of_mem _ hx)
    simp only [digitsOf, List.map_cons, Option.getD_some, hd] at hrest ⊢
    rw [hrest, Nat.add_sub_cancel_left]

theorem isDigit_toDigits {n : Nat} : ∀ c ∈ Nat.toDigits 10 n, c.isDigit = true :=
  fun _ hc => Nat.isDigit_of_mem_toDigits (by decide) (by decide) hc

theorem scanWhole_toDigits (n : Nat) {rest : List Char} (hr : EndsDigits rest) :
    scanWhole ((Nat.toDigits 10 n ++ rest).map some) = some (n, rest.map some) := by
  by_cases hn : n = 0
  · rw [hn, Nat.toDigits_zero]
    rfl
  · have hhead := Numeral.head?_toDigits hn
    have hdigits : ∀ c ∈ Nat.toDigits 10 n, c.isDigit = true := isDigit_toDigits
    obtain ⟨htake, hdrop⟩ := takeWhile_isDigit hdigits hr
    have hvalue := valueOf_toDigits n
    obtain ⟨c, cs, hc⟩ := List.exists_cons_of_ne_nil (Nat.toDigits_ne_nil (n := n) (b := 10))
    rw [hc] at hhead htake hdrop hvalue ⊢
    have hne : c ≠ '0' := by simpa using hhead
    unfold scanWhole
    split
    · rename_i h
      cases h
      exact absurd rfl hne
    · simp only [htake, hdrop, hvalue]
      rfl

def fractionPart (ds : List Nat) : List Char :=
  if ds.isEmpty then [] else '.' :: ds.map Numeral.digit

theorem scanFraction_fractionPart {ds : List Nat} (hd : ∀ d ∈ ds, d < 10) {rest : List Char}
    (hr : EndsDigits rest) (hpoint : ∀ c ∈ rest.head?, c ≠ '.') :
    scanFraction ((fractionPart ds ++ rest).map some) = some (ds, rest.map some) := by
  cases ds with
  | nil =>
    show scanFraction (rest.map some) = _
    unfold scanFraction
    split
    · rename_i h
      cases rest with
      | nil => cases h
      | cons c cs =>
        cases h
        exact absurd rfl (hpoint '.' rfl)
    · rfl
  | cons d ds =>
    have hdigits : ∀ c ∈ (d :: ds).map Numeral.digit, c.isDigit = true := by
      intro c hc
      obtain ⟨x, hx, rfl⟩ := List.mem_map.mp hc
      exact Numeral.isDigit_digit (hd x hx)
    obtain ⟨htake, hdrop⟩ := takeWhile_isDigit hdigits hr
    show scanFraction (some '.' :: ((d :: ds).map Numeral.digit ++ rest).map some) = _
    rw [scanFraction, htake, hdrop, digitsOf_digits hd]
    rfl

def exponentPart : Option Int → List Char
  | none => []
  | some e => Numeral.exponentText e

theorem scanExponent_exponentPart (exponent : Option Int) {rest : List Char}
    (hr : EndsNumeral rest) :
    scanExponent ((exponentPart exponent ++ rest).map some) = some (exponent, rest.map some) := by
  cases exponent with
  | none =>
    cases rest with
    | nil => rfl
    | cons c cs =>
      obtain ⟨-, -, he, hE⟩ := hr c rfl
      have hmark : ¬(c = 'e' ∨ c = 'E') := by simp [he, hE]
      unfold scanExponent
      exact if_neg hmark
  | some e =>
    obtain ⟨htake, hdrop⟩ := takeWhile_isDigit (isDigit_toDigits (n := e.natAbs)) hr.endsDigits
    have hne : ((Nat.toDigits 10 e.natAbs).map some).isEmpty = false := by simp
    have hsign : exponentPart (some e) ++ rest =
      'e' :: (if e < 0 then '-' else '+') :: (Nat.toDigits 10 e.natAbs ++ rest) := rfl
    rw [hsign]
    unfold scanExponent
    by_cases hneg : e < 0
    · have habs : -(e.natAbs : Int) = e := by omega
      simp only [if_pos hneg, List.map_cons, true_or, if_true, htake, hdrop, hne,
        valueOf_toDigits, habs]
      rfl
    · have habs : (e.natAbs : Int) = e := by omega
      simp only [if_neg hneg, List.map_cons, true_or, if_true, htake, hdrop, hne,
        valueOf_toDigits, habs]
      rfl

theorem endsDigits_fractionPart (ds : List Nat) {rest : List Char} (hr : EndsDigits rest) :
    EndsDigits (fractionPart ds ++ rest) := by
  cases ds with
  | nil => exact hr
  | cons d ds =>
    intro c hc
    cases hc
    rfl

theorem head?_exponentPart (exponent : Option Int) {rest : List Char} (hr : EndsNumeral rest) :
    ∀ c ∈ (exponentPart exponent ++ rest).head?, c.isDigit = false ∧ c ≠ '.' := by
  cases exponent with
  | none => exact fun c hc => ⟨(hr c hc).1, (hr c hc).2.1⟩
  | some e =>
    intro c hc
    cases hc
    decide

/-- The text of a numeral is read as that numeral. -/
theorem scanNumeral_text {n : Numeral} (hn : n.IsPrintable) {rest : List Char}
    (hr : EndsNumeral rest) :
    scanNumeral ((n.text ++ rest).map some) = some (n, rest.map some) := by
  obtain ⟨negative, whole, fraction, exponent⟩ := n
  have hexponent := head?_exponentPart exponent hr
  have hends : EndsDigits (exponentPart exponent ++ rest) := fun c hc => (hexponent c hc).1
  have hwhole := scanWhole_toDigits whole (endsDigits_fractionPart fraction hends)
  have hfraction := scanFraction_fractionPart hn hends fun c hc => (hexponent c hc).2
  have hexp := scanExponent_exponentPart exponent hr
  have htext : (Numeral.mk negative whole fraction exponent).text ++ rest =
      (if negative then ['-'] else []) ++
      (Nat.toDigits 10 whole ++ (fractionPart fraction ++ (exponentPart exponent ++ rest))) := by
    cases exponent <;> simp [Numeral.text, exponentPart, fractionPart]
  rw [htext]
  unfold scanNumeral
  cases negative with
  | true =>
    simp only [if_true, List.cons_append, List.nil_append, List.map_cons, hwhole, hfraction, hexp,
      Option.bind_eq_bind, Option.bind_some]
  | false =>
    -- the first digit is no sign
    obtain ⟨c, cs, hc⟩ := List.exists_cons_of_ne_nil (Nat.toDigits_ne_nil (n := whole) (b := 10))
    have hdigit : c.isDigit = true := isDigit_toDigits c (by rw [hc]; exact List.mem_cons_self)
    rw [hc] at hwhole ⊢
    simp only [Bool.false_eq_true, if_false, List.nil_append, List.cons_append,
      List.map_cons] at hwhole ⊢
    split
    · rename_i h
      cases h
      cases hdigit
    · simp only [hwhole, hfraction, hexp, Option.bind_eq_bind, Option.bind_some]

end Json

/-- The text of a numeral starts with its sign or a digit. -/
theorem Numeral.exists_cons_of_text (n : Numeral) :
    ∃ c cs, n.text = c :: cs ∧ (c = '-' ∨ c.isDigit = true) := by
  obtain ⟨c, cs, hc⟩ := List.exists_cons_of_ne_nil (Nat.toDigits_ne_nil (n := n.whole) (b := 10))
  have hdigit : c.isDigit = true := Json.isDigit_toDigits c (by rw [hc]; exact List.mem_cons_self)
  rw [text]
  rw [hc]
  cases n.negative with
  | true => exact ⟨_, _, rfl, .inl rfl⟩
  | false => exact ⟨_, _, rfl, .inr hdigit⟩

end ResponseCache
