import ResponseCache.Proofs.Wildcards

/-!
# The pattern dialect

What a pattern of a key-value store stands for, said of its characters one by one. The matcher
decides just that, for every text as a pattern, also where a set or an escape is cut off. Behind an
escaped text a pattern keeps its meaning, so that a namespace of any characters at all can stand in
front of it.
-/
namespace ResponseCache.Wildcard

def CharSet.Holds (ranges : CharSet) (c : Char) : Prop :=
  ∃ r ∈ ranges, (r.1 ≤ c ∧ c ≤ r.2) ∨ (r.2 ≤ c ∧ c ≤ r.1)

/-- The inside of a set up to its end, with its ranges in order, and what follows the set. A closing
bracket ends it, wherever it stands for itself, and so does the end of the pattern. -/
inductive Inside : List Char → CharSet → List Char → Prop
  | closed (after : List Char) : Inside (']' :: after) [] after
  | cutOff : Inside [] [] []
  | escaped {rest after : List Char} {ranges : CharSet} (c : Char) : Inside rest ranges after →
    Inside ('\\' :: c :: rest) ((c, c) :: ranges) after
  | range {a : Char} {rest after : List Char} {ranges : CharSet} (b : Char) : a ≠ '\\' → a ≠ ']' →
    Inside rest ranges after → Inside (a :: '-' :: b :: rest) ((a, b) :: ranges) after
  | one {c : Char} {rest after : List Char} {ranges : CharSet} : c ≠ ']' → (c = '\\' → rest = []) →
    (∀ b rest', rest ≠ '-' :: b :: rest') → Inside rest ranges after →
    Inside (c :: rest) ((c, c) :: ranges) after

/-- A pattern stands for a whole text: a star for any run of characters, a question mark for any
one, a set for one of its characters, or for any other one if it starts with a caret, a backslash
and a character for that character, and every other character for itself, also a backslash at the
end. -/
inductive Stands : List Char → List Char → Prop
  | nil : Stands [] []
  | star {pattern text : List Char} (run : List Char) : Stands pattern text →
    Stands ('*' :: pattern) (run ++ text)
  | mark {pattern text : List Char} (c : Char) : Stands pattern text →
    Stands ('?' :: pattern) (c :: text)
  | within {inside after text : List Char} {ranges : CharSet} {c : Char} : inside.head? ≠ some '^' →
    Inside inside ranges after → ranges.Holds c → Stands after text →
    Stands ('[' :: inside) (c :: text)
  | without {inside after text : List Char} {ranges : CharSet} {c : Char} :
    Inside inside ranges after →
    ¬ranges.Holds c → Stands after text → Stands ('[' :: '^' :: inside) (c :: text)
  | escaped {pattern text : List Char} (c : Char) : Stands pattern text →
    Stands ('\\' :: c :: pattern) (c :: text)
  | same {pattern text : List Char} {c : Char} : c ∉ ['*', '?', '['] → (c = '\\' → pattern = []) →
    Stands pattern text → Stands (c :: pattern) (c :: text)

theorem CharSet.has_iff {ranges : CharSet} {c : Char} : ranges.has c = true ↔ ranges.Holds c := by
  simp [has, Holds]

theorem readFrom_of_inside {cs after : List Char} {ranges : CharSet} (h : Inside cs ranges after)
    (s : OpenSet) :
    readFrom (some s) cs = .set s.negated (s.ranges.reverse ++ ranges) :: readFrom none after := by
  induction h generalizing s with
  | closed after => simp [readFrom, OpenSet.token]
  | cutOff => simp [readFrom, OpenSet.token]
  | escaped c _ ih => simp [readFrom, ih, OpenSet.push]
  | range b hslash hclose _ ih =>
    rw [readFrom, ih]
    · simp [OpenSet.push]
    all_goals simp [hslash, hclose]
  | @one c rest after ranges hclose hslash hrange _ ih =>
    rw [readFrom, ih]
    · simp [OpenSet.push]
    · rintro d rest' rfl rfl
      cases hslash rfl
    · exact hclose
    · exact hrange

theorem Inside.length_le {cs after : List Char} {ranges : CharSet} (h : Inside cs ranges after) :
    after.length ≤ cs.length := by
  induction h with
  | closed after => exact Nat.le_succ _
  | cutOff => exact Nat.le_refl _
  | escaped c _ ih => exact Nat.le_add_right_of_le (Nat.le_add_right_of_le ih)
  | range b _ _ _ ih =>
    exact Nat.le_add_right_of_le (Nat.le_add_right_of_le (Nat.le_add_right_of_le ih))
  | one _ _ _ _ ih => exact Nat.le_add_right_of_le ih

/-- Every text is the inside of a set, with something behind it. -/
theorem exists_inside (cs : List Char) : ∃ ranges after, Inside cs ranges after := by
  induction h : cs.length using Nat.strongRecOn generalizing cs with
  | ind n ih =>
    subst h
    cases cs with
    | nil => exact ⟨[], [], .cutOff⟩
    | cons c rest =>
      have hrest : ∀ cs : List Char, cs.length < rest.length + 1 →
          ∃ ranges after, Inside cs ranges after :=
        fun cs hlt => ih cs.length hlt cs rfl
      by_cases hclose : c = ']'
      · subst hclose
        exact ⟨[], rest, .closed rest⟩
      by_cases hescape : c = '\\' ∧ rest ≠ []
      · obtain ⟨rfl, hne⟩ := hescape
        obtain ⟨d, rest, rfl⟩ := List.exists_cons_of_ne_nil hne
        obtain ⟨ranges, after, hinside⟩ := hrest rest (by simp only [List.length_cons]; omega)
        exact ⟨_, after, .escaped d hinside⟩
      have hslash : c = '\\' → rest = [] :=
        fun hc => Decidable.not_not.mp fun hne => hescape ⟨hc, hne⟩
      by_cases hrange : ∃ b rest', rest = '-' :: b :: rest'
      · obtain ⟨b, rest, rfl⟩ := hrange
        obtain ⟨ranges, after, hinside⟩ := hrest rest (by simp only [List.length_cons]; omega)
        refine ⟨_, after, .range b ?_ hclose hinside⟩
        rintro rfl
        cases hslash rfl
      · obtain ⟨ranges, after, hinside⟩ := hrest rest (Nat.lt_succ_self _)
        exact ⟨_, after, .one hclose hslash (fun b rest' heq => hrange ⟨b, rest', heq⟩) hinside⟩

theorem readFrom_set {inside : List Char} (h : inside.head? ≠ some '^') :
    readFrom none ('[' :: inside) = readFrom (some { negated := false }) inside := by
  rw [readFrom]
  rintro rest rfl
  exact h rfl

theorem accepts_of_stands {pattern text : List Char} (h : Stands pattern text) :
    Accepts (readFrom none pattern) text := by
  induction h with
  | nil => rfl
  | star run _ ih =>
    rw [readFrom_star]
    exact accepts_anyRun_iff.mpr ⟨run, _, rfl, ih⟩
  | mark c _ ih =>
    rw [readFrom]
    exact accepts_anyChar_iff.mpr ⟨c, _, rfl, ih⟩
  | within hcaret hinside hholds _ ih =>
    rw [readFrom_set hcaret, readFrom_of_inside hinside]
    exact accepts_set_iff.mpr ⟨_, _, rfl, by simpa using CharSet.has_iff.mpr hholds, ih⟩
  | without hinside hholds _ ih =>
    rw [readFrom, readFrom_of_inside hinside]
    exact accepts_set_iff.mpr ⟨_, _, rfl, by simpa using mt CharSet.has_iff.mp hholds, ih⟩
  | escaped c _ ih =>
    rw [readFrom]
    exact accepts_literal_iff.mpr ⟨_, rfl, ih⟩
  | same hc hslash _ ih =>
    rw [readFrom_same hc hslash]
    exact accepts_literal_iff.mpr ⟨_, rfl, ih⟩

theorem stands_of_accepts {pattern text : List Char} (h : Accepts (readFrom none pattern) text) :
    Stands pattern text := by
  induction hn : pattern.length using Nat.strongRecOn generalizing pattern text with
  | ind n ih =>
    subst hn
    cases pattern with
    | nil =>
      obtain rfl := List.isEmpty_iff.mp h
      exact .nil
    | cons c pattern =>
      have hrest : ∀ {rest text : List Char}, rest.length ≤ pattern.length →
          Accepts (readFrom none rest) text →
          Stands rest text := fun hle h => ih _ (Nat.lt_succ_of_le hle) h rfl
      by_cases hstar : c = '*'
      · subst hstar
        rw [readFrom_star] at h
        obtain ⟨run, rest, rfl, hafter⟩ := accepts_anyRun_iff.mp h
        exact .star run (hrest (Nat.le_refl _) hafter)
      by_cases hmark : c = '?'
      · subst hmark
        rw [readFrom] at h
        obtain ⟨c, rest, rfl, hafter⟩ := accepts_anyChar_iff.mp h
        exact .mark c (hrest (Nat.le_refl _) hafter)
      by_cases hopen : c = '['
      · subst hopen
        by_cases hcaret : pattern.head? = some '^'
        · obtain ⟨inside, rfl⟩ := List.head?_eq_some_iff.mp hcaret
          obtain ⟨ranges, after, hinside⟩ := exists_inside inside
          rw [readFrom, readFrom_of_inside hinside] at h
          obtain ⟨c, rest, rfl, hc, hafter⟩ := accepts_set_iff.mp h
          refine .without hinside (mt CharSet.has_iff.mpr (by simpa using hc)) (hrest ?_ hafter)
          exact Nat.le_succ_of_le hinside.length_le
        · obtain ⟨ranges, after, hinside⟩ := exists_inside pattern
          rw [readFrom_set hcaret, readFrom_of_inside hinside] at h
          obtain ⟨c, rest, rfl, hc, hafter⟩ := accepts_set_iff.mp h
          exact .within hcaret hinside (CharSet.has_iff.mp (by simpa using hc))
            (hrest hinside.length_le hafter)
      by_cases hescape : c = '\\' ∧ pattern ≠ []
      · obtain ⟨rfl, hne⟩ := hescape
        obtain ⟨c, pattern, rfl⟩ := List.exists_cons_of_ne_nil hne
        rw [readFrom] at h
        obtain ⟨rest, rfl, hafter⟩ := accepts_literal_iff.mp h
        exact .escaped c (hrest (Nat.le_succ _) hafter)
      · have hc : c ∉ ['*', '?', '['] := by simp [hstar, hmark, hopen]
        have hslash : c = '\\' → pattern = [] :=
          fun hc => Decidable.not_not.mp fun hne => hescape ⟨hc, hne⟩
        rw [readFrom_same hc hslash] at h
        obtain ⟨rest, rfl, hafter⟩ := accepts_literal_iff.mp h
        exact .same hc hslash (hrest (Nat.le_refl _) hafter)

theorem stands_iff_accepts {pattern text : List Char} :
    Stands pattern text ↔ Accepts (readFrom none pattern) text :=
  ⟨accepts_of_stands, stands_of_accepts⟩

/-- The matcher goes by the dialect. -/
theorem isMatch_iff_stands {pattern text : String} :
    isMatch pattern text = true ↔ Stands pattern.toList text.toList := by
  rw [isMatch_iff, stands_iff_accepts, read]

instance (pattern text : List Char) : Decidable (Stands pattern text) :=
  decidable_of_iff (Pattern.isMatch ((readFrom none pattern).map Token.step) text = true) (by
    rw [Pattern.isMatch_eq_accepts, stands_iff_accepts, Accepts])

theorem stands_escape_append_iff {literal : String} {pattern text : List Char} :
    Stands ((escape literal).toList ++ pattern) text ↔
      ∃ rest, text = literal.toList ++ rest ∧ Stands pattern rest := by
  simp only [stands_iff_accepts, readFrom_escape, accepts_literals_iff]

/-- Patterns stand for what the dialect says. An escaped text in front of any pattern stands for
itself, and the pattern for what it stands for alone. So a scan for a pattern behind a namespace is
for the keys of the namespace that the pattern stands for, and for no others. -/
theorem escape_is_literal :
    (∀ pattern text : String, isMatch pattern text = true ↔ Stands pattern.toList text.toList) ∧
      (∀ literal pattern text : String, isMatch (escape literal ++ pattern) text = true ↔
        ∃ rest, text = literal ++ rest ∧ isMatch pattern rest = true) ∧
      ∀ (c : KeyValue.Scope) (relative name : String),
        isMatch (c.storePattern relative) name = true ↔
        ∃ k, name = c.space.physical k ∧ isMatch relative k.text = true := by
  have hescape : ∀ literal pattern text : String, isMatch (escape literal ++ pattern) text = true ↔
      ∃ rest, text = literal ++ rest ∧ isMatch pattern rest = true := by
    intro literal pattern text
    simp only [isMatch_iff_stands]
    rw [String.toList_append, stands_escape_append_iff]
    constructor
    · rintro ⟨rest, htext, hrest⟩
      refine ⟨String.ofList rest, ?_, by rwa [String.toList_ofList]⟩
      rw [← String.toList_inj, htext, String.toList_append, String.toList_ofList]
    · rintro ⟨rest, rfl, hrest⟩
      exact ⟨rest.toList, String.toList_append, hrest⟩
  refine ⟨fun _ _ => isMatch_iff_stands, hescape, ?_⟩
  intro c relative name
  rw [KeyValue.Scope.storePattern, hescape]
  constructor
  · rintro ⟨rest, rfl, hrest⟩
    exact ⟨⟨rest⟩, rfl, hrest⟩
  · rintro ⟨k, rfl, hk⟩
    exact ⟨k.text, rfl, hk⟩

/-- All signs of patterns in a namespace, in front of a set that is not closed and of a backslash at
the end. -/
example :
    let c : KeyValue.Scope := { space := ⟨"a*?[b]\\-"⟩ }
    c.storePattern "[^x-z\\" = "a\\*\\?\\[b\\]\\\\-[^x-z\\" ∧
      isMatch (c.storePattern "[^x-z\\") "a*?[b]\\-w" = true ∧
      isMatch (c.storePattern "[^x-z\\") "a*?[b]\\-y" = false ∧
      isMatch (c.storePattern "[^x-z\\") "abb\\-w" = false ∧
      isMatch (c.storePattern "*\\") "a*?[b]\\-\\" = true := by
  decide

end ResponseCache.Wildcard
