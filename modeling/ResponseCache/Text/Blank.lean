/-! # Blank space around a field -/
namespace ResponseCache.Text

/-- Unicode's White_Space characters. -/
def isBlank (c : Char) : Bool :=
  let n := c.toNat
  (0x9 ≤ n && n ≤ 0xd) || n == 0x20 || n == 0x85 || n == 0xa0 || n == 0x1680 ||
    (0x2000 ≤ n && n ≤ 0x200a) || n == 0x2028 || n == 0x2029 || n == 0x202f ||
    n == 0x205f || n == 0x3000

/-- Cuts the longest run of `p` off either end. -/
def trimWhile (p : Char → Bool) (cs : List Char) : List Char :=
  ((cs.dropWhile p).reverse.dropWhile p).reverse

def trim (cs : List Char) : List Char := trimWhile isBlank cs

@[simp] theorem trimWhile_nil (p : Char → Bool) : trimWhile p [] = [] := rfl

theorem dropWhile_eq_self {p : Char → Bool} {cs : List Char} (h : ∀ c ∈ cs, p c = false) :
    cs.dropWhile p = cs := by
  cases cs with
  | nil => rfl
  | cons c cs => exact List.dropWhile_cons_of_neg (by simp [h c])

theorem trimWhile_eq_self {p : Char → Bool} {cs : List Char} (h : ∀ c ∈ cs, p c = false) :
    trimWhile p cs = cs := by
  rw [trimWhile, dropWhile_eq_self h, dropWhile_eq_self fun c hc => h c (List.mem_reverse.mp hc),
    List.reverse_reverse]

theorem trimWhile_map {p : Char → Bool} {f : Char → Char} (hf : ∀ c, p (f c) = p c)
    (cs : List Char) : trimWhile p (cs.map f) = (trimWhile p cs).map f := by
  have hp : p ∘ f = p := funext hf
  rw [trimWhile, trimWhile, List.dropWhile_map, ← List.map_reverse, List.dropWhile_map,
    List.map_reverse, hp]

theorem trim_cons_of_isBlank {c : Char} (h : isBlank c = true) (cs : List Char) :
    trim (c :: cs) = trim cs := by
  rw [trim, trim, trimWhile, trimWhile, List.dropWhile_cons_of_pos h]

/-- Cuts the blanks off the end. -/
def trimEnd (cs : List Char) : List Char := (cs.reverse.dropWhile isBlank).reverse

theorem trim_eq_trimEnd (cs : List Char) : trim cs = trimEnd (cs.dropWhile isBlank) := rfl

theorem trimEnd_cons (c : Char) (cs : List Char) :
    trimEnd (c :: cs) = if isBlank c ∧ trimEnd cs = [] then [] else c :: trimEnd cs := by
  rw [trimEnd, trimEnd, List.reverse_cons, List.dropWhile_append]
  cases h : (cs.reverse.dropWhile isBlank).isEmpty with
  | true =>
    rw [List.isEmpty_iff] at h
    cases hc : isBlank c <;> simp [h, hc]
  | false =>
    rw [List.isEmpty_eq_false_iff] at h
    simp [h]

theorem trimEnd_trimEnd (cs : List Char) : trimEnd (trimEnd cs) = trimEnd cs := by
  induction cs with
  | nil => rfl
  | cons c cs ih =>
    rw [trimEnd_cons]
    split
    · rfl
    · rename_i h
      rw [trimEnd_cons, ih, if_neg h]

theorem trimEnd_append_cons {a : List Char} {c : Char} (hc : isBlank c = false) (b : List Char) :
    trimEnd (a ++ c :: b) = a ++ c :: trimEnd b := by
  induction a with
  | nil => simp [trimEnd_cons, hc]
  | cons d a ih => simp [trimEnd_cons, ih]

/-- Blanks in front of a visible character are cut before it, and those behind it after it. -/
theorem trim_around {c : Char} (hc : isBlank c = false) (a b : List Char) :
    trim (a ++ c :: b) = a.dropWhile isBlank ++ c :: trimEnd b := by
  have hfront : (a ++ c :: b).dropWhile isBlank = a.dropWhile isBlank ++ c :: b := by
    rw [List.dropWhile_append]
    split
    · rename_i hblank
      rw [List.isEmpty_iff] at hblank
      rw [hblank, List.dropWhile_cons_of_neg (by simp [hc]), List.nil_append]
    · rfl
  rw [trim_eq_trimEnd, hfront, trimEnd_append_cons hc]

theorem trim_append_cons {a : List Char} (ha : ∀ c ∈ a, isBlank c = false) {c : Char}
    (hc : isBlank c = false) (b : List Char) : trim (a ++ c :: b) = a ++ c :: trimEnd b := by
  rw [trim_around hc, dropWhile_eq_self ha]

theorem trim_trimEnd (cs : List Char) : trim (trimEnd cs) = trim cs := by
  induction cs with
  | nil => rfl
  | cons c cs ih =>
    cases hc : isBlank c with
    | true =>
      rw [trim_cons_of_isBlank hc, ← ih, trimEnd_cons]
      split
      · rename_i h
        rw [h.2]
      · exact trim_cons_of_isBlank hc _
    | false =>
      have hcons : ∀ cs, trim (c :: cs) = c :: trimEnd cs := trim_append_cons (a := []) (by simp) hc
      have hend : trimEnd (c :: cs) = c :: trimEnd cs := trimEnd_append_cons (a := []) hc cs
      rw [hend, hcons, hcons, trimEnd_trimEnd]

theorem trim_blanks_append {blanks : List Char} (h : ∀ c ∈ blanks, isBlank c = true)
    (cs : List Char) : trim (blanks ++ cs) = trim cs := by
  rw [trim, trimWhile, List.dropWhile_append_of_pos h]
  rfl

theorem trim_dropWhile (cs : List Char) : trim (cs.dropWhile isBlank) = trim cs := by
  have hfront : ∀ c ∈ cs.takeWhile isBlank, isBlank c = true :=
    List.all_eq_true.mp List.all_takeWhile
  rw [← trim_blanks_append hfront, List.takeWhile_append_dropWhile]

theorem trim_append_blanks {blanks : List Char} (h : ∀ c ∈ blanks, isBlank c = true)
    (cs : List Char) : trim (cs ++ blanks) = trim cs := by
  have hend : trimEnd (cs ++ blanks) = trimEnd cs := by
    rw [trimEnd, List.reverse_append,
      List.dropWhile_append_of_pos fun c hc => h c (List.mem_reverse.mp hc)]
    rfl
  rw [← trim_trimEnd, hend, trim_trimEnd]

theorem mem_dropWhile_iff {p : Char → Bool} {c : Char} (hc : p c = false) {cs : List Char} :
    c ∈ cs.dropWhile p ↔ c ∈ cs := by
  induction cs with
  | nil => exact Iff.rfl
  | cons d cs ih =>
    cases hd : p d with
    | true =>
      have hne : c ≠ d := by
        rintro rfl
        rw [hd] at hc
        cases hc
      rw [List.dropWhile_cons_of_pos hd, ih]
      simp [hne]
    | false => rw [List.dropWhile_cons_of_neg (by simp [hd])]

theorem mem_trim_iff {c : Char} (hc : isBlank c = false) {cs : List Char} :
    c ∈ trim cs ↔ c ∈ cs := by
  rw [trim, trimWhile, List.mem_reverse, mem_dropWhile_iff hc, List.mem_reverse,
    mem_dropWhile_iff hc]

/-- ASCII that can be seen. -/
theorem isBlank_of_visible {c : Char} (hlow : 0x20 < c.toNat) (hhigh : c.toNat < 0x7f) :
    isBlank c = false := by
  simp only [isBlank, Bool.or_eq_false_iff, Bool.and_eq_false_iff, decide_eq_false_iff_not,
    beq_eq_false_iff_ne]
  omega

end ResponseCache.Text
