/-! # Cutting a text at a character -/
namespace ResponseCache.Text

/-- The parts before and after the first `sep`. -/
def splitOnce (sep : Char) : List Char → Option (List Char × List Char)
  | [] => none
  | c :: cs => if c = sep then some ([], cs) else (splitOnce sep cs).map fun (a, b) => (c :: a, b)

/-- What follows `lead`, when the text starts with it. -/
def stripLead (lead : List Char) (cs : List Char) : Option (List Char) :=
  if lead.isPrefixOf cs then some (cs.drop lead.length) else none

theorem splitOnce_none_iff {sep : Char} {cs : List Char} : splitOnce sep cs = none ↔ sep ∉ cs := by
  induction cs with
  | nil => simp [splitOnce]
  | cons c cs ih =>
    by_cases h : c = sep
    · simp [splitOnce, h]
    · simp [splitOnce, h, ih, Ne.symm h]

theorem splitOnce_append {sep : Char} {a : List Char} (h : sep ∉ a) (b : List Char) :
    splitOnce sep (a ++ sep :: b) = some (a, b) := by
  induction a with
  | nil => simp [splitOnce]
  | cons c a ih =>
    obtain ⟨hc, ha⟩ : sep ≠ c ∧ sep ∉ a := by simpa using h
    simp [splitOnce, Ne.symm hc, ih ha]

theorem splitOnce_some {sep : Char} {cs a b : List Char} (h : splitOnce sep cs = some (a, b)) :
    cs = a ++ sep :: b ∧ sep ∉ a := by
  induction cs generalizing a b with
  | nil => simp [splitOnce] at h
  | cons c cs ih =>
    by_cases hc : c = sep
    · simp only [splitOnce, hc, if_true, Option.some.injEq, Prod.mk.injEq] at h
      obtain ⟨rfl, rfl⟩ := h
      simp [hc]
    · simp only [splitOnce, hc, if_false, Option.map_eq_some_iff] at h
      obtain ⟨⟨a', b'⟩, h', e⟩ := h
      obtain ⟨rfl, rfl⟩ := Prod.mk.inj e
      obtain ⟨rfl, hn⟩ := ih h'
      simp [Ne.symm hc, hn]

/-- A map that makes no separators and removes none can be done before or after a cut. -/
theorem splitOnce_map {f : Char → Char} {sep : Char} (hf : ∀ c, (f c == sep) = (c == sep))
    (cs : List Char) :
    splitOnce sep (cs.map f) = (splitOnce sep cs).map fun (a, b) => (a.map f, b.map f) := by
  induction cs with
  | nil => rfl
  | cons c cs ih =>
    have hc : f c = sep ↔ c = sep := by simpa using Bool.eq_iff_iff.mp (hf c)
    rw [List.map_cons, splitOnce, splitOnce, ih]
    simp only [hc]
    split
    · rfl
    · cases splitOnce sep cs <;> rfl

theorem splitOn_map {f : Char → Char} {sep : Char} (hf : ∀ c, (f c == sep) = (c == sep))
    (cs : List Char) : (cs.map f).splitOn sep = (cs.splitOn sep).map (·.map f) := by
  induction cs with
  | nil => rfl
  | cons c cs ih =>
    rw [List.splitOn, List.splitOn] at *
    rw [List.map_cons, List.splitOnP_cons_eq_if_modifyHead,
      List.splitOnP_cons_eq_if_modifyHead, hf, ih]
    split
    · rfl
    · cases List.splitOnP (· == sep) cs <;> rfl

/-- What stands in front without a separator belongs to the first part. -/
theorem splitOn_append_of_not_mem {sep : Char} {a : List Char} (h : sep ∉ a) (b : List Char) :
    (a ++ b).splitOn sep = (b.splitOn sep).modifyHead (a ++ ·) := by
  induction a with
  | nil =>
    rw [List.nil_append]
    cases b.splitOn sep with
    | nil => rfl
    | cons part parts => rfl
  | cons c a ih =>
    obtain ⟨hc, ha⟩ : sep ≠ c ∧ sep ∉ a := by simpa using h
    have hne : (c == sep) = false := beq_eq_false_iff_ne.mpr hc.symm
    have hrest := ih ha
    rw [List.splitOn] at hrest ⊢
    rw [List.cons_append, List.splitOnP_cons_eq_if_modifyHead, hne, hrest, List.splitOn]
    cases List.splitOnP (· == sep) b with
    | nil => rfl
    | cons part parts => rfl

theorem splitOn_of_not_mem {sep : Char} {cs : List Char} (h : sep ∉ cs) :
    cs.splitOn sep = [cs] := by
  have hsplit := splitOn_append_of_not_mem h []
  rw [List.append_nil] at hsplit
  rw [hsplit]
  exact congrArg ([·]) cs.append_nil

theorem not_mem_of_mem_splitOn {sep : Char} {cs part : List Char} (h : part ∈ cs.splitOn sep) :
    sep ∉ part := by
  induction cs generalizing part with
  | nil =>
    rw [List.mem_singleton.mp h]
    exact List.not_mem_nil
  | cons c cs ih =>
    rw [List.splitOn, List.splitOnP_cons_eq_if_modifyHead, ← List.splitOn] at h
    split at h
    · rcases List.mem_cons.mp h with rfl | hmem
      · exact List.not_mem_nil
      · exact ih hmem
    · rename_i hc
      obtain ⟨first, parts, hparts⟩ :=
        List.exists_cons_of_ne_nil (List.splitOnP_ne_nil (· == sep) cs)
      replace hparts : cs.splitOn sep = first :: parts := hparts
      rw [hparts] at h ih
      rcases List.mem_cons.mp h with rfl | hmem
      · have hne : sep ≠ c := fun heq => hc (beq_iff_eq.mpr heq.symm)
        simp [hne, ih List.mem_cons_self]
      · exact ih (List.mem_cons_of_mem first hmem)

theorem stripLead_append (lead cs : List Char) : stripLead lead (lead ++ cs) = some cs := by
  simp [stripLead]

theorem stripLead_eq_some_iff {lead cs rest : List Char} :
    stripLead lead cs = some rest ↔ cs = lead ++ rest := by
  constructor
  · intro h
    by_cases hp : lead.isPrefixOf cs = true
    · obtain ⟨t, rfl⟩ := List.isPrefixOf_iff_prefix.mp hp
      simp [stripLead] at h
      rw [h]
    · simp [stripLead, hp] at h
  · rintro rfl; exact stripLead_append lead rest

end ResponseCache.Text
