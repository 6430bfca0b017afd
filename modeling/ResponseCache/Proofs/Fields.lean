import ResponseCache.Message.Headers

/-!
# Header fields name by name

What each operation on header fields does to the fields of a name, in order. All lookups are read
off these fields.
-/
namespace ResponseCache.Headers

def under (h : Headers) (name : String) : List (String × String) := h.fields.filter (named name)

theorem getAll_eq_map (h : Headers) (name : String) : h.getAll name = (h.under name).map (·.2) :=
  rfl

theorem get?_eq_head? (h : Headers) (name : String) : h.get? name = (h.getAll name).head? := by
  rw [get?, getAll, List.head?_map, List.head?_filter]

theorem joined?_eq_none_iff {h : Headers} {name : String} :
    h.joined? name = none ↔ h.getAll name = [] := by
  rw [joined?]
  cases h.getAll name with
  | nil => simp
  | cons value values => simp

theorem joined?_congr {h h' : Headers} {name : String} (heq : h.getAll name = h'.getAll name) :
    h.joined? name = h'.joined? name := by
  rw [joined?, joined?, heq]

theorem named_congr {name name' : String} (hname : Text.sameName name name' = true) :
    named name = named name' := by
  funext field
  rw [named, named, Text.sameName_comm, Text.sameName_congr hname, Text.sameName_comm]

/-- Names that differ in letter case only have the same values. -/
theorem getAll_congr {name name' : String} (hname : Text.sameName name name' = true) (h : Headers) :
    h.getAll name = h.getAll name' := by
  rw [getAll, getAll, named_congr hname]

theorem under_insert (h : Headers) (name value other : String) :
    (h.insert name value).under other =
      h.under other ++ if Text.sameName name other then [(name, value)] else [] := by
  have hnew : named other (name, value) = Text.sameName name other := rfl
  rw [under, under, insert, List.filter_append, List.filter_cons, hnew]
  cases Text.sameName name other with
  | true => rfl
  | false => rfl

theorem under_erase (h : Headers) (name other : String) :
    (h.erase name).under other = if Text.sameName name other then [] else h.under other := by
  simp only [under, erase, List.filter_filter]
  cases hname : Text.sameName name other with
  | true =>
    have hnone : ∀ field : String × String, (named other field && !named name field) = false := by
      intro field
      rw [named_congr hname, Bool.and_not_self]
    simp [hnone]
  | false =>
    have hkept : ∀ field : String × String,
        (named other field && !named name field) = named other field := by
      intro field
      cases hother : named other field with
      | false => rfl
      | true =>
        have hnot : named name field = false := by
          apply Bool.eq_false_iff.mpr
          intro hsame
          rw [named, Text.sameName_comm] at hsame
          exact Bool.eq_false_iff.mp hname (Text.sameName_trans hsame hother)
        rw [hnot]
        rfl
    simp [hkept]

/-- Setting a name replaces its fields and leaves those of other names. -/
theorem under_set (h : Headers) (name value other : String) :
    (h.set name value).under other =
      if Text.sameName name other then [(name, value)] else h.under other := by
  rw [set, under_insert, under_erase]
  split
  · rfl
  · exact List.append_nil _

theorem getAll_erase (h : Headers) (name other : String) :
    (h.erase name).getAll other = if Text.sameName name other then [] else h.getAll other := by
  rw [getAll_eq_map, getAll_eq_map, under_erase]
  split
  · rfl
  · rfl

/-- Setting a name replaces its values and leaves those of other names. -/
theorem getAll_set (h : Headers) (name value other : String) :
    (h.set name value).getAll other =
      if Text.sameName name other then [value] else h.getAll other := by
  rw [getAll_eq_map, getAll_eq_map, under_set]
  split
  · rfl
  · rfl

theorem erase_comm (h : Headers) (name name' : String) :
    (h.erase name).erase name' = (h.erase name').erase name := by
  simp only [erase, List.filter_filter, Bool.and_comm]

@[simp] theorem erase_set_self (h : Headers) (name value : String) :
    (h.set name value).erase name = h.erase name := by
  have hnew : named name (name, value) = true := Text.sameName_self name
  simp [set, insert, erase, List.filter_append, List.filter_filter, hnew]

theorem erase_set_of_ne {name other : String} (hname : Text.sameName name other = false)
    (h : Headers) (value : String) :
    (h.set name value).erase other = (h.erase other).set name value := by
  have hnew : named other (name, value) = false := hname
  rw [set, set, erase_comm h other name]
  simp [insert, erase, List.filter_append, hnew]

/-- Fields are those of a name and the others, each in their own order. -/
theorem erase_append_under_perm (h : Headers) (name : String) :
    ((h.erase name).fields ++ h.under name).Perm h.fields :=
  List.perm_append_comm.trans (List.filter_append_perm (named name) h.fields)

/-- Setting the one field of a name to what it is moves it at most. -/
theorem set_perm {h : Headers} {name value : String} (hone : h.under name = [(name, value)]) :
    (h.set name value).fields.Perm h.fields := by
  have hparts := h.erase_append_under_perm name
  rwa [hone] at hparts

end ResponseCache.Headers
