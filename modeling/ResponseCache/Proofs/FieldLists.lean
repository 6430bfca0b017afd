import Mathlib
import ResponseCache.Proofs.Fields

/-!
# Header fields as lists of values

Fields that change call by call are, name by name, lists of values that change by themselves. A call
with a name leaves the pairs of all other names as they are, and whatever is looked up is to be had
from the lists.
-/
namespace ResponseCache

namespace Text

def SameLetter (c d : Char) : Prop :=
  c = d ∨ (c.isUpper = true ∧ d.toNat = c.toNat + 32) ∨ (d.isUpper = true ∧ c.toNat = d.toNat + 32)

theorem isUpper_iff {c : Char} : c.isUpper = true ↔ 65 ≤ c.toNat ∧ c.toNat ≤ 90 := by
  simp [Char.isUpper, UInt32.le_iff_toNat_le, ← Char.toNat_val]

theorem toNat_toLower (c : Char) :
    c.toLower.toNat = if 65 ≤ c.toNat ∧ c.toNat ≤ 90 then c.toNat + 32 else c.toNat := by
  rw [Char.toLower]
  split
  · rename_i h
    obtain ⟨hlow, hhigh⟩ := isUpper_iff.mp (decide_eq_true h)
    rw [if_pos ⟨hlow, hhigh⟩]
    show (c.val + 32).toNat = _
    rw [UInt32.toNat_add, Char.toNat_val]
    simp only [UInt32.reduceToNat]
    omega
  · rename_i h
    rw [if_neg (mt isUpper_iff.mpr (by simpa [Char.isUpper] using h))]

theorem toLower_eq_iff {c d : Char} : c.toLower = d.toLower ↔ SameLetter c d := by
  have hc := toNat_toLower c
  have hd := toNat_toLower d
  rw [SameLetter, ← Char.toNat_inj, ← Char.toNat_inj, isUpper_iff, isUpper_iff]
  split at hc <;> split at hd <;> omega

/-- Names are the same if they are so character by character. -/
theorem sameName_iff_forall₂ {a b : String} :
    sameName a b = true ↔ List.Forall₂ SameLetter a.toList b.toList := by
  rw [sameName_iff, lower, lower, ← List.forall₂_eq_eq_eq, List.forall₂_map_left_iff,
    List.forall₂_map_right_iff]
  simp only [toLower_eq_iff]

end Text

namespace Headers

inductive Change
  | insert (name value : String)
  | set (name value : String)
  | remove (name : String)

def Change.name : Change → String
  | insert name _ | set name _ | remove name => name

def change (h : Headers) : Change → Headers
  | .insert name value => h.insert name value
  | .set name value => h.set name value
  | .remove name => (h.remove name).2

def changes (h : Headers) (cs : List Change) : Headers := cs.foldl change h

def Change.onValues (values : List String) : Change → List String
  | insert _ value => values ++ [value]
  | set _ value => [value]
  | remove _ => []

/-- What calls make of the values of a name. Only those count that have the name, in any letter
case. -/
def Change.listed (name : String) (cs : List Change) (values : List String) : List String :=
  (cs.filter fun c => Text.sameName c.name name).foldl onValues values

theorem getAll_insert (h : Headers) (name value other : String) :
    (h.insert name value).getAll other =
      h.getAll other ++ if Text.sameName name other then [value] else [] := by
  rw [getAll_eq_map, getAll_eq_map, under_insert, List.map_append]
  split
  · rfl
  · rfl

theorem getAll_change (h : Headers) (c : Change) (name : String) :
    (h.change c).getAll name =
      if Text.sameName c.name name then c.onValues (h.getAll name) else h.getAll name := by
  cases c with
  | insert other value =>
    rw [change, getAll_insert, Change.name]
    split
    · rfl
    · exact List.append_nil _
  | set other value => exact h.getAll_set other value name
  | remove other => exact h.getAll_erase other name

theorem getAll_changes (h : Headers) (cs : List Change) (name : String) :
    (h.changes cs).getAll name = Change.listed name cs (h.getAll name) := by
  induction cs generalizing h with
  | nil => rfl
  | cons c cs ih =>
    rw [changes, List.foldl_cons, ← changes, ih, getAll_change, Change.listed, Change.listed,
      List.filter_cons]
    split
    · rfl
    · rfl

/-- A call leaves the fields of every other name, their spelling and their order. -/
theorem erase_change (h : Headers) (c : Change) : (h.change c).erase c.name = h.erase c.name := by
  cases c with
  | insert name value =>
    have hnew : named name (name, value) = true := Text.sameName_self name
    simp [change, Change.name, insert, erase, List.filter_append, hnew]
  | set name value => exact h.erase_set_self name value
  | remove name =>
    simp [change, Change.name, remove, erase, List.filter_filter]

theorem size_eq_add (h : Headers) (name : String) :
    h.size = (h.getAll name).length + (h.erase name).size := by
  rw [size, ← (h.erase_append_under_perm name).length_eq, List.length_append, getAll_eq_map,
    List.length_map, Nat.add_comm]
  rfl

theorem contains_iff {h : Headers} {name : String} :
    h.contains name = true ↔ h.getAll name ≠ [] := by
  rw [contains, getAll, Ne, List.map_eq_nil_iff, List.filter_eq_nil_iff]
  simp

theorem remove_iff {h : Headers} {name : String} :
    (h.remove name).1 = true ↔ h.getAll name ≠ [] := by
  have hsize := h.size_eq_add name
  rw [remove, decide_eq_true_iff, ← List.length_pos_iff]
  omega

structure IsIndex (names : List String) (h : Headers) : Prop where
  apart : names.Pairwise fun a b => Text.sameName a b = false
  complete : ∀ field ∈ h.fields, ∃ name ∈ names, Text.sameName field.1 name = true

theorem size_eq_sum {names : List String} {h : Headers} (hnames : IsIndex names h) :
    h.size = (names.map fun name => (h.getAll name).length).sum := by
  induction names generalizing h with
  | nil =>
    obtain ⟨-, hcomplete⟩ := hnames
    cases hfields : h.fields with
    | nil => rw [size, hfields]; rfl
    | cons field fields =>
      obtain ⟨name, hname, -⟩ := hcomplete field (by rw [hfields]; exact List.mem_cons_self)
      cases hname
  | cons name names ih =>
    obtain ⟨hname, hapart⟩ := List.pairwise_cons.mp hnames.apart
    have hrest : IsIndex names (h.erase name) := by
      refine ⟨hapart, ?_⟩
      intro field hfield
      obtain ⟨hmem, hother⟩ := List.mem_filter.mp hfield
      obtain ⟨found, hfound, hsame⟩ := hnames.complete field hmem
      refine ⟨found, (List.mem_cons.mp hfound).resolve_left ?_, hsame⟩
      rintro rfl
      simp [named, hsame] at hother
    have hsame : ∀ other ∈ names, ((h.erase name).getAll other).length =
        (h.getAll other).length := by
      intro other hother
      rw [getAll_erase, hname other hother]
      rfl
    rw [size_eq_add h name, ih hrest, List.map_cons, List.sum_cons, List.map_congr_left hsame]

def names (h : Headers) : List String :=
  (h.fields.map (·.1)).pwFilter fun a b => Text.sameName a b = false

theorem isIndex_names (h : Headers) : IsIndex h.names h := by
  refine ⟨List.pairwise_pwFilter _, ?_⟩
  intro field hfield
  apply Decidable.byContradiction
  intro hnone
  have hother : ∀ name ∈ h.names, Text.sameName field.1 name = false := by
    intro name hname
    exact Bool.eq_false_iff.mpr fun hsame => hnone ⟨name, hname, hsame⟩
  have htrans : ∀ {a b c : String}, Text.sameName a c = false →
      Text.sameName a b = false ∨ Text.sameName b c = false := by
    intro a b c hne
    cases hab : Text.sameName a b with
    | false => exact .inl rfl
    | true => exact .inr ((Text.sameName_congr hab c).symm.trans hne)
  have hall := (List.forall_mem_pwFilter (R := fun a b => Text.sameName a b = false) htrans
    field.1 _).mp hother
  have hself := hall field.1 (List.mem_map_of_mem hfield)
  rw [Text.sameName_self] at hself
  cases hself

/-- Whatever is looked up under a name is to be had from a list of values. -/
structure Gives (h : Headers) (name : String) (values : List String) : Prop where
  getAll : h.getAll name = values
  get? : h.get? name = values.head?
  joined? : h.joined? name = if values = [] then none else some (", ".intercalate values)
  contains : h.contains name = true ↔ values ≠ []
  remove : (h.remove name).1 = true ↔ values ≠ []

theorem gives_getAll (h : Headers) (name : String) : h.Gives name (h.getAll name) where
  getAll := rfl
  get? := h.get?_eq_head? name
  joined? := by
    rw [Headers.joined?]
    cases h.getAll name with
    | nil => rfl
    | cons value values => rfl
  contains := contains_iff
  remove := remove_iff

/-- However calls follow each other on any fields, the values of a name are those that the calls
with this name make of its first ones, and all lookups of the name go by them. A call leaves the
fields of all other names as they are spelled and ordered. There are as many fields as values of all
names together. Names are the same up to the case of ASCII letters. -/
theorem changes_are_lists (pairs : List (String × String)) (cs : List Change) :
    let h := (⟨pairs⟩ : Headers).changes cs
    (∀ name, h.Gives name
      (Change.listed name cs
        ((pairs.filter fun field => Text.sameName field.1 name).map fun field => field.2))) ∧
    (∀ c : Change, ((h.change c).fields.filter fun field => !Text.sameName field.1 c.name) =
      h.fields.filter fun field => !Text.sameName field.1 c.name) ∧
    (∃ names, IsIndex names h) ∧
    (∀ names, IsIndex names h → h.size = (names.map fun name => (h.getAll name).length).sum) ∧
    ∀ a b, Text.sameName a b = true ↔ List.Forall₂ Text.SameLetter a.toList b.toList := by
  intro h
  refine ⟨?_, ?_, ⟨h.names, h.isIndex_names⟩, fun _ => size_eq_sum,
    fun _ _ => Text.sameName_iff_forall₂⟩
  · intro name
    have hvalues : h.getAll name = Change.listed name cs ((⟨pairs⟩ : Headers).getAll name) :=
      getAll_changes _ cs name
    have hgives := h.gives_getAll name
    rw [hvalues] at hgives
    exact hgives
  · intro c
    exact congrArg fields (h.erase_change c)

/-- Three spellings of one name, and a letter that is the small one of another outside ASCII
only. -/
theorem changes_are_lists_spellings :
    let pairs := [("ETag", "a"), ("Age", "1"), ("etag", "b")]
    let h := (⟨pairs⟩ : Headers).changes
      [.insert "AGE" "2", .set "eTAG" "c", .insert "k" "x", .insert "\u212a" "y", .remove "K"]
    h.fields = [("Age", "1"), ("AGE", "2"), ("eTAG", "c"), ("\u212a", "y")] ∧
      h.Gives "ETAG" ["c"] ∧ h.Gives "k" [] ∧ h.joined? "age" = some "1, 2" ∧
      (h.change (.set "age" "3")).fields = [("eTAG", "c"), ("\u212a", "y"), ("age", "3")] ∧
      h.size = (["age", "etag", "\u212a"].map fun name => (h.getAll name).length).sum := by
  intro pairs h
  have hindex : IsIndex ["age", "etag", "\u212a"] h := ⟨by decide, by decide⟩
  obtain ⟨hgives, -, -, hsize, -⟩ := changes_are_lists pairs
    [.insert "AGE" "2", .set "eTAG" "c", .insert "k" "x", .insert "\u212a" "y", .remove "K"]
  exact ⟨by decide, hgives "ETAG", hgives "k", (hgives "age").joined?, by decide, hsize _ hindex⟩

end Headers
end ResponseCache
