import ResponseCache.Proofs.Directives
import ResponseCache.Proofs.Fields

/-!
# What field values say together

A Cache-Control value says what its directives say one by one. So values joined by a comma, and
fields that repeat, say together what the merge of their policies says, whatever stands at the seam.
Letter case says nothing.
-/
namespace ResponseCache

def Visibility.merge (u v : Visibility) : Visibility :=
  if u = .privately ∨ v = .privately then .privately
  else if u = .publicly ∨ v = .publicly then .publicly
  else .unspecified

namespace Policy

/-- Flags add up, and of two lifetimes of one name the first holds. -/
def merge (p q : Policy) : Policy where
  ttl := p.ttl.or q.ttl
  visibility := p.visibility.merge q.visibility
  noCache := p.noCache || q.noCache
  noStore := p.noStore || q.noStore
  mustRevalidate := p.mustRevalidate || q.mustRevalidate
  immutable := p.immutable || q.immutable
  staleWhileRevalidate := p.staleWhileRevalidate.or q.staleWhileRevalidate
  staleIfError := p.staleIfError.or q.staleIfError

def mergeAll (ps : List Policy) : Policy := ps.foldl merge {}

end Policy

theorem Visibility.merge_unspecified (v : Visibility) : v.merge .unspecified = v := by
  cases v <;> rfl

theorem Visibility.unspecified_merge (v : Visibility) : unspecified.merge v = v := by
  cases v <;> rfl

theorem Visibility.merge_assoc (u v w : Visibility) :
    (u.merge v).merge w = u.merge (v.merge w) := by
  cases u <;> cases v <;> cases w <;> rfl

namespace Policy

@[simp] theorem merge_empty (p : Policy) : p.merge {} = p := by
  simp [merge, Visibility.merge_unspecified]

@[simp] theorem empty_merge (p : Policy) : merge {} p = p := by
  simp [merge, Visibility.unspecified_merge]

theorem merge_assoc (p q r : Policy) : (p.merge q).merge r = p.merge (q.merge r) := by
  simp only [merge, Visibility.merge_assoc, Option.or_assoc, Bool.or_assoc]

theorem foldl_merge (p : Policy) (ps : List Policy) : ps.foldl merge p = p.merge (mergeAll ps) := by
  induction ps generalizing p with
  | nil => exact p.merge_empty.symm
  | cons q ps ih =>
    rw [List.foldl_cons, mergeAll, List.foldl_cons, empty_merge, ih, ih, merge_assoc]

@[simp] theorem mergeAll_nil : mergeAll [] = {} := rfl

@[simp] theorem mergeAll_cons (p : Policy) (ps : List Policy) :
    mergeAll (p :: ps) = p.merge (mergeAll ps) := by
  rw [mergeAll, List.foldl_cons, empty_merge, foldl_merge]

@[simp] theorem mergeAll_append (ps qs : List Policy) :
    mergeAll (ps ++ qs) = (mergeAll ps).merge (mergeAll qs) := by
  rw [mergeAll, List.foldl_append, foldl_merge, ← mergeAll]

end Policy

namespace CacheControl

def Directive.policy (x : Directive) : Policy := x.apply {}

theorem Directive.apply_eq_merge (p : Policy) (x : Directive) : apply p x = p.merge x.policy := by
  cases x with
  | publicly =>
    obtain ⟨ttl, visibility⟩ := p
    cases visibility <;> simp [apply, policy, Policy.merge, Visibility.merge]
  | privately => simp [apply, policy, Policy.merge, Visibility.merge]
  | _ => simp [apply, policy, Policy.merge, Visibility.merge_unspecified]

theorem read_eq_mergeAll (value : String) :
    read value = Policy.mergeAll ((directives value.toList).map Directive.policy) := by
  have happly : Directive.apply = fun p x => p.merge x.policy := by
    funext p x
    exact x.apply_eq_merge p
  rw [read, Policy.mergeAll, List.foldl_map, happly]

theorem read_comma (a b : String) : read (a ++ "," ++ b) = (read a).merge (read b) := by
  have hlist : (a ++ "," ++ b).toList = a.toList ++ ',' :: b.toList := by simp
  rw [read_eq_mergeAll, hlist, directives_comma, List.map_append, Policy.mergeAll_append,
    ← read_eq_mergeAll, ← read_eq_mergeAll]

theorem read_space (a : String) : read (" " ++ a) = read a := by
  have hlist : (" " ++ a).toList = ' ' :: a.toList := by simp
  rw [read_eq_mergeAll, hlist, directives_space, ← read_eq_mergeAll]

theorem read_comma_space (a b : String) : read (a ++ ", " ++ b) = (read a).merge (read b) := by
  have hseam : a ++ ", " ++ b = a ++ "," ++ (" " ++ b) := by
    show a ++ ("," ++ " ") ++ b = _
    simp only [String.append_assoc]
  rw [hseam, read_comma, read_space]

theorem read_intercalate (values : List String) :
    read (", ".intercalate values) = Policy.mergeAll (values.map read) := by
  induction values with
  | nil => rfl
  | cons a values ih =>
    cases values with
    | nil => simp
    | cons b values =>
      rw [String.intercalate_cons_cons, read_comma_space, ih, ← Policy.mergeAll_cons,
        ← List.map_cons]

theorem read_congr {a b : String} (h : Text.sameName a b = true) : read a = read b := by
  have hlower : a.toList.map Char.toLower = b.toList.map Char.toLower := Text.sameName_iff.mp h
  rw [read, read, ← directives_lower, hlower, directives_lower]

theorem ofHeaders_eq_mergeAll (h : Headers) :
    ofHeaders h = Policy.mergeAll ((h.getAll "Cache-Control").map read) := by
  have hsame : h.getAll "cache-control" = h.getAll "Cache-Control" :=
    Headers.getAll_congr (by decide) h
  rw [ofHeaders, Headers.joined?, hsame]
  cases h.getAll "Cache-Control" with
  | nil => rfl
  | cons value values => exact read_intercalate (value :: values)

/-- Values around a comma say what their merge says, a value says the same in any letter case, and a
response says what its Cache-Control fields say in order, whatever their names' letter case and
whatever other fields it has. -/
theorem values_merge :
    (∀ a b : String, read (a ++ "," ++ b) = (read a).merge (read b)) ∧
      (∀ a b : String, Text.sameName a b = true → read a = read b) ∧
      (∀ h : Headers, ofHeaders h = Policy.mergeAll
        ((h.fields.filter fun field => Text.sameName field.1 "Cache-Control").map fun field =>
          read field.2)) ∧
      ∀ h h' : Headers, h.getAll "Cache-Control" = h'.getAll "Cache-Control" →
        ofHeaders h = ofHeaders h' := by
  refine ⟨read_comma, fun _ _ => read_congr, ?_, ?_⟩
  · intro h
    rw [ofHeaders_eq_mergeAll, Headers.getAll, List.map_map]
    rfl
  · intro h h' hvalues
    rw [ofHeaders_eq_mergeAll, ofHeaders_eq_mergeAll, hvalues]

/-- Empty and nameless directives, blanks and a quoted lifetime at the seam, in one value and in two
fields with another field between them. -/
theorem values_merge_at_the_seam :
    let a := "Public, max-age=\"5\" ,,"
    let b := " =, PRIVATE ,Max-Age=60, must-revalidate"
    let both : Policy :=
      { ttl := some (.ofSeconds 5), visibility := .privately, mustRevalidate := true }
    read (a ++ "," ++ b) = both ∧ read b = read " =, private ,max-age=60, Must-Revalidate" ∧
      ofHeaders ⟨[("cache-control", a), ("X-Cache-Control", "no-store"), ("CACHE-Control", b)]⟩ =
        both ∧
      ofHeaders ⟨[("cache-control", a), ("CACHE-Control", b)]⟩ =
        ofHeaders ⟨[("Cache-Control", a), ("Cache-Control", b)]⟩ := by
  obtain ⟨hcomma, hcase, hfields, hothers⟩ := values_merge
  intro a b both
  exact ⟨(hcomma a b).trans (by decide), hcase _ _ (by decide), (hfields _).trans (by decide),
    hothers _ _ (by decide)⟩

end CacheControl
end ResponseCache
