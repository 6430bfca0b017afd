import ResponseCache.Ascending

/-!
# Keyed tables in key order

A table lists its keys in ascending order, so two tables with the same content are equal.
-/
namespace ResponseCache

structure KeyMap (α : Type) where
  entries : List (String × α)
  ascending : entries.Pairwise (fun a b => a.1 < b.1)

namespace KeyMap
variable {α β : Type}

def empty : KeyMap α := ⟨[], .nil⟩

instance : Inhabited (KeyMap α) := ⟨empty⟩

def find? (m : KeyMap α) (key : String) : Option α := m.entries.lookup key

def size (m : KeyMap α) : Nat := m.entries.length

def keys (m : KeyMap α) : List String := m.entries.map (·.1)

def put (key : String) (value : α) : List (String × α) → List (String × α)
  | [] => [(key, value)]
  | e :: es => if key < e.1 then (key, value) :: e :: es
    else if key = e.1 then (key, value) :: es else e :: put key value es

theorem mem_put {key : String} {value : α} {es : List (String × α)} {x : String × α}
    (h : x ∈ put key value es) : x = (key, value) ∨ x ∈ es := by
  induction es with
  | nil => simpa [put] using h
  | cons e es ih =>
    unfold put at h
    split at h
    · simpa using h
    · split at h
      · rcases List.mem_cons.mp h with h | h
        · exact .inl h
        · exact .inr (List.mem_cons_of_mem _ h)
      · rcases List.mem_cons.mp h with h | h
        · exact .inr (h ▸ List.mem_cons_self)
        · exact (ih h).imp_right (List.mem_cons_of_mem _)

theorem pairwise_put {key : String} {value : α} {es : List (String × α)}
    (h : es.Pairwise (fun a b => a.1 < b.1)) :
    (put key value es).Pairwise (fun a b => a.1 < b.1) := by
  induction es with
  | nil => simp [put]
  | cons e es ih =>
    obtain ⟨he, hes⟩ := List.pairwise_cons.mp h
    unfold put
    split
    · rename_i hk
      refine List.pairwise_cons.mpr ⟨?_, h⟩
      intro x hx
      rcases List.mem_cons.mp hx with rfl | hx
      · exact hk
      · exact text_lt_trans hk (he x hx)
    · split
      · rename_i hk; exact List.pairwise_cons.mpr ⟨fun x hx => hk ▸ he x hx, hes⟩
      · rename_i hk hne
        refine List.pairwise_cons.mpr ⟨?_, ih hes⟩
        intro x hx
        rcases mem_put hx with rfl | hx
        · exact text_lt_of_not hk hne
        · exact he x hx

theorem lookup_step (e : String × α) (es : List (String × α)) (k : String) :
    (e :: es).lookup k = if k = e.1 then some e.2 else es.lookup k := by
  rcases e with ⟨key, value⟩
  by_cases h : k = key
  · simp [h]
  · simp [List.lookup_cons, beq_eq_false_iff_ne.mpr h, h]

theorem lookup_put {key : String} {value : α} {es : List (String × α)} (k : String) :
    (put key value es).lookup k = if k = key then some value else es.lookup k := by
  induction es with
  | nil => simp [put, lookup_step]
  | cons e es ih =>
    unfold put
    split
    · simp only [lookup_step]
    · split
      · rename_i hk; simp only [lookup_step, ← hk]; split <;> rfl
      · rename_i hk
        simp only [lookup_step, ih]
        by_cases h : k = key
        · subst h; simp [hk]
        · simp [h]

/-- Where keys ascend, a lookup finds every entry. -/
theorem lookup_eq_some_iff {es : List (String × α)} (h : es.Pairwise (fun a b => a.1 < b.1))
    {k : String} {value : α} : es.lookup k = some value ↔ (k, value) ∈ es := by
  induction es with
  | nil => simp
  | cons e es ih =>
    obtain ⟨he, hes⟩ := List.pairwise_cons.mp h
    rw [lookup_step, List.mem_cons]
    split
    · rename_i hk
      subst hk
      have hne : (e.1, value) ∉ es := fun hm => text_lt_irrefl e.1 (he (e.1, value) hm)
      simp only [Option.some.injEq, hne, or_false, Prod.ext_iff, true_and, eq_comm]
    · rename_i hk; simp [hk, ih hes, Prod.ext_iff]

/-- Replaces the value of a key that is there already. -/
def insert (m : KeyMap α) (key : String) (value : α) : KeyMap α :=
  ⟨put key value m.entries, pairwise_put m.ascending⟩

def filter (m : KeyMap α) (keep : String → α → Bool) : KeyMap α :=
  ⟨m.entries.filter fun e => keep e.1 e.2, m.ascending.filter _⟩

def erase (m : KeyMap α) (key : String) : KeyMap α := m.filter fun k _ => k != key

def contains (m : KeyMap α) (key : String) : Bool := (m.find? key).isSome

theorem find?_eq_some_iff {m : KeyMap α} {k : String} {value : α} :
    m.find? k = some value ↔ (k, value) ∈ m.entries :=
  lookup_eq_some_iff m.ascending

@[simp] theorem find?_empty (k : String) : (empty : KeyMap α).find? k = none := rfl

theorem find?_insert (m : KeyMap α) (key : String) (value : α) (k : String) :
    (m.insert key value).find? k = if k = key then some value else m.find? k := lookup_put k

theorem find?_filter (m : KeyMap α) (keep : String → α → Bool) (k : String) :
    (m.filter keep).find? k = (m.find? k).filter (keep k) := by
  apply Option.ext
  intro value
  simp [find?_eq_some_iff, filter, Option.filter_eq_some_iff]

theorem find?_erase (m : KeyMap α) (key k : String) :
    (m.erase key).find? k = if k = key then none else m.find? k := by
  rw [erase, find?_filter]
  by_cases h : k = key <;> cases m.find? k <;> simp [h]

end KeyMap
end ResponseCache
