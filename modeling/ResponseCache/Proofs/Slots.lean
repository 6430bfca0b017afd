import ResponseCache.Memory.Basic

/-!
# What operations leave of a slot

Each operation of the store in memory, seen from one physical key. A key is undisturbed between two
states when nothing wrote it and nothing removed it while it could still be read; a sweep disturbs
no key.
-/
namespace ResponseCache

theorem Slot.isLive_mono {s : Slot} {t u : Instant} (h : t ≤ u) (hu : s.isLive u = true) :
    s.isLive t = true :=
  Instant.isBefore_mono h hu

namespace Memory

theorem find?_removeWhere (n : Namespace) (doomed : Key → Slot → Bool) (m : Memory) (k : Key) :
    (m.removeWhere n doomed).2.slots.find? (n.physical k) =
      (m.slots.find? (n.physical k)).filter fun slot => !doomed k slot := by
  simp only [removeWhere, KeyMap.find?_filter, Namespace.logical?_physical]

theorem find?_delete (n : Namespace) (k : Key) (m : Memory) (physical : String) :
    (m.delete n k).2.slots.find? physical =
      if physical = n.physical k then none else m.slots.find? physical :=
  KeyMap.find?_erase ..

theorem get_eq_some_iff {n : Namespace} {now : Instant} {k : Key} {m : Memory} {e : Entry} :
    m.get n now k = some e ↔
      ∃ s, m.slots.find? (n.physical k) = some s ∧ s.isLive now = true ∧ s.entry = e := by
  simp [get, Option.filter_eq_some_iff, and_assoc]

/-- What is read later can be read before. -/
theorem get_earlier {n : Namespace} {now later : Instant} {k : Key} {m : Memory} {e : Entry}
    (h : now ≤ later) (he : m.get n later k = some e) : m.get n now k = some e := by
  rw [get_eq_some_iff] at *
  obtain ⟨s, hs, hlive, rfl⟩ := he
  exact ⟨s, hs, Slot.isLive_mono h hlive, rfl⟩

theorem get_set (n : Namespace) (now later : Instant) (k k' : Key) (e : Entry)
    (ttl : Option Duration) (m : Memory) :
    (m.set n now k e ttl).get n later k' =
      if k' = k then (if later.isBefore (ttl.bind now.add?) then some e else none)
      else m.get n later k' := by
  by_cases hk : k' = k
  · subst hk
    rw [if_pos rfl, get, find?_set, if_pos rfl, Option.filter_some, Slot.isLive]
    split
    · rfl
    · rfl
  · rw [if_neg hk]
    exact get_set_of_ne hk now later e ttl m

theorem get_removeWhere (n : Namespace) (doomed : Key → Bool) (m : Memory) (now : Instant)
    (k : Key) :
    (m.removeWhere n fun k _ => doomed k).2.get n now k =
      if doomed k then none else m.get n now k := by
  rw [get, find?_removeWhere]
  cases doomed k with
  | true => simp
  | false => simp [get]

theorem get_delete (n : Namespace) (k k' : Key) (m : Memory) (now : Instant) :
    (m.delete n k).2.get n now k' = if k' = k then none else m.get n now k' := by
  by_cases hk : k' = k
  · simp [get, find?_delete, hk]
  · simp [get, find?_delete, hk, Namespace.physical_inj]

theorem mem_entries {n : Namespace} {now : Instant} {m : Memory} {k : Key} {e : Entry} :
    (k, e) ∈ m.entries n now ↔ m.get n now k = some e := by
  rw [get_eq_some_iff, entries, List.mem_filterMap]
  constructor
  · rintro ⟨⟨physical, s⟩, hs, h⟩
    dsimp only at h
    split at h
    · rename_i hlive
      obtain ⟨k', hk, hke⟩ := Option.map_eq_some_iff.mp h
      obtain ⟨rfl, rfl⟩ := Prod.mk.inj hke
      obtain rfl := Namespace.logical?_eq_some_iff.mp hk
      exact ⟨s, KeyMap.find?_eq_some_iff.mpr hs, hlive, rfl⟩
    · cases h
  · rintro ⟨s, hs, hlive, rfl⟩
    refine ⟨(n.physical k, s), KeyMap.find?_eq_some_iff.mp hs, ?_⟩
    simp [hlive]

theorem entries_ascending (n : Namespace) (now : Instant) (m : Memory) :
    (m.entries n now).Pairwise fun a b => n.physical a.1 < n.physical b.1 := by
  apply m.slots.ascending.filterMap
  have hname : ∀ x : String × Slot, ∀ p : Key × Entry,
      (if x.2.isLive now then (n.logical? x.1).map (·, x.2.entry) else none) = some p →
        x.1 = n.physical p.1 := by
    intro x p hp
    split at hp
    · obtain ⟨k, hk, rfl⟩ := Option.map_eq_some_iff.mp hp
      exact Namespace.logical?_eq_some_iff.mp hk
    · cases hp
  intro x y hxy p hp q hq
  rw [← hname x p hp, ← hname y q hq]
  exact hxy

/-- From `m` to `m'` nothing wrote the key, and nothing removed its slot unless the slot cannot be
read at `now` any more. -/
structure Undisturbed (physical : String) (now : Instant) (m m' : Memory) : Prop where
  unwritten : ∀ s, m'.slots.find? physical = some s → m.slots.find? physical = some s
  unremoved : ∀ s, m.slots.find? physical = some s → s.isLive now = true →
    m'.slots.find? physical = some s

namespace Undisturbed
variable {physical : String} {now later : Instant} {m m' m'' : Memory}

theorem refl (physical : String) (now : Instant) (m : Memory) : Undisturbed physical now m m :=
  ⟨fun _ h => h, fun _ h _ => h⟩

theorem of_eq (h : m'.slots.find? physical = m.slots.find? physical) :
    Undisturbed physical now m m' :=
  ⟨fun _ hs => h ▸ hs, fun _ hs _ => h ▸ hs⟩

theorem trans (h : Undisturbed physical now m m') (h' : Undisturbed physical later m' m'')
    (ht : now ≤ later) : Undisturbed physical later m m'' :=
  ⟨fun s hs => h.unwritten s (h'.unwritten s hs),
    fun s hs hl => h'.unremoved s (h.unremoved s hs (Slot.isLive_mono ht hl)) hl⟩

theorem get_eq {n : Namespace} {k : Key} (h : Undisturbed (n.physical k) now m m') :
    m'.get n now k = m.get n now k := by
  apply Option.ext
  intro e
  rw [get_eq_some_iff, get_eq_some_iff]
  constructor
  · rintro ⟨s, hs, hl, he⟩
    exact ⟨s, h.unwritten s hs, hl, he⟩
  · rintro ⟨s, hs, hl, he⟩
    exact ⟨s, h.unremoved s hs hl, hl, he⟩

end Undisturbed

variable {n : Namespace} {k : Key}

theorem undisturbed_set {k' : Key} (h : k ≠ k') (now written : Instant) (e : Entry)
    (ttl : Option Duration) (m : Memory) :
    Undisturbed (n.physical k) now m (m.set n written k' e ttl) := by
  apply Undisturbed.of_eq
  rw [find?_set, if_neg (mt Namespace.physical_inj.mp h)]

theorem undisturbed_delete {k' : Key} (h : k ≠ k') (now : Instant) (m : Memory) :
    Undisturbed (n.physical k) now m (m.delete n k').2 := by
  apply Undisturbed.of_eq
  rw [find?_delete, if_neg (mt Namespace.physical_inj.mp h)]

/-- A removal leaves a key alone when it dooms only slots of it that cannot be read. -/
theorem undisturbed_removeWhere {doomed : Key → Slot → Bool} {now : Instant}
    (h : ∀ s, s.isLive now = true → doomed k s = false) (m : Memory) :
    Undisturbed (n.physical k) now m (m.removeWhere n doomed).2 := by
  constructor
  · intro s hs
    rw [find?_removeWhere, Option.filter_eq_some_iff] at hs
    exact hs.1
  · intro s hs hl
    rw [find?_removeWhere, hs, Option.filter_some, h s hl]
    rfl

theorem undisturbed_sweep (now : Instant) (m : Memory) :
    Undisturbed (n.physical k) now m (m.sweep n now).2 :=
  undisturbed_removeWhere (fun _ hl => by rw [hl]; rfl) m

/-- A sweep changes no later read. -/
theorem get_sweep {now later : Instant} (h : now ≤ later) (m : Memory) :
    (m.sweep n now).2.get n later k = m.get n later k :=
  ((undisturbed_sweep now m).trans (.refl _ later _) h).get_eq

end Memory
end ResponseCache
