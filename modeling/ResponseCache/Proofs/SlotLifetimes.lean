import ResponseCache.Proofs.Freshness

/-!
# How long a slot can be seen

The store in memory keeps an entry for the storage lifetime of its policy: one sum of durations,
which stops at the longest one, and from it one deadline. The entry goes by two deadlines of its
own, the end of its freshness and the end of a window after it. Any of the three may lie past the
end of time and is none then. For what is stored from the epoch on, both ways of reckoning come to
the same, whatever the policy and to the nanosecond.
-/
namespace ResponseCache

namespace Policy
variable {p : Policy} {age : Nat}

/-- Fresh, or inside one of the windows after the lifetime, which must-revalidate closes. -/
def IsUsableAt (p : Policy) (age : Nat) : Prop :=
  p.IsFreshAt age ∨ p.mustRevalidate = false ∧
    (p.IsWithin p.staleWhileRevalidate age ∨ p.IsWithin p.staleIfError age)

/-- The extension covers both windows, and nothing past the wider one. -/
theorem lt_add_staleExtension_iff (ttl : Duration) :
    age < ttl.nanos + p.staleExtension.nanos ↔ age < ttl.nanos ∨ p.mustRevalidate = false ∧
      ((∃ d ∈ p.staleWhileRevalidate, age < ttl.nanos + d.nanos) ∨
        ∃ d ∈ p.staleIfError, age < ttl.nanos + d.nanos) := by
  have hwider : ∀ a b : Nat, age < ttl.nanos + Nat.max a b ↔
      age < ttl.nanos + a ∨ age < ttl.nanos + b := by
    intro a b
    show age < ttl.nanos + max a b ↔ _
    omega
  have hwindow : ∀ o : Option Duration, age < ttl.nanos + (o.getD .zero).nanos ↔
      age < ttl.nanos ∨ ∃ d ∈ o, age < ttl.nanos + d.nanos := by
    intro o
    cases o with
    | none => simp
    | some d =>
      simp
      omega
  cases hm : p.mustRevalidate with
  | true => simp [staleExtension, hm]
  | false =>
    simp only [staleExtension, hm, Bool.false_eq_true, if_false, Duration.max_nanos, hwider,
      hwindow, true_and]
    exact or_or_distrib_left.symm

/-- The storage lifetime lasts as long as a response can be used, up to ages that no sum of
durations reaches. -/
theorem lt_storageTtl_iff (hage : age < Duration.longest.nanos) :
    (∀ d ∈ p.storageTtl, age < d.nanos) ↔ p.IsUsableAt age := by
  cases hp : p.ttl with
  | none => simp [storageTtl, IsUsableAt, IsFreshAt, hp]
  | some ttl =>
    simp only [storageTtl, IsUsableAt, IsFreshAt, IsWithin, hp, Option.map_some,
      Option.mem_some_iff, forall_eq', exists_eq_left', Duration.add_nanos, Nat.lt_min,
      hage, and_true]
    exact lt_add_staleExtension_iff ttl

end Policy

namespace Memory

/-- An entry that is put in memory at a time from the epoch on, with the storage lifetime of a
policy and the end of freshness that the policy gives it, sits in a slot that is live, and can be
read, as long as the entry is fresh or, unless the policy says must-revalidate, inside one of the
policy's windows. -/
theorem isLive_set_iff (n : Namespace) (m : Memory) (k : Key) (p : Policy) {e : Entry}
    {s t : Instant} (hs : Instant.epoch ≤ s) (hexpires : e.expiresAt = p.ttl.bind s.add?)
    (ht : s ≤ t) :
    ∃ slot, (m.set n s k e p.storageTtl).slots.find? (n.physical k) = some slot ∧ slot.entry = e ∧
      (slot.isLive t = true ↔ e.isFresh t = true ∨ p.mustRevalidate = false ∧
        (e.withinGrace p.staleWhileRevalidate t = true ∨ e.withinGrace p.staleIfError t = true)) ∧
      (m.set n s k e p.storageTtl).get n t k = if slot.isLive t then some e else none := by
  obtain ⟨age, hage⟩ := Int.le.dest ht
  have hlongest : age < Duration.longest.nanos := by
    have hpast := Instant.le_iff.mp hs
    have hend := t.before
    simp only [Instant.epoch, Duration.longest, nanosPerSecond] at *
    omega
  have hlive : t.isBefore (p.storageTtl.bind s.add?) = true ↔ p.IsUsableAt age :=
    (Instant.isBefore_bind_add? hage.symm).trans (Policy.lt_storageTtl_iff hlongest)
  have hfresh : e.isFresh t = true ↔ p.IsFreshAt age := Entry.isFresh_iff hexpires hage.symm
  refine ⟨⟨e, p.storageTtl.bind s.add?⟩, ?_, rfl, ?_, ?_⟩
  · rw [find?_set, if_pos rfl]
  · rw [Slot.isLive, hlive, hfresh]
    by_cases hend : ∀ d ∈ p.ttl, s.add? d ≠ none
    · rw [Entry.withinGrace_iff hexpires hage.symm hend,
        Entry.withinGrace_iff hexpires hage.symm hend]
      rfl
    · -- where freshness has no end the entry shows no windows, but then it never needs them
      have hnever : e.expiresAt = none := by
        simp only [Classical.not_forall, Decidable.not_not] at hend
        obtain ⟨ttl, httl, hnone⟩ := hend
        rw [hexpires, Option.mem_def.mp httl]
        exact hnone
      have hstays : p.IsFreshAt age := by
        rw [← hfresh, Entry.isFresh, hnever, Instant.isBefore_none]
      exact ⟨fun _ => .inl hstays, fun _ => .inl hstays⟩
  · rw [get_set, if_pos rfl]
    rfl

/-- To the last nanosecond of the wider window and not after it, and to the end of time where the
sum of the lifetime and its window would be longer than any duration. -/
theorem isLive_set_iff_at_the_ends :
    let entry (p : Policy) : Entry :=
      { etag := "", content := [], status := .ok, headers := {}, storedAt := .epoch,
        expiresAt := p.ttl.bind Instant.epoch.add?, policy := p }
    let stored (p : Policy) : Memory := Memory.set .default .epoch ⟨"k"⟩ (entry p) p.storageTtl {}
    let short : Policy :=
      { ttl := some ⟨60000000001, by decide⟩, staleWhileRevalidate := some (.ofSeconds 10),
        staleIfError := some (.ofSeconds 30) }
    let long : Policy := { ttl := some (.ofSeconds 60), staleIfError := some .longest }
    (stored short).get .default ⟨90000000000, by decide, by decide⟩ ⟨"k"⟩ = some (entry short) ∧
      (stored short).get .default ⟨90000000001, by decide, by decide⟩ ⟨"k"⟩ = none ∧
      (stored long).get .default ⟨2 ^ 63 * 1000000000 - 1, by decide, by decide⟩ ⟨"k"⟩ =
        some (entry long) := by
  intro entry stored short long
  obtain ⟨slot, -, -, hlive, hget⟩ :=
    isLive_set_iff .default {} ⟨"k"⟩ short (e := entry short) (Int.le_refl _) rfl
      (t := ⟨90000000000, by decide, by decide⟩) (by decide)
  obtain ⟨slot', -, -, hlive', hget'⟩ :=
    isLive_set_iff .default {} ⟨"k"⟩ short (e := entry short) (Int.le_refl _) rfl
      (t := ⟨90000000001, by decide, by decide⟩) (by decide)
  obtain ⟨slot'', -, -, hlive'', hget''⟩ :=
    isLive_set_iff .default {} ⟨"k"⟩ long (e := entry long) (Int.le_refl _) rfl
      (t := ⟨2 ^ 63 * 1000000000 - 1, by decide, by decide⟩) (by decide)
  refine ⟨hget.trans (if_pos (hlive.mpr ?_)), hget'.trans (if_neg (mt hlive'.mp ?_)),
    hget''.trans (if_pos (hlive''.mpr ?_))⟩
  · exact .inr ⟨rfl, .inr (by decide)⟩
  · decide
  · exact .inr ⟨rfl, .inr (by decide)⟩

end Memory
end ResponseCache
