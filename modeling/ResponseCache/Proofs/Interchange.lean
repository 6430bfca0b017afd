import ResponseCache.Proofs.Contract
import ResponseCache.Proofs.Keys
import ResponseCache.Proofs.Records
import ResponseCache.Proofs.Server
import ResponseCache.Proofs.Simulation
import ResponseCache.Proofs.Writes

/-!
# One cache for another

A cache over a key-value store that keeps its word answers every session as a cache in memory does,
as long as the clock shows whole seconds and does not go back. At every time the store shows, under
the keys of the namespace, the records of exactly the entries that can be read in memory.
-/
namespace ResponseCache

variable {σ : Type}

/-- A cache over a key-value store, which drops items by itself. -/
def Cache.keyValue (c : KeyValue.Scope) (client : KeyValue.Client σ) (methods : List Method) :
    Cache σ where
  engine := { backend := c.backend client, methods }

/-- Whole seconds from the epoch on, and not more than a double has room for. -/
def Instant.IsEarly (t : Instant) : Prop := t.IsWhole (2 ^ 40)

instance (t : Instant) : Decidable t.IsEarly := inferInstanceAs (Decidable (t.IsWhole _))

/-- The record of an entry that can be read back gives the entry, and none gives none. -/
theorem KeyValue.entryOf_map_encode {found : Option Entry}
    (h : ∀ e, found = some e → Record.decode (Record.encode e) = .ok e) :
    entryOf (found.map Record.encode) = .ok found := by
  cases found with
  | none => rfl
  | some e =>
    show (Record.decode (Record.encode e)).map some = _
    rw [h e rfl]
    rfl

structure IsSound (k : Key) (e : Entry) : Prop where
  derived : ∃ r, k = Key.ofRequest r
  readsBack : Record.decode (Record.encode e) = .ok e

/-- The store shows what the memory holds, now and later. -/
structure Mirrors (v : KeyValue.View σ) (n : Namespace) (now : Instant) (m : Memory) (s : σ) :
    Prop where
  early : now.IsEarly
  ready : v.ready s
  shows : ∀ later, now ≤ later →
    ∀ k, v.value? later (n.physical k) s = (m.get n later k).map Record.encode
  sound : ∀ k e, m.get n now k = some e → IsSound k e

namespace Mirrors
variable {v : KeyValue.View σ} {n : Namespace} {now : Instant} {m m' : Memory} {s s' : σ}
  {values : Instant → String → Option Bytes}

theorem later (h : Mirrors v n now m s) {later : Instant} (hle : now ≤ later)
    (hearly : later.IsEarly) : Mirrors v n later m s := by
  constructor
  · exact hearly
  · exact h.ready
  · intro t ht
    exact h.shows t (Int.le_trans hle ht)
  · intro k e he
    exact h.sound k e (Memory.get_earlier hle he)

/-- An operation that leaves the values of the new memory, and in it nothing new that is not
sound. -/
theorem leave (h : Mirrors v n now m s) (hleaves : v.Leaves now s' values)
    (hvalues : ∀ later, now ≤ later →
      ∀ k, values later (n.physical k) = (m'.get n later k).map Record.encode)
    (hsound : ∀ k e, m'.get n now k = some e → m.get n now k = some e ∨ IsSound k e) :
    Mirrors v n now m' s' := by
  constructor
  · exact h.early
  · exact hleaves.ready
  · intro later hle k
    rw [hleaves.value? later hle, hvalues later hle]
  · intro k e he
    rcases hsound k e he with he | he
    · exact h.sound k e he
    · exact he

theorem leave_same (h : Mirrors v n now m s)
    (hleaves : v.Leaves now s' fun later k => v.value? later k s) : Mirrors v n now m s' :=
  h.leave hleaves h.shows fun _ _ => .inl

/-- A removal of the same keys from both. -/
theorem leave_removal (h : Mirrors v n now m s) {doomed : Key → Bool}
    (hleaves : v.Leaves now s' fun later physical =>
      if (n.logical? physical).any doomed then none else v.value? later physical s)
    (hget : ∀ later k, m'.get n later k = if doomed k then none else m.get n later k) :
    Mirrors v n now m' s' := by
  apply h.leave hleaves
  · intro later hle k
    rw [hget, Namespace.logical?_physical, Option.any_some, h.shows later hle]
    split
    · rfl
    · rfl
  · intro k e he
    rw [hget] at he
    split at he
    · cases he
    · exact .inl he

theorem entryOf_value? (h : Mirrors v n now m s) (k : Key) :
    KeyValue.entryOf (v.value? now (n.physical k) s) = .ok (m.get n now k) := by
  rw [h.shows now (Int.le_refl _)]
  exact KeyValue.entryOf_map_encode fun e he => (h.sound k e he).readsBack

end Mirrors

/-- A record of what the engine writes at an early time can be read back: an expiry is less than a
hundred years later. -/
theorem decode_encode_entry {now : Instant} (h : now.IsEarly) (response : Response) {p : Policy}
    (hp : p.InDeltas) :
    Record.decode (Record.encode (response.entry p now)) = .ok (response.entry p now) := by
  obtain ⟨seconds, hseconds, hnow⟩ := h
  have hlimit : 2 ^ 41 < 2 ^ 53 := by decide
  apply Record.decode_encode hlimit
  · exact ⟨seconds, by omega, hnow⟩
  · intro t ht
    obtain ⟨ttl, httl, hadd⟩ := Option.bind_eq_some_iff.mp ht
    obtain ⟨delta, hdelta, rfl⟩ := hp.ttl ttl httl
    simp only [CacheControl.maxDelta] at hdelta
    refine ⟨seconds + delta, by omega, ?_⟩
    rw [Instant.add?_eq_some hadd, Duration.ofSeconds_nanos (by omega), hnow, nanosPerSecond]
    omega

theorem isSound_entry {now : Instant} (h : now.IsEarly) (r : Request) (response : Response)
    {p : Policy} (hp : p.InDeltas) : IsSound (Key.ofRequest r) (response.entry p now) :=
  ⟨⟨r, rfl⟩, decode_encode_entry h response hp⟩

namespace KeyValue.Scope
variable {client : Client σ} {v : View σ} {now : Instant} {m : Memory} {s : σ}

theorem get_matched (c : Scope) (hc : Contract client v) (h : Mirrors v c.space now m s) (k : Key) :
    Matched (Mirrors v c.space now) ((Memory.backend c.space).get now k m)
      ((c.backend client).get now k s) := by
  obtain ⟨s', hget, hleaves⟩ := hc.get now (c.space.physical k) h.ready
  show Matched _ (.ok (m.get c.space now k), m) (c.get client now k s)
  rw [Scope.get, hget]
  exact ⟨(h.entryOf_value? k).symm, h.leave_same hleaves⟩

theorem set_matched (c : Scope) (hc : Contract client v) (h : Mirrors v c.space now m s) {k : Key}
    {e : Entry} (he : IsSound k e) (ttl : Option Duration) :
    Matched (Mirrors v c.space now) ((Memory.backend c.space).set now k e ttl m)
      ((c.backend client).set now k e ttl s) := by
  obtain ⟨s', hset, hleaves⟩ := hc.set now (c.space.physical k) (Record.encode e) ttl h.ready
  rw [show (c.backend client).set now k e ttl s = _ from hset]
  refine ⟨rfl, ?_⟩
  apply h.leave hleaves
  · intro later hle k'
    show _ = ((m.set c.space now k e ttl).get c.space later k').map Record.encode
    rw [Memory.get_set, h.shows later hle]
    simp only [Namespace.physical_inj]
    split
    · split
      · rfl
      · rfl
    · rfl
  · intro k' e' hget
    replace hget : (m.set c.space now k e ttl).get c.space now k' = some e' := hget
    rw [Memory.get_set] at hget
    split at hget
    · rename_i hk
      split at hget
      · cases hget
        rw [hk]
        exact .inr he
      · cases hget
    · exact .inl hget

theorem delete_matched (c : Scope) (hc : Contract client v) (h : Mirrors v c.space now m s)
    (k : Key) :
    Matched (Mirrors v c.space now) (uncounted ((Memory.backend c.space).delete now k m))
      (uncounted ((c.backend client).delete now k s)) := by
  obtain ⟨count, s', hdel, hleaves⟩ := hc.del now [c.space.physical k] h.ready
  have hremoved : (c.backend client).delete now k s = (.ok (0 < count), s') := by
    simp only [Scope.backend, hdel]
  rw [hremoved]
  refine ⟨rfl, ?_⟩
  apply h.leave hleaves
  · intro later hle k'
    show _ = ((m.delete c.space k).2.get c.space later k').map Record.encode
    rw [Memory.get_delete, h.shows later hle]
    simp only [List.mem_singleton, Namespace.physical_inj]
    split
    · rfl
    · rfl
  · intro k' e hget
    replace hget : (m.delete c.space k).2.get c.space now k' = some e := hget
    rw [Memory.get_delete] at hget
    split at hget
    · cases hget
    · exact .inl hget

/-- A scan for the keys to remove removes what memory removes. -/
theorem removeMatching_matched (c : Scope) (hc : Contract client v) (h : Mirrors v c.space now m s)
    {pattern : String} {doomed : Key → Bool}
    (hpattern : ∀ r, doomed (Key.ofRequest r) = true →
      Wildcard.isMatch pattern (c.space.physical (Key.ofRequest r)) = true) (removed : Nat) :
    Matched (Mirrors v c.space now)
      (uncounted (.ok removed, (m.removeWhere c.space fun k _ => doomed k).2) :
        Except StoreError Unit × Memory)
      (uncounted (c.removeMatching client now pattern doomed s)) := by
  have hfound : ∀ k, doomed k = true → v.value? now (c.space.physical k) s ≠ none →
      Wildcard.isMatch pattern (c.space.physical k) = true := by
    intro k hdoomed hlive
    rw [h.shows now (Int.le_refl _)] at hlive
    obtain ⟨e, he⟩ := Option.ne_none_iff_exists'.mp (mt Option.map_eq_none_iff.mpr hlive)
    obtain ⟨r, rfl⟩ := (h.sound k e he).derived
    exact hpattern r hdoomed
  obtain ⟨count, s', hremove, hleaves⟩ := c.removeMatching_leaves now hc h.ready hfound
  rw [hremove]
  refine ⟨rfl, ?_⟩
  exact h.leave_removal hleaves fun later k => Memory.get_removeWhere c.space doomed m later k

theorem entries_matched (c : Scope) (hc : Contract client v) (h : Mirrors v c.space now m s) :
    Matched (Mirrors v c.space now) ((Memory.backend c.space).entries now m)
      ((c.backend client).entries now s) := by
  obtain ⟨found, s', hentries, hleaves, hascending, hmem⟩ := c.entries_shows now hc h.ready
  have hmembers : ∀ p, p ∈ m.entries c.space now ↔ p ∈ found := by
    rintro ⟨k, e⟩
    rw [Memory.mem_entries, hmem, h.entryOf_value?, Except.ok.injEq]
  have hsame : m.entries c.space now = found :=
    Ascending.eq_of_mem_iff (Memory.entries_ascending c.space now m) hascending hmembers
  rw [show (c.backend client).entries now s = _ from hentries, ← hsame]
  exact ⟨rfl, h.leave_same hleaves⟩

end KeyValue.Scope

/-- No operation tells a cache in memory from one over a store that keeps its word. -/
theorem KeyValue.Contract.simulation {client : KeyValue.Client σ} {v : KeyValue.View σ}
    (hc : KeyValue.Contract client v) (c : KeyValue.Scope) (methods : List Method) :
    Simulation (.memory c.space methods) (.keyValue c client methods) Instant.IsEarly
      (Mirrors v c.space) where
  keyOf := rfl
  methods := rfl
  later h hle hearly := h.later hle hearly
  sweep {now m s} h := by
    apply h.leave (View.Leaves.refl h.ready)
    · intro later hle k
      show _ = ((m.sweep c.space now).2.get c.space later k).map Record.encode
      rw [Memory.get_sweep hle]
      exact h.shows later hle k
    · intro k e hget
      replace hget : (m.sweep c.space now).2.get c.space now k = some e := hget
      rw [Memory.get_sweep (Int.le_refl _)] at hget
      exact .inl hget
  get k h := c.get_matched hc h k
  set r response p h hp := c.set_matched hc h (isSound_entry h.early r response hp) p.storageTtl
  delete k h := c.delete_matched hc h k
  deletePath path h := by
    apply c.removeMatching_matched hc h
    intro r hpath
    have hparts : (Key.ofRequest r).parts.path = r.path := by
      rw [Key.ofRequest, Key.parts_derive]
    rw [hparts, beq_iff_eq] at hpath
    rw [← hpath]
    exact Wildcard.isMatch_storePattern_path c r.method r.host r.path r.query
  clear h :=
    c.removeMatching_matched hc h (fun r _ => Wildcard.isMatch_storePattern_star c (.ofRequest r)) _
  entries h := c.entries_matched hc h

theorem mirrors_empty {v : KeyValue.View σ} {n : Namespace} {now : Instant} {s : σ}
    (hearly : now.IsEarly) (hs : v.ready s)
    (hempty : ∀ later, now ≤ later → ∀ k, v.value? later (n.physical k) s = none) :
    Mirrors v n now {} s := by
  constructor
  · exact hearly
  · exact hs
  · exact hempty
  · intro k e he
    cases he

/-- A cache in memory and a cache over a key-value store that keeps its word answer every session
alike: each execution with its handler's runs, each decision, read, listing and report. Both start
without entries, on a clock that shows whole seconds from the epoch on and does not go back, also
while handlers run. -/
theorem Cache.answers_interchange {ε : Type} (c : KeyValue.Scope) {client : KeyValue.Client σ}
    {v : KeyValue.View σ} (hc : KeyValue.Contract client v) (methods : List Method) {start : Clock}
    {s : σ} (hs : v.ready s) (hempty : ∀ k, v.value? start.now (c.space.physical k) s = none)
    {events : List (Event ε)} (hevents : ∀ ev ∈ events, ev.IsPatternless)
    (horder : (memory c.space methods).InOrder events ⟨start, {}⟩)
    (hearly : ∀ t ∈ start :: (memory c.space methods).readings events ⟨start, {}⟩, t.now.IsEarly) :
    (memory c.space methods).answers events ⟨start, {}⟩ =
      (keyValue c client methods).answers events ⟨start, s⟩ := by
  have hstart : Mirrors v c.space start.now {} s := by
    apply mirrors_empty (hearly start List.mem_cons_self) hs
    intro later hle k
    exact hc.gone hs hle (hempty k)
  have hworld : World.Related (Mirrors v c.space) ⟨start, {}⟩ ⟨start, s⟩ := ⟨rfl, hstart⟩
  apply (hc.simulation c methods).answers_eq hworld hevents horder
  intro t ht
  exact hearly t (List.mem_cons_of_mem _ ht)

/-- One request twice, a second apart, then a removal by path and a listing, over a server with
pages of one key that names keys twice. -/
theorem Cache.answers_interchange_small_pages :
    let r : Request := { host := "localhost", path := "/a*" }
    let response : Response := { headers := ⟨[("Cache-Control", "max-age=60")]⟩ }
    let work : Work Unit := { pauses := [.advance (.ofSeconds 1)], outcome := .ok response }
    let events : List (Event Unit) :=
      [.execute r {} work, .pause .sweep, .execute r {} work, .report, .deletePath "/a*", .entries]
    let server : KeyValue.Server := { listing := { twice := true, page := some 1 } }
    (memory .default [.get]).answers events ⟨⟨0⟩, {}⟩ =
      (keyValue { batch := 1 } KeyValue.Server.client [.get]).answers events ⟨⟨0⟩, server⟩ := by
  intro r response work events server
  have hready : KeyValue.Server.view.ready server := ⟨rfl, rfl, by decide⟩
  have hevents : ∀ ev ∈ events, ev.IsPatternless := by decide
  have horder : (memory .default [.get]).InOrder events ⟨⟨0⟩, {}⟩ := by decide +kernel
  have hearly : ∀ t ∈ ⟨0⟩ :: (memory .default [.get]).readings events ⟨⟨0⟩, {}⟩, t.now.IsEarly := by
    decide +kernel
  exact answers_interchange { batch := 1 } KeyValue.Server.contract [.get] hready (fun _ => rfl)
    hevents horder hearly

end ResponseCache
