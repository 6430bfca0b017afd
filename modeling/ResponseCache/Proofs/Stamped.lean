import ResponseCache.Proofs.Fields
import ResponseCache.Proofs.Lookups
import ResponseCache.Proofs.Provenance

/-!
# What executions leave in memory

Whatever handlers return, the slots that executions write agree with themselves: the entry is judged
by the policy that its own fields announce, it has one tag, which is that of its content, and it
lives exactly as long as its policy says.
-/
namespace ResponseCache

namespace Memory

def Within (m' m : Memory) : Prop :=
  ∀ physical s, m'.slots.find? physical = some s → m.slots.find? physical = some s

namespace Within
variable {m m' m'' : Memory}

theorem refl (m : Memory) : m.Within m := fun _ _ h => h

theorem trans (h : m''.Within m') (h' : m'.Within m) : m''.Within m :=
  fun physical s hs => h' physical s (h physical s hs)

end Within

theorem within_filter (m : Memory) (keep : String → Slot → Bool) :
    Within ⟨m.slots.filter keep⟩ m := by
  intro physical s hs
  rw [KeyMap.find?_filter, Option.filter_eq_some_iff] at hs
  exact hs.1

end Memory

namespace Cache
variable {ε : Type} {n : Namespace} {methods : List Method}

theorem pauses_within (ps : List Pause) (w : World Memory) :
    ((memory n methods).pauses ps w).store.Within w.store := by
  induction ps generalizing w with
  | nil => exact .refl w.store
  | cons p ps ih =>
    have hone : ((memory n methods).pause w p).store.Within w.store := by
      cases p with
      | sweep => exact w.store.within_filter _
      | _ => exact .refl w.store
    exact (ih _).trans hone

theorem handled_within (w : World Memory) (ev : Event ε) :
    ((memory n methods).handled w ev).store.Within w.store := by
  cases ev with
  | execute r route work =>
    rw [handled]
    split
    · exact pauses_within work.pauses w
    · exact .refl w.store
  | _ => exact .refl w.store

theorem next_within {w : World Memory} {ev : Event ε}
    (h : (memory n methods).written? w ev = none) :
    ((memory n methods).next w ev).store.Within w.store := by
  cases ev with
  | pause p => exact pauses_within [p] w
  | execute r route work =>
    rw [next_execute, h]
    exact handled_within w _
  | decide r route =>
    rw [show (memory n methods).next w (.decide r route : Event ε) = w
      from Engine.decide_memory_world rfl ..]
    exact .refl w.store
  | commit r response hint =>
    have hsame : (memory n methods).next w (.commit r response hint : Event ε) = w := by
      show ((memory n methods).engine.commit _ response hint w).2 = w
      rw [Engine.commit_memory_world (n := n) rfl,
        show Write.of? _ response hint w.clock = none from h]
    rw [hsame]
    exact .refl w.store
  | delete k => exact w.store.within_filter _
  | deletePath path => exact w.store.within_filter _
  | deletePattern pattern =>
    show (w.store.deletePattern n pattern).2.Within w.store
    rw [Memory.deletePattern]
    split
    · exact .refl w.store
    · exact w.store.within_filter _
  | clear => exact w.store.within_filter _
  | _ => exact .refl w.store

/-- A slot that an event leaves was there before, or it is the one that the event writes. -/
theorem find?_next {w : World Memory} {ev : Event ε} {physical : String} {s : Slot}
    (h : ((memory n methods).next w ev).store.slots.find? physical = some s) :
    w.store.slots.find? physical = some s ∨
      ∃ u, (memory n methods).written? w ev = some u ∧ physical = n.physical u.key ∧
        s = u.slot := by
  cases hu : (memory n methods).written? w ev with
  | none => exact .inl (next_within hu physical s h)
  | some u =>
    rw [(next_of_written hu).1] at h
    replace h := (Memory.find?_set ..).symm.trans h
    split at h
    · rename_i hkey
      cases h
      exact .inr ⟨u, rfl, hkey, rfl⟩
    · exact .inl (handled_within w ev physical s h)

/-- What holds of every write of a session holds of the slots that it leaves in a store that was
empty. -/
theorem slot_of_run {good : String → Slot → Prop} {events : List (Event ε)}
    (hgood : ∀ ev ∈ events, ∀ w u, (memory n methods).written? w ev = some u →
      good (n.physical u.key) u.slot)
    {w : World Memory}
    (hw : ∀ physical s, w.store.slots.find? physical = some s → good physical s) :
    ∀ physical s, ((memory n methods).run events w).store.slots.find? physical = some s →
      good physical s := by
  induction events generalizing w with
  | nil => exact hw
  | cons ev events ih =>
    apply ih fun ev' hev => hgood ev' (List.mem_cons_of_mem ev hev)
    intro physical s hs
    rcases find?_next hs with hbefore | ⟨u, hu, rfl, rfl⟩
    · exact hw physical s hbefore
    · exact hgood ev List.mem_cons_self w u hu

end Cache

namespace Response
variable {response : Response} {route : Declaration}

/-- A stamped response has one field of its tag. -/
theorem under_etag_stamp (h : response.status.isSuccess = true) :
    (response.stamp route).headers.under "ETag" =
      [("ETag", EntityTag.ofContent response.body)] := by
  rw [stamp, if_pos h]
  dsimp only
  split
  · rw [Headers.under_set, Headers.under_set]
    rfl
  · rw [Headers.under_set]
    rfl

theorem getAll_etag_stamp (h : response.status.isSuccess = true) :
    (response.stamp route).headers.getAll "etag" = [EntityTag.ofContent response.body] := by
  rw [Headers.getAll_congr (show Text.sameName "etag" "ETag" = true by decide),
    Headers.getAll_eq_map, under_etag_stamp h]
  rfl

/-- A stamped response is stored under what its own fields announce. -/
theorem effectivePolicy_stamp (h : response.status.isSuccess = true) :
    (response.stamp route).effectivePolicy (some route) =
      CacheControl.ofHeaders (response.stamp route).headers := by
  rw [effectivePolicy, Option.bind_some]
  cases hc : route.cacheControl? with
  | none => rfl
  | some value =>
    rw [stamp, if_pos h, hc]
    have hannounced :
        ((response.headers.set "ETag" (EntityTag.ofContent response.body)).set "Cache-Control"
          value).joined? "cache-control" = some value := by
      rw [Headers.joined?, Headers.getAll_set]
      rfl
    rw [CacheControl.ofHeaders, hannounced]

theorem skipReason?_ne_expired {p : Policy} (h : response.skipReason? p = none) :
    p.storageTtl ≠ some .zero := by
  rw [skipReason?] at h
  split at h
  · cases h
  · split at h
    · cases h
    · split at h
      · cases h
      · assumption

end Response

/-- Only requests with a method of the engine's choice are written back. -/
theorem Engine.mem_methods_of_writesBack {σ : Type} {e : Engine σ} {r : Request}
    {route : Declaration} {w : World σ} (h : (e.decide r route w).1.writesBack = true) :
    r.method ∈ e.methods := by
  rw [decide_eq, decisionOn] at h
  split at h
  · cases h
  · rename_i hm
    simpa using hm

theorem Clock.map_nanos_bind_add? (c : Clock) {o : Option Duration}
    (h : ∀ d ∈ o, d.nanos ≤ 2 * (CacheControl.maxDelta * nanosPerSecond)) :
    (o.bind c.now.add?).map (·.nanos) = o.map fun d => c.now.nanos + d.nanos := by
  cases o with
  | none => rfl
  | some d =>
    obtain ⟨t, ht⟩ := Option.ne_none_iff_exists'.mp (c.add?_ne_none_of_le (h d rfl))
    rw [Option.bind_some, ht, Option.map_some, Option.map_some, Instant.add?_eq_some ht]

/-- A slot as an execution writes it. -/
structure Slot.IsStamped (n : Namespace) (methods : List Method) (physical : String) (s : Slot) :
    Prop where
  key : ∃ r : Request, r.method ∈ methods ∧ physical = n.physical (Key.ofRequest r)
  success : s.entry.status.isSuccess = true
  storable : s.entry.policy.noStore = false
  /-- What clients are told is what the entry is judged by. -/
  announced : s.entry.policy = CacheControl.ofHeaders s.entry.headers
  tagged : s.entry.headers.getAll "etag" = [s.entry.etag]
  tag : s.entry.etag = EntityTag.ofContent s.entry.content
  /-- Freshness ends a lifetime after the write, and never where there is no lifetime. -/
  expiry : s.entry.expiresAt.map (·.nanos) =
    s.entry.policy.ttl.map fun d => s.entry.storedAt.nanos + d.nanos
  eviction : s.evictAt.map (·.nanos) = s.entry.policy.storageTtl.map fun d =>
    s.entry.storedAt.nanos + d.nanos
  lifetime : s.entry.policy.storageTtl ≠ some .zero

theorem Policy.InDeltas.le_storageTtl {p : Policy} (h : p.InDeltas) :
    ∀ d ∈ p.storageTtl, d.nanos ≤ 2 * (CacheControl.maxDelta * nanosPerSecond) := by
  intro d hd
  obtain ⟨ttl, ht, rfl⟩ := Option.map_eq_some_iff.mp hd
  rw [h.storageTtl_nanos ht, Nat.two_mul]
  exact Nat.add_le_add (h.ttl ttl ht).nanos_le h.staleExtension_nanos

namespace Cache
variable {ε : Type} {n : Namespace} {methods : List Method}

/-- Whatever the handler returns. -/
theorem stamped_of_written {w : World Memory} {r : Request} {route : Declaration} {work : Work ε}
    {u : Write} (h : (memory n methods).written? w (.execute r route work) = some u) :
    u.slot.IsStamped n methods (n.physical u.key) := by
  obtain ⟨-, response, -, hback, hwrite⟩ := ((memory n methods).written?_execute).mp h
  obtain ⟨hskip, rfl⟩ := Write.of?_eq_some_iff.mp hwrite
  obtain ⟨hstore, hstatus⟩ := Response.skipReason?_eq_none hskip
  have hsuccess : response.status.isSuccess = true := by rwa [Response.stamp_status] at hstatus
  have htag : (response.stamp route).headers.getAll "etag" = _ :=
    Response.getAll_etag_stamp hsuccess
  have hdeltas := (response.stamp route).effectivePolicy_inDeltas (some route)
  have hetag : (response.stamp route).headers.get? "etag" =
      some (EntityTag.ofContent response.body) := by
    rw [Headers.get?_eq_head?, htag]
    rfl
  constructor
  · exact ⟨r, Engine.mem_methods_of_writesBack hback, rfl⟩
  · exact hstatus
  · exact hstore
  · exact Response.effectivePolicy_stamp hsuccess
  · show (response.stamp route).headers.getAll "etag" =
      [((response.stamp route).headers.get? "etag").getD _]
    rw [hetag, htag]
    rfl
  · show ((response.stamp route).headers.get? "etag").getD _ = _
    rw [hetag]
    show _ = EntityTag.ofContent (response.stamp route).body
    rw [Response.stamp_body]
    rfl
  · apply Clock.map_nanos_bind_add?
    intro d hd
    have hle := (hdeltas.ttl d hd).nanos_le
    omega
  · exact Clock.map_nanos_bind_add? _ hdeltas.le_storageTtl
  · exact Response.skipReason?_ne_expired hskip

/-- However long a session of executions, removals, sweeps and pauses, every slot that it leaves is
stamped. -/
theorem stamped_of_run {events : List (Event ε)}
    (hcommits : ∀ r response hint, .commit r response hint ∉ events) {start : Clock}
    {physical : String} {s : Slot}
    (h : ((memory n methods).run events ⟨start, {}⟩).store.slots.find? physical = some s) :
    s.IsStamped n methods physical := by
  refine slot_of_run ?_ ?_ physical s h
  · intro ev hev w u hu
    cases ev with
    | execute r route work => exact stamped_of_written hu
    | commit r response hint => exact absurd hev (hcommits r response hint)
    | _ => cases hu
  · intro physical s hs
    cases hs

/-- A response that comes with two tags and two Cache-Control fields, each spelled in its own way,
for a route that declares a lifetime. Then another request, whose handler takes a second, a sweep
and the removal of the other entry. -/
theorem stamped_of_run_conflicting_fields :
    let r : Request := { host := "localhost", path := "/a", query := [("b", "2"), ("a", "1")] }
    let other : Request := { host := "localhost", path := "/b" }
    let response : Response := {
      headers :=
        ⟨[("etag", "\"x\""), ("CACHE-CONTROL", "no-store"), ("eTag", "\"y\""),
          ("cache-control", "max-age=5")]⟩ }
    let route : Declaration := { ttl := some (.ofSeconds 60), staleIfError := some (.ofSeconds 30) }
    let events : List (Event Unit) :=
      [.execute r route { outcome := .ok response },
        .execute other {} { pauses := [.advance (.ofSeconds 1)], outcome := .ok {} }, .pause .sweep,
        .deletePath "/b"]
    let store := ((memory .default [.get]).run events ⟨⟨5000⟩, {}⟩).store
    store.slots.keys = ["cachex:GET|||localhost|||/a|||a=1&b=2"] ∧
      ∃ s, store.slots.find? "cachex:GET|||localhost|||/a|||a=1&b=2" = some s ∧
        s.IsStamped .default [.get] "cachex:GET|||localhost|||/a|||a=1&b=2" := by
  intro r other response route events store
  have hfound : (store.slots.find? "cachex:GET|||localhost|||/a|||a=1&b=2").isSome = true := by
    decide +kernel
  obtain ⟨s, hs⟩ := Option.isSome_iff_exists.mp hfound
  exact ⟨by decide +kernel, s, hs, stamped_of_run (by simp [events]) hs⟩

end Cache
end ResponseCache
