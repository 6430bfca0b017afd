import ResponseCache.Proofs.Conditional
import ResponseCache.Proofs.Stamped
import ResponseCache.Proofs.Sweeping

/-!
# Hits replay what was sent

A response goes to the client and to the store with the same fields. A later hit adds its age and
may move its tag to the end, and that is all, whatever fields the handler set and whoever shares the
memory meanwhile.
-/
namespace ResponseCache

/-- The response of a hit against the one that was first sent. -/
structure Response.Replays (second first : Response) (age : Nat) : Prop where
  status : second.status = first.status
  body : second.body = first.body
  /-- The same fields as often, except for the age. -/
  fields : (second.headers.erase "Age").fields.Perm (first.headers.erase "Age").fields
  /-- In the same order, except for the tag. -/
  order : (second.headers.erase "Age").erase "ETag" = (first.headers.erase "Age").erase "ETag"
  tag : ∃ tag, second.headers.getAll "ETag" = [tag]
  age : second.headers.getAll "Age" = [toString age]

/-- Whatever else a response with one tag has, its entry gives it back. -/
theorem Entry.replay_replays {response : Response} {tag : String}
    (hone : response.headers.under "ETag" = [("ETag", tag)]) (policy : Policy)
    (stored now : Instant) :
    ((response.entry policy stored).replay now).Replays response (now.since stored).seconds := by
  have htag : (response.entry policy stored).etag = tag := by
    show (response.headers.get? "etag").getD _ = tag
    rw [Headers.get?_eq_head?,
      Headers.getAll_congr (show Text.sameName "etag" "ETag" = true by decide),
      Headers.getAll_eq_map, hone]
    rfl
  have hheaders : ((response.entry policy stored).replay now).headers =
      (response.headers.set "ETag" tag).set "Age" (toString (now.since stored).seconds) := by
    rw [← htag]
    rfl
  have hother : Text.sameName "ETag" "Age" = false := by decide
  have hkept : (response.headers.erase "Age").under "ETag" = [("ETag", tag)] := by
    rw [Headers.under_erase, if_neg (by decide), hone]
  constructor
  · rfl
  · rfl
  · rw [hheaders, Headers.erase_set_self, Headers.erase_set_of_ne hother]
    exact Headers.set_perm hkept
  · rw [hheaders, Headers.erase_set_self, Headers.erase_set_of_ne hother, Headers.erase_set_self]
  · refine ⟨tag, ?_⟩
    rw [hheaders, Headers.getAll_set, if_neg (by decide), Headers.getAll_set, Text.sameName_self,
      if_pos rfl]
  · rw [hheaders, Headers.getAll_set, Text.sameName_self, if_pos rfl]

theorem Clock.seconds_since {c c' : Clock} {elapsed : Nat}
    (h : c'.millis.toNat = c.millis.toNat + elapsed) :
    (c'.now.since c.now).seconds = elapsed / 1000 := by
  rw [Duration.seconds, Instant.since_nanos, now_nanos, now_nanos, h, nanosPerSecond]
  omega

/-- From one memory to the next a key was not written. It may have been removed. -/
def Memory.Unwritten (physical : String) (m m' : Memory) : Prop :=
  ∀ slot, m'.slots.find? physical = some slot → m.slots.find? physical = some slot

namespace Memory.Unwritten
variable {physical : String} {m m' m'' : Memory}

theorem refl (physical : String) (m : Memory) : Unwritten physical m m := fun _ h => h

theorem trans (h : Unwritten physical m m') (h' : Unwritten physical m' m'') :
    Unwritten physical m m'' :=
  fun slot hslot => h slot (h' slot hslot)

theorem filter (m : Memory) (keep : String → Slot → Bool) :
    Unwritten physical m ⟨m.slots.filter keep⟩ :=
  m.within_filter keep physical

theorem set {n : Namespace} {k : Key} (h : n.physical k ≠ physical) (now : Instant) (e : Entry)
    (ttl : Option Duration) (m : Memory) : Unwritten physical m (m.set n now k e ttl) := by
  intro slot hslot
  rwa [find?_set, if_neg (Ne.symm h)] at hslot

/-- A commit writes its own key at most. -/
theorem commit {t : Tenant} {key : Key} {response : Response} {hint : Option Declaration}
    {w : World Memory}
    (h : (Write.of? key response hint w.clock).map (t.space.physical ·.key) ≠ some physical) :
    Unwritten physical w.store (t.engine.commit key response hint w).2.store := by
  rw [Engine.commit_memory_world (n := t.space) rfl]
  cases hu : Write.of? key response hint w.clock with
  | none => exact .refl physical w.store
  | some u =>
    rw [hu] at h
    exact set (mt (congrArg some) h) _ _ _ _

end Memory.Unwritten

namespace Sharing
variable {ε : Type}

def written? (s : State) : Event ε → Option String
  | .set n k _ _ => some (n.physical k)
  | .commit t key response hint =>
    (Write.of? key response hint s.world.clock).map (t.space.physical ·.key)
  | .finish number (.ok response) => (s.running number).bind fun x =>
    if x.decision.writesBack then
      (Write.of? x.decision.key (response.stamp x.route) (some x.route) s.world.clock).map
        (x.tenant.space.physical ·.key)
    else none
  | _ => none

def writes : List (Event ε) → State → List String
  | [], _ => []
  | ev :: events, s => (written? s ev).toList ++ writes events (next s ev)

/-- What a key holds after an event that does not write it was there before. -/
theorem next_unwritten {s : State} {ev : Event ε} {physical : String}
    (h : written? s ev ≠ some physical) :
    Memory.Unwritten physical s.world.store (next s ev).world.store := by
  cases ev with
  | set n k e ttl => exact Memory.Unwritten.set (mt (congrArg some) h) _ _ _ _
  | sweep how =>
    cases how with
    | through n => exact .filter s.world.store _
    | task t passed =>
      show Memory.Unwritten physical s.world.store (t.pass passed s.now s.world.store).2
      rw [SweepTask.pass]
      split
      · exact .refl physical _
      · dsimp only
        split
        · exact .refl physical _
        · exact .filter s.world.store _
  | delete n k => exact .filter s.world.store _
  | deletePath n path => exact .filter s.world.store _
  | deletePattern n pattern =>
    show Memory.Unwritten physical s.world.store (s.world.store.deletePattern n pattern).2
    rw [Memory.deletePattern]
    split
    · exact .refl physical _
    · exact .filter s.world.store _
  | clear n => exact .filter s.world.store _
  | decide t r route =>
    show Memory.Unwritten physical s.world.store (t.engine.decide r route s.world).2.store
    rw [Engine.decide_memory_world (n := t.space) rfl]
    exact .refl physical _
  | commit t key response hint => exact .commit h
  | start number t r route =>
    have hsame : (s.start number t r route : Answer ε × State).2.world =
        (t.engine.decide r route s.world).2 := by
      rw [State.start]
      dsimp only
      split
      · rfl
      · rfl
    show Memory.Unwritten physical s.world.store
      (s.start number t r route : Answer ε × State).2.world.store
    rw [hsame, Engine.decide_memory_world (n := t.space) rfl]
    exact .refl physical _
  | finish number outcome =>
    show Memory.Unwritten physical s.world.store (s.finish number outcome).2.world.store
    rw [State.finish]
    cases hx : s.running number with
    | none => exact .refl physical _
    | some x =>
      cases outcome with
      | error failure => exact .refl physical _
      | ok response =>
        simp only [written?, hx, Option.bind_some] at h
        show Memory.Unwritten physical s.world.store
          (x.tenant.engine.writeBack x.decision _ x.route s.world).store
        rw [Engine.writeBack]
        split
        · rename_i hback
          rw [if_pos hback] at h
          exact .commit h
        · exact .refl physical _
  | _ => exact .refl physical _

/-- However many events follow, and whatever they do to other keys. -/
theorem run_unwritten {events : List (Event ε)} {s : State} {physical : String}
    (h : physical ∉ writes events s) :
    Memory.Unwritten physical s.world.store (run events s).world.store := by
  induction events generalizing s with
  | nil => exact .refl physical _
  | cons ev events ih =>
    simp only [writes, List.mem_append, Option.mem_toList, not_or] at h
    exact (next_unwritten h.1).trans (ih h.2)

end Sharing

namespace Engine
variable {σ ε : Type} {e : Engine σ} {r : Request} {route : Declaration} {handler : Handler σ ε}
  {w : World σ} {response : Response}

structure Stores (e : Engine σ) (r : Request) (route : Declaration) (handler : Handler σ ε)
    (w : World σ) (response : Response) : Prop where
  ran : (e.execute r route handler w).1.handlerRan = true
  returned : (handler (e.decide r route w).2).1 = .ok response
  writesBack : (e.decide r route w).1.writesBack = true
  stored : ∃ ttl, (e.commit (e.keyOf r) (response.stamp route) (some route)
    (handler (e.decide r route w).2).2).1 = .stored ttl

/-- Only successful responses are stored. -/
theorem Stores.isSuccess (h : e.Stores r route handler w response) :
    response.status.isSuccess = true := by
  obtain ⟨ttl, hstored⟩ := h.stored
  obtain ⟨-, hskip, -⟩ := commit_stored (Prod.ext hstored rfl)
  rw [← Response.stamp_status response route]
  exact (Response.skipReason?_eq_none hskip).2

/-- What such an execution comes to: the response with its stamp, for the client and for the
store. -/
theorem Stores.execute_eq (h : e.Stores r route handler w response) :
    e.execute r route handler w = (⟨.ok (deliver r (response.stamp route)), true⟩,
      (e.commit (e.keyOf r) (response.stamp route) (some route)
        (handler (e.decide r route w).2).2).2) := by
  rw [execute_of_response ((e.handlerRan_iff r route handler w).mp h.ran) h.returned, writeBack,
    if_pos h.writesBack, decide_key]

/-- The store in memory then holds the stamped response under its key, and the clock shows when it
was stored. -/
theorem Stores.exists_slot {e : Engine Memory} {n : Namespace} (he : e.backend = Memory.backend n)
    {handler : Handler Memory ε} {w : World Memory} (h : e.Stores r route handler w response) :
    ∃ slot, (e.execute r route handler w).2.store.slots.find? (n.physical (e.keyOf r)) = some slot ∧
      slot.entry = (response.stamp route).entry
        ((response.stamp route).effectivePolicy (some route))
        (e.execute r route handler w).2.now := by
  obtain ⟨ttl, hstored⟩ := h.stored
  obtain ⟨hclock, hstore⟩ := Memory.commit_stored he (Prod.ext hstored rfl)
  have hnow : (e.commit (e.keyOf r) (response.stamp route) (some route)
      (handler (e.decide r route w).2).2).2.now = (handler (e.decide r route w).2).2.now :=
    congrArg Clock.now hclock
  rw [h.execute_eq, hstore, hnow, Memory.find?_set, if_pos rfl]
  exact ⟨_, rfl, rfl⟩

/-- A hit on a request without a list of tags replays an entry of the key. -/
theorem exists_replay_of_hit {e : Engine Memory} {n : Namespace} (he : e.backend = Memory.backend n)
    (hplain : r.ifNoneMatch? = none) {handler : Handler Memory ε} {w : World Memory}
    {answer : Response} (h : (e.execute r route handler w).1 = ⟨.ok answer, false⟩) :
    ∃ slot, w.store.slots.find? (n.physical (e.keyOf r)) = some slot ∧
      answer = slot.entry.replay w.now := by
  have hd : (e.decide r route w).2 = w := decide_memory_world he r route w
  rcases e.execute_cases r route handler w with ⟨response, hc, hx⟩ | ⟨-, ⟨_, -, hx⟩ | ⟨_, -, hx⟩⟩
  · rw [hx] at h
    cases h
    rw [hd] at hc
    obtain ⟨entry, hentry⟩ := Decision.cached_of_cachedResponse hc
    obtain ⟨hget, hdecision⟩ := decide_memory_cached he hentry
    rw [hdecision] at hc
    obtain ⟨slot, hslot, -, rfl⟩ := Memory.get_eq_some_iff.mp hget
    obtain ⟨-, hreplay | ⟨hlisted, -⟩⟩ := Decision.cachedResponse_ofEntry hc
    · exact ⟨slot, hslot, hreplay⟩
    · rw [hplain] at hlisted
      cases hlisted
  · have hran : true = false := congrArg Exchange.handlerRan ((congrArg Prod.fst hx).symm.trans h)
    cases hran
  · have hran : true = false := congrArg Exchange.handlerRan ((congrArg Prod.fst hx).symm.trans h)
    cases hran

end Engine

theorem Exchange.eq_of_answer {ε : Type} {x : Exchange ε} {response : Response} {ran : Bool}
    (h : x.answer.toOption = some response) (hran : x.handlerRan = ran) :
    x = ⟨.ok response, ran⟩ := by
  obtain ⟨_ | answer, ran'⟩ := x
  · cases h
  · cases h
    cases hran
    rfl

/-- A hit replays the response that was first sent. Whatever the handler answered and did to the
memory, and whoever worked on the memory since, as long as nothing wrote the key: the same status,
body and fields go out again, with one tag, which may have moved, and one age, which is the time
since the response was stored in whole seconds. -/
theorem Sharing.hit_replays_first {ε : Type} {t : Tenant} {r : Request}
    (hplain : r.ifNoneMatch? = none) {route : Declaration} {handler : Handler Memory ε}
    {w : World Memory} {response : Response} (hstores : t.engine.Stores r route handler w response)
    {after : State} (hafter : after.world = (t.engine.execute r route handler w).2)
    {events : List (Event ε)} (hunwritten : t.space.physical (t.keyOf r) ∉ writes events after)
    {elapsed : Nat}
    (hclock : (run events after).world.clock.millis.toNat =
      after.world.clock.millis.toNat + elapsed)
    {route' : Declaration} {handler' : Handler Memory ε} {second : Response}
    (hhit : (t.engine.execute r route' handler' (run events after).world).1 = ⟨.ok second, false⟩) :
    ∃ first, (t.engine.execute r route handler w).1 = ⟨.ok first, true⟩ ∧
      second.Replays first (elapsed / 1000) := by
  obtain ⟨stored, hstored, hentry⟩ := hstores.exists_slot (n := t.space) rfl
  obtain ⟨slot, hslot, rfl⟩ := Engine.exists_replay_of_hit (n := t.space) rfl hplain hhit
  -- the slot found at the hit is the one that the first execution left
  have hkept := run_unwritten hunwritten slot hslot
  rw [hafter] at hkept
  obtain rfl : slot = stored := Option.some.inj (hkept.symm.trans hstored)
  refine ⟨response.stamp route, ?_, ?_⟩
  · rw [hstores.execute_eq, Engine.deliver_plain hplain]
  · rw [hentry, ← hafter, ← Clock.seconds_since hclock]
    exact Entry.replay_replays (Response.under_etag_stamp hstores.isSuccess) ..

/-- A response with three ages and a tag of its own, for a route that sets its Cache-Control. Before
the hit another tenant stores a response under the same key of its own, a sweep runs and another key
is removed. -/
theorem Sharing.hit_replays_first_ages_and_tags :
    let t : Tenant := { space := .default }
    let other : Tenant := { space := ⟨"other:"⟩ }
    let r : Request := { host := "localhost", path := "/a" }
    let route : Declaration := { ttl := some (.ofSeconds 60) }
    let response : Response := {
      headers :=
        ⟨[("AGE", "7"), ("etag", "\"x\""), ("Cache-Control", "no-store"), ("X-A", "1"),
          ("age", "9"), ("x-a", "1"), ("Age", "later")]⟩
      body := [104, 105] }
    let handler : Handler Memory Unit :=
      fun w => (.ok response, { w with clock := w.clock.advance (.ofSeconds 2) })
    let after : Sharing.State := { world := (t.engine.execute r route handler ⟨⟨1000⟩, {}⟩).2 }
    let events : List (Sharing.Event Unit) :=
      [.start 0 other r {}, .advance (.ofSeconds 5), .sweep (.through t.space),
        .finish 0 (.ok { headers := ⟨[("Cache-Control", "max-age=9")]⟩ }), .deletePath t.space "/b",
        .advance (.clamp 1500000000)]
    let later := (Sharing.run events after).world
    let tag := EntityTag.ofContent response.body
    let second : Response := {
      headers :=
        ⟨[("X-A", "1"), ("x-a", "1"), ("Cache-Control", "max-age=60"), ("ETag", tag), ("Age", "6")]⟩
      body := [104, 105] }
    (t.engine.execute r {} handler later).1 = ⟨.ok second, false⟩ ∧
      ∃ first, (t.engine.execute r route handler ⟨⟨1000⟩, {}⟩).1 = ⟨.ok first, true⟩ ∧
        second.Replays first 6 := by
  intro t other r route response handler after events later tag second
  have hstored : (t.engine.commit (t.keyOf r) (response.stamp route) (some route)
      (handler (t.engine.decide r route ⟨⟨1000⟩, {}⟩).2).2).1 = .stored (some (.ofSeconds 60)) := by
    decide +kernel
  have hstores : t.engine.Stores r route handler ⟨⟨1000⟩, {}⟩ response :=
    ⟨by decide +kernel, rfl, by decide +kernel, _, hstored⟩
  have hhit : (t.engine.execute r {} handler later).1 = ⟨.ok second, false⟩ := by
    apply Exchange.eq_of_answer
    · decide +kernel
    · decide +kernel
  have hunwritten : t.space.physical (t.keyOf r) ∉ Sharing.writes events after := by decide +kernel
  have hclock : later.clock.millis.toNat = after.world.clock.millis.toNat + 6500 := by
    decide +kernel
  exact ⟨hhit, Sharing.hit_replays_first rfl hstores rfl hunwritten hclock hhit⟩

end ResponseCache
