import ResponseCache.Proofs.Clearing
import ResponseCache.Proofs.Interchange
import ResponseCache.Proofs.Stamped
import ResponseCache.Proofs.WireKeys

/-!
# A cache over a store without key listing for one in memory

While its store can be reached, a cache over it answers as a cache in memory does, in all that it
supports. Under the names on the wire the store shows, at every time, the records of exactly the
entries that can be read in memory: keys do not meet on the wire, the store drops an item when
memory does, and clearing leaves nothing behind.
-/
namespace ResponseCache

variable {σ : Type}

namespace CacheControl

theorem IsDelta.subseconds {d : Duration} (h : IsDelta d) : d.subseconds = 0 := by
  obtain ⟨n, hn, rfl⟩ := h
  simp only [maxDelta] at hn
  rw [Duration.subseconds, Duration.ofSeconds_nanos (by omega), Nat.mul_mod_left]

end CacheControl

/-- A response is kept for whole seconds. -/
theorem Policy.InDeltas.storageTtl_subseconds {p : Policy} (h : p.InDeltas) {d : Duration}
    (hd : d ∈ p.storageTtl) : d.subseconds = 0 := by
  obtain ⟨ttl, httl, rfl⟩ := Option.map_eq_some_iff.mp hd
  have window : ∀ o : Option Duration, (∀ d ∈ o, CacheControl.IsDelta d) →
      (o.getD .zero).nanos % nanosPerSecond = 0 := by
    intro o ho
    cases o with
    | none => rfl
    | some d => exact (ho d rfl).subseconds
  have hextension : p.staleExtension.nanos % nanosPerSecond = 0 := by
    rw [staleExtension]
    split
    · rfl
    · have hw := window _ h.staleWhileRevalidate
      have he := window _ h.staleIfError
      rw [Duration.max]
      split
      · exact he
      · exact hw
  have hwhole : ttl.nanos % nanosPerSecond = 0 := (h.ttl ttl httl).subseconds
  rw [Duration.subseconds, h.storageTtl_nanos httl, Nat.add_mod, hwhole, hextension, Nat.add_zero,
    Nat.zero_mod]

namespace Memcached

/-- A long lifetime goes out as the time at which it ends. -/
theorem dropTime_absolute {c : Clock} {ttl : Duration} (hclock : c.millis.toNat % 1000 = 0)
    (hwhole : ttl.subseconds = 0) (hlong : relativeLimit < ttl.seconds)
    (hrange : c.millis.toNat / 1000 + ttl.seconds ≤ 2 ^ 32 - 1) :
    dropTime c.now (expiry c.now (some ttl)) = c.now.add? ttl := by
  have hnow : c.now.nanos = (c.millis.toNat / 1000 : Nat) * 1000000000 := by
    rw [Clock.now_nanos]
    omega
  have hseconds : (c.now.since .epoch).seconds = c.millis.toNat / 1000 := by
    rw [Duration.seconds, Instant.since_nanos, hnow, show Instant.epoch.nanos = 0 from rfl,
      nanosPerSecond]
    omega
  have hup : ttl.secondsUp = ttl.seconds := Duration.secondsUp_of_whole hwhole
  have hexpiry : expiry c.now (some ttl) = c.millis.toNat / 1000 + ttl.seconds := by
    rw [expiry_absolute (by rwa [hup]), hup, hseconds, Nat.min_eq_left hrange]
  rw [hexpiry, dropTime, if_neg (by omega), if_neg (by omega), Instant.add?, Instant.add?,
    Duration.ofSeconds_nanos (by omega), Duration.nanos_of_whole hwhole, hnow,
    show Instant.epoch.nanos = 0 from rfl, nanosPerSecond]
  congr 1
  omega

/-- At whole seconds, and as long as 32 bits can tell the time, the store drops an item when its
lifetime is over. -/
theorem dropTime_expiry {c : Clock} {ttl : Option Duration} (hclock : c.millis.toNat % 1000 = 0)
    (hlasts : ∀ d ∈ ttl, 0 < d.seconds ∧ d.subseconds = 0)
    (hrange : ∀ d ∈ ttl, c.millis.toNat / 1000 + d.seconds ≤ 2 ^ 32 - 1) :
    dropTime c.now (expiry c.now ttl) = ttl.bind c.now.add? := by
  cases ttl with
  | none => rw [expiry, dropTime, if_pos rfl, Option.bind_none]
  | some ttl =>
    obtain ⟨hpos, hwhole⟩ := hlasts ttl rfl
    rw [Option.bind_some]
    rcases Nat.lt_or_ge relativeLimit ttl.seconds with hlong | hshort
    · exact dropTime_absolute hclock hwhole hlong (hrange ttl rfl)
    · exact dropTime_relative hpos hwhole hshort

/-- A store that follows the rule for expiry and can be reached: it refuses no call, and stays in
reach. -/
structure Client.Serves (client : Client σ) (v : KeyValue.View σ) :
    Prop extends client.FollowsRule v.value? where
  get_ok : ∀ {s} now key, v.ready s →
    ∃ found s', client.get now key s = (.ok found, s') ∧ v.ready s'
  set_ok : ∀ {s} now key value expiry, v.ready s →
    ∃ s', client.set now key value expiry s = (.ok (), s') ∧ v.ready s'
  delete_ok : ∀ {s} now key, v.ready s →
    ∃ existed s', client.delete now key s = (.ok existed, s') ∧ v.ready s'

namespace Server

theorem client_serves : client.Serves view where
  toFollowsRule := client_followsRule
  get_ok {s} now key hs := by
    refine ⟨((s.expire now).items.find? key).map (·.value), s.expire now, ?_, hs⟩
    show ItemStore.get now key s = _
    rw [ItemStore.get, ItemStore.call_of_faultless now _ hs]
  set_ok {s} now key value expiry hs := by
    let item : Item Nat := { value, dropAt := dropTime now expiry, expiry := some expiry }
    refine ⟨{ s.expire now with items := (s.expire now).items.insert key item }, ?_, hs⟩
    exact ItemStore.put_of_faultless now key item hs
  delete_ok {s} now key hs := by
    let kept := (s.expire now).items.filter fun k _ => !([key].contains k)
    refine ⟨0 < (s.expire now).items.size - kept.size, { s.expire now with items := kept }, ?_, hs⟩
    have hremove : ItemStore.remove now [key] s =
        (.ok ((s.expire now).items.size - kept.size), { s.expire now with items := kept }) := by
      rw [ItemStore.remove, ItemStore.call_of_faultless now _ hs]
    simp only [client, hremove]

end Server

variable {client : Client σ} {v : KeyValue.View σ} {known : Key → Prop} {n : Namespace}
  {now : Instant} {m : Memory} {s : State σ} {order : Order σ}

/-- Of the keys that are known, the store shows what the memory holds, now and later, and the index
has all that it shows. -/
structure Shadows (v : KeyValue.View σ) (known : Key → Prop) (n : Namespace) (now : Instant)
    (m : Memory) (s : State σ) : Prop where
  ready : v.ready s.store
  tracks : Tracks v.value? now s
  shows : ∀ later, now ≤ later →
    ∀ k, known k → v.value? later (wireKey n k) s.store = (m.get n later k).map Record.encode
  sound : ∀ k e, m.get n now k = some e → Record.decode (Record.encode e) = .ok e

/-- A write that the store keeps as memory does: of a known key, for a while or for good, dropped in
time, and such that its record can be read back. -/
structure Fits (known : Key → Prop) (u : Write) : Prop where
  known : known u.key
  lasts : ∀ d ∈ u.policy.storageTtl, 0 < d.seconds ∧ d.subseconds = 0
  dropped : dropTime u.clock.now (expiry u.clock.now u.policy.storageTtl) =
    u.policy.storageTtl.bind u.clock.now.add?
  readsBack : Record.decode (Record.encode u.entry) = .ok u.entry

namespace Shadows

theorem empty {store : σ} (hready : v.ready store)
    (hstore : ∀ t name, v.value? t name store = none) : Shadows v known n now {} ⟨store, {}⟩ where
  ready := hready
  tracks t _ name hvalue := absurd (hstore t name) hvalue
  shows later _ k _ := hstore later (wireKey n k)
  sound k e he := by cases he

theorem at_later (h : Shadows v known n now m s) {later : Instant} (hle : now ≤ later) :
    Shadows v known n later m s where
  ready := h.ready
  tracks := h.tracks.at_later hle
  shows t ht := h.shows t (Int.le_trans hle ht)
  sound k e he := h.sound k e (Memory.get_earlier hle he)

theorem sweep (h : Shadows v known n now m s) : Shadows v known n now (m.sweep n now).2 s where
  ready := h.ready
  tracks := h.tracks
  shows later hle k hk := by
    rw [Memory.get_sweep hle]
    exact h.shows later hle k hk
  sound k e he := by
    rw [Memory.get_sweep (Int.le_refl _)] at he
    exact h.sound k e he

theorem entryOf_value? (h : Shadows v known n now m s) {k : Key} (hk : known k) :
    KeyValue.entryOf (v.value? now (wireKey n k) s.store) = .ok (m.get n now k) := by
  rw [h.shows now (Int.le_refl _) k hk]
  exact KeyValue.entryOf_map_encode (h.sound k)

theorem get (hc : client.Serves v) (h : Shadows v known n now m s) {k : Key} (hk : known k) :
    Matched (Shadows v known n now) ((Memory.backend n).get now k m)
      (Memcached.get client n now k s) := by
  obtain ⟨found, store, hget, hready⟩ := hc.get_ok now (wireKey n k) h.ready
  have hsame : ∀ later, now ≤ later →
      ∀ name, v.value? later name store = v.value? later name s.store := by
    intro later hle name
    have hlocal := hc.get (wireKey n k) s.store name hle
    rwa [hget] at hlocal
  rw [get_eq, hget, hc.read hget]
  refine ⟨(h.entryOf_value? hk).symm, hready, h.tracks.of_same hsame, ?_, h.sound⟩
  intro later hle k' hk'
  rw [hsame later hle]
  exact h.shows later hle k' hk'

variable (hwire : ∀ k k', known k → known k' → wireKey n k = wireKey n k' → k = k')
include hwire

theorem set (hc : client.Serves v) {u : Write} (hu : Fits known u)
    (h : Shadows v known n u.clock.now m s) :
    Matched (Shadows v known n u.clock.now)
      ((Memory.backend n).set u.clock.now u.key u.entry u.policy.storageTtl m)
      (Memcached.set client n u.clock.now u.key u.entry u.policy.storageTtl s) := by
  have htracks :=
    set_tracks (n := n) hc.toFollowsRule u.clock.epoch_le_now u.key u.entry hu.lasts h.tracks
  obtain ⟨store, hset, hready⟩ := hc.set_ok u.clock.now (wireKey n u.key) (Record.encode u.entry)
    (expiry u.clock.now u.policy.storageTtl) h.ready
  rw [Memcached.set, hset] at htracks ⊢
  refine ⟨rfl, hready, htracks, ?_, ?_⟩
  · intro later hle k hk
    show v.value? later (wireKey n k) store =
      ((m.set n u.clock.now u.key u.entry u.policy.storageTtl).get n later k).map _
    rw [Memory.get_set]
    by_cases hkey : k = u.key
    · rw [hkey, if_pos rfl, hc.stored hset hle, hu.dropped]
      split
      · rfl
      · rfl
    · rw [if_neg hkey, hc.set_other hset hle fun hname => hkey (hwire k u.key hk hu.known hname)]
      exact h.shows later hle k hk
  · intro k e he
    replace he : (m.set n u.clock.now u.key u.entry u.policy.storageTtl).get n u.clock.now k =
      some e := he
    rw [Memory.get_set] at he
    split at he
    · split at he
      · cases he
        exact hu.readsBack
      · cases he
    · exact h.sound k e he

theorem delete (hc : client.Serves v) (h : Shadows v known n now m s) {k : Key} (hk : known k) :
    Matched (Shadows v known n now) (uncounted ((Memory.backend n).delete now k m))
      (uncounted (Memcached.delete client n now k s)) := by
  have htracks := delete_tracks (n := n) hc.toFollowsRule k h.tracks
  obtain ⟨existed, store, hdelete, hready⟩ := hc.delete_ok now (wireKey n k) h.ready
  rw [Memcached.delete, hdelete] at htracks ⊢
  refine ⟨rfl, hready, htracks, ?_, ?_⟩
  · intro later hle k' hk'
    show v.value? later (wireKey n k') store = ((m.delete n k).2.get n later k').map _
    rw [Memory.get_delete]
    by_cases hkey : k' = k
    · rw [hkey, if_pos rfl, hc.deleted hdelete hle]
      rfl
    · rw [if_neg hkey, hc.delete_other hdelete hle fun hname => hkey (hwire k' k hk' hk hname)]
      exact h.shows later hle k' hk'
  · intro k' e he
    replace he : (m.delete n k).2.get n now k' = some e := he
    rw [Memory.get_delete] at he
    split at he
    · cases he
    · exact h.sound k' e he

end Shadows

/-- As long as the store is in reach, deletions in turn come to their end. -/
theorem deleteAll_ok (hc : client.Serves v) (removed : Nat) (es : List (String × Option Instant))
    (hs : v.ready s.store) :
    ∃ total, (deleteAll client now removed es s).1 = .ok total ∧
      v.ready (deleteAll client now removed es s).2.store := by
  induction es generalizing removed s with
  | nil => exact ⟨removed, rfl, hs⟩
  | cons e es ih =>
    obtain ⟨existed, store, hdelete, hready⟩ := hc.delete_ok now e.1 hs
    rw [deleteAll, hdelete]
    exact ih (if existed then removed + 1 else removed) hready

theorem Shadows.clear (hc : client.Serves v) (ho : order.IsExact) (h : Shadows v known n now m s) :
    Matched (Shadows v known n now) (uncounted ((Memory.backend n).clear now m))
      (uncounted (clearBy order client now s)) := by
  obtain ⟨htracks, hcleared⟩ := clearBy_tracks hc.toFollowsRule ho h.tracks
  obtain ⟨total, htotal, hready⟩ : ∃ total, (clearBy order client now s).1 = .ok total ∧
      v.ready (clearBy order client now s).2.store := deleteAll_ok hc 0 _ h.ready
  have hnone : ∀ later k, (m.clear n).2.get n later k = none := by
    intro later k
    rw [Memory.clear, Memory.get_removeWhere n (fun _ => true)]
    rfl
  refine ⟨?_, hready, htracks, ?_, ?_⟩
  · show Except.ok () = (clearBy order client now s).1.map fun _ => ()
    rw [htotal]
    rfl
  · intro later hle k _
    show v.value? later (wireKey n k) (clearBy order client now s).2.store =
      ((m.clear n).2.get n later k).map _
    rw [hnone, (hcleared total htotal).eq_none hle]
    rfl
  · intro k e he
    cases (hnone now k).symm.trans he

end Memcached

/-- A write at whole seconds, which a record keeps, whose lifetime ends while 32 bits can tell the
time. -/
structure Write.IsTimely (u : Write) : Prop where
  whole : u.clock.millis.toNat % 1000 = 0
  stored : Record.IsExact u.clock.now
  inRange : ∀ ttl ∈ u.policy.storageTtl, u.clock.millis.toNat / 1000 + ttl.seconds ≤ 2 ^ 32 - 1

/-- A timely write can be read back: it has an expiry only if its lifetime ends. -/
theorem Write.IsTimely.readsBack {u : Write} (h : u.IsTimely) (hdeltas : u.policy.InDeltas) :
    Record.decode (Record.encode u.entry) = .ok u.entry := by
  cases httl : u.policy.ttl with
  | none =>
    apply Record.decode_encode_of_isExact h.stored
    intro t ht
    rw [Write.entry, Response.entry, httl] at ht
    cases ht
  | some ttl =>
    have hend := h.inRange (ttl.add u.policy.staleExtension) (by rw [Policy.storageTtl, httl]; rfl)
    have hwhole := h.whole
    apply decode_encode_entry _ u.response hdeltas
    refine ⟨u.clock.millis.toNat / 1000, by omega, ?_⟩
    rw [Clock.now_nanos]
    omega

/-- What the engine writes at such times fits. -/
theorem Memcached.fits_of_of? {known : Key → Prop} {key : Key} {response : Response}
    {hint : Option Declaration} {c : Clock} {u : Write}
    (hu : Write.of? key response hint c = some u) (hknown : known key) (ht : u.IsTimely) :
    Fits known u := by
  obtain ⟨hskip, rfl⟩ := Write.of?_eq_some_iff.mp hu
  have hdeltas := response.effectivePolicy_inDeltas hint
  have hkept := Response.skipReason?_ne_expired hskip
  have hlasts : ∀ d ∈ (response.effectivePolicy hint).storageTtl,
      0 < d.seconds ∧ d.subseconds = 0 := by
    intro d hd
    have hwhole := hdeltas.storageTtl_subseconds hd
    refine ⟨?_, hwhole⟩
    apply Nat.pos_of_ne_zero
    intro hseconds
    apply hkept
    rw [show (response.effectivePolicy hint).storageTtl = some d from hd,
      ← Duration.ofSeconds_seconds hwhole, hseconds]
    rfl
  exact ⟨hknown, hlasts, dropTime_expiry ht.whole hlasts ht.inRange, ht.readsBack hdeltas⟩

def Event.key? {ε : Type} : Event ε → Option Key
  | .execute r .. | .decide r _ | .commit r .. => some (.ofRequest r)
  | .get k | .delete k => some k
  | .pause _ | .deletePath _ | .deletePattern _ | .clear | .entries | .report => none

def Event.keys {ε : Type} (events : List (Event ε)) : List Key := events.filterMap Event.key?

def Event.NeedsNoListing {ε : Type} : Event ε → Prop
  | .deletePath _ | .deletePattern _ | .entries | .report => False
  | _ => True

instance {ε : Type} : (ev : Event ε) → Decidable ev.NeedsNoListing
  | .deletePath _ | .deletePattern _ | .entries | .report => .isFalse id
  | .pause _ | .execute .. | .decide .. | .commit .. | .get _ | .delete _
  | .clear => .isTrue trivial

namespace Cache
variable {ε : Type}

def writes (x : Cache σ) : List (Event ε) → World σ → List Write
  | [], _ => []
  | ev :: events, w => (x.written? w ev).toList ++ writes x events (x.next w ev)

def memcached (order : Memcached.Order σ) (client : Memcached.Client σ) (n : Namespace)
    (methods : List Method) : Cache (Memcached.State σ) where
  engine := { backend := (Memcached.handleBy order client n).backend, methods }

theorem of?_of_written {n : Namespace} {methods : List Method} {w : World Memory} {ev : Event ε}
    {u : Write} (h : (memory n methods).written? w ev = some u) :
    ∃ k response hint c, ev.key? = some k ∧ Write.of? k response hint c = some u := by
  cases ev with
  | execute r route work =>
    obtain ⟨-, response, -, -, hu⟩ := (written?_execute _).mp h
    exact ⟨_, _, _, _, rfl, hu⟩
  | commit r response hint => exact ⟨_, _, _, _, rfl, h⟩
  | _ => cases h

end Cache

section
variable {ε : Type} {order : Memcached.Order σ} {client : Memcached.Client σ} {v : KeyValue.View σ}
  {known : Key → Prop} {n : Namespace} {w : World Memory} {u : World (Memcached.State σ)}

theorem Memcached.Client.Serves.coupled (hc : client.Serves v) (order : Memcached.Order σ)
    (methods : List Method)
    (hwire : ∀ k k', known k → known k' → Memcached.wireKey n k = Memcached.wireKey n k' → k = k') :
    (Cache.memory n methods).Coupled (Cache.memcached order client n methods) known
      (Memcached.Fits known) (fun _ => True) (Memcached.Shadows v known n) where
  engine :=
    { keyOf := rfl
      methods := rfl
      get := fun h hk => h.get hc hk
      set := fun h hu => h.set hwire hc hu }
  later h hle _ := h.at_later hle
  sweep h := h.sweep

/-- One event: the answers are the same, and the store goes on to show what memory holds. -/
theorem Memcached.Client.Serves.step (hc : client.Serves v) (ho : order.IsExact)
    (methods : List Method)
    (hwire : ∀ k k', known k → known k' → Memcached.wireKey n k = Memcached.wireKey n k' → k = k')
    (h : World.Related (Memcached.Shadows v known n) w u) {ev : Event ε} (hev : ev.NeedsNoListing)
    (hknown : ∀ k ∈ ev.key?, known k)
    (htimely : ∀ x, (Cache.memory n methods).written? w ev = some x → x.IsTimely)
    (horder : (w.clock :: (Cache.memory n methods).readingsOf w ev).Pairwise fun a b =>
      a.now ≤ b.now) :
    Matched (World.Related (Memcached.Shadows v known n)) ((Cache.memory n methods).step w ev)
      ((Cache.memcached order client n methods).step u ev) := by
  have hcoupled := hc.coupled order methods hwire
  have hfits : ∀ x, (Cache.memory n methods).written? w ev = some x → Memcached.Fits known x := by
    intro x hx
    obtain ⟨k, response, hint, c, hkey, hof⟩ := Cache.of?_of_written hx
    exact Memcached.fits_of_of? hof (hknown k hkey) (htimely x hx)
  cases ev with
  | pause p =>
    have hle := (List.pairwise_cons.mp horder).1 _ List.mem_cons_self
    exact ⟨rfl, hcoupled.pause h hle trivial⟩
  | execute r route work =>
    apply Matched.map
    exact hcoupled.execute h (hknown _ rfl) hfits horder fun _ _ => trivial
  | decide r route =>
    exact Matched.map (hcoupled.engine.decide h route (hknown _ rfl)) Answer.decision
  | commit r response hint => exact Matched.map (hcoupled.engine.commit h hfits) Answer.write
  | get k =>
    unfold Cache.step
    apply Matched.map
    apply h.perform
    exact h.stores.get hc (hknown k rfl)
  | delete k =>
    unfold Cache.step
    apply Matched.map
    apply h.remove
    exact h.stores.delete hwire hc (hknown k rfl)
  | clear =>
    unfold Cache.step
    apply Matched.map
    apply h.remove
    exact h.stores.clear hc ho
  | deletePath path => exact hev.elim
  | deletePattern pattern => exact hev.elim
  | entries => exact hev.elim
  | report => exact hev.elim

theorem Memcached.Client.Serves.answers_eq (hc : client.Serves v) (ho : order.IsExact)
    (methods : List Method)
    (hwire : ∀ k k', known k → known k' → Memcached.wireKey n k = Memcached.wireKey n k' → k = k')
    (h : World.Related (Memcached.Shadows v known n) w u) {events : List (Event ε)}
    (hevents : ∀ ev ∈ events, ev.NeedsNoListing) (hknown : ∀ ev ∈ events, ∀ k ∈ ev.key?, known k)
    (htimely : ∀ x ∈ (Cache.memory n methods).writes events w, x.IsTimely)
    (horder : (Cache.memory n methods).InOrder events w) :
    (Cache.memory n methods).answers events w =
      (Cache.memcached order client n methods).answers events u := by
  induction events generalizing w u with
  | nil => rfl
  | cons ev events ih =>
    have hone :=
      hc.step ho methods hwire h (hevents ev List.mem_cons_self) (hknown ev List.mem_cons_self)
        (fun x hx => htimely x (List.mem_append_left _ (Option.mem_toList.mpr hx)))
        ((Cache.memory n methods).readings_order horder)
    have hrest := ih hone.state (fun ev' hev => hevents ev' (List.mem_cons_of_mem _ hev))
      (fun ev' hev => hknown ev' (List.mem_cons_of_mem _ hev))
      (fun x hx => htimely x (List.mem_append_right _ hx))
      ((Cache.memory n methods).inOrder_next horder)
    rw [Cache.answers, Cache.answers, hone.answer]
    exact congrArg _ hrest

end

/-- A cache in memory and a cache over a store that does not list its keys answer every session
alike: each execution with its handler's runs, each decision and each read, in all that the store
supports. The store can be reached, is used by this cache alone, follows the rule for expiry and is
asked for keys that do not meet on the wire. Both start without entries, on a clock that does not go
back, also while handlers run. What is written is written at whole seconds, and its lifetime ends
while 32 bits can tell the time. -/
theorem Cache.answers_memcached {ε : Type} {client : Memcached.Client σ} {v : KeyValue.View σ}
    (hc : client.Serves v) {order : Memcached.Order σ} (ho : order.IsExact) (n : Namespace)
    (methods : List Method) {start : Clock} {store : σ} (hready : v.ready store)
    (hstore : ∀ t name, v.value? t name store = none) {events : List (Event ε)}
    (hevents : ∀ ev ∈ events, ev.NeedsNoListing) (hkeys : Key.Apart (Event.keys events))
    (horder : (memory n methods).InOrder events ⟨start, {}⟩)
    (htimely : ∀ u ∈ (memory n methods).writes events ⟨start, {}⟩, u.IsTimely) :
    (memory n methods).answers events ⟨start, {}⟩ =
      (memcached order client n methods).answers events ⟨start, ⟨store, {}⟩⟩ := by
  have hworld : World.Related (Memcached.Shadows v (· ∈ Event.keys events) n) ⟨start, {}⟩
      ⟨start, ⟨store, {}⟩⟩ :=
    ⟨rfl, .empty hready hstore⟩
  have hwire : ∀ k k', k ∈ Event.keys events → k' ∈ Event.keys events →
      Memcached.wireKey n k = Memcached.wireKey n k' → k = k' :=
    fun k k' hk hk' => hkeys.wireKey_inj n hk hk'
  exact hc.answers_eq ho methods hwire hworld hevents
    (fun ev hev k hk => List.mem_filterMap.mpr ⟨ev, hev, hk⟩) htimely horder

/-- A key that is too long for the wire and one that is not, both with a lifetime too long to be
sent as such. The handler of the second execution, a day later, does not run, and after a month the
first response is gone. Then reads and removals. -/
theorem Cache.answers_memcached_long_lifetime :
    let n : Namespace := ⟨String.ofList (List.replicate 185 'n' ++ [':'])⟩
    let r : Request :=
      { host := "localhost", path := "/reports/2024/quarterly/summary-of-all-regions" }
    let other : Request := { host := "localhost", path := "/b" }
    let response : Response := { headers := ⟨[("Cache-Control", "max-age=2678400")]⟩ }
    let work : Work Unit := { pauses := [.advance (.ofSeconds 1)], outcome := .ok response }
    let events : List (Event Unit) :=
      [.execute r {} work, .pause (.advance (.ofSeconds 86400)), .execute r {} work,
        .commit other response none, .pause (.advance (.ofSeconds 2592000)), .decide r {},
        .get (.ofRequest other), .delete (.ofRequest r), .clear, .get (.ofRequest other)]
    (memory n [.get]).answers events ⟨⟨0⟩, {}⟩ =
      (memcached Memcached.keyOrder Memcached.Server.client n [.get]).answers events
        ⟨⟨0⟩, ⟨{}, {}⟩⟩ := by
  intro n r other response work events
  have hasked : Event.keys events =
      [.ofRequest r, .ofRequest r, .ofRequest other, .ofRequest r, .ofRequest other, .ofRequest r,
        .ofRequest other] := rfl
  have hkeys : Key.Apart (Event.keys events) := by
    apply Key.apart_of_requests
      (show (Key.ofRequest r).digest ≠ (Key.ofRequest other).digest by decide +kernel)
    simp only [hasked, List.forall_mem_cons, true_or, or_true, List.not_mem_nil, false_imp_iff,
      implies_true, and_self]
  have hwrites : ∀ u ∈ (memory n [.get]).writes events ⟨⟨0⟩, {}⟩, u.clock.millis.toNat % 1000 = 0 ∧
      u.clock.now.IsEarly ∧
      ∀ ttl ∈ u.policy.storageTtl, u.clock.millis.toNat / 1000 + ttl.seconds ≤ 2 ^ 32 - 1 := by
    decide +kernel
  have horder : (memory n [.get]).InOrder events ⟨⟨0⟩, {}⟩ := by decide +kernel
  have hready : Memcached.Server.view.ready {} := rfl
  have hevents : ∀ ev ∈ events, ev.NeedsNoListing := by decide
  apply answers_memcached Memcached.Server.client_serves Memcached.keyOrder_isExact n [.get] hready
    (fun _ _ => rfl) hevents hkeys horder
  intro u hu
  obtain ⟨hwhole, hearly, hrange⟩ := hwrites u hu
  exact ⟨hwhole, Record.isExact_of_isWhole (by decide) hearly, hrange⟩

end ResponseCache
