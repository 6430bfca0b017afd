import ResponseCache.Proofs.Calls
import ResponseCache.Proofs.Interchange
import ResponseCache.Proofs.Lookups
import ResponseCache.Proofs.Operations
import ResponseCache.Proofs.Stamped

/-!
# Removals of a path

A removal of a path takes away what is stored for requests with that path, and nothing else, and it
counts what it takes. That rests on the keys of the engine: the path can be read off a key, and the
pattern for a path matches all keys that have it.
-/
namespace ResponseCache

variable {σ : Type}

def HasCount (kind : String → Prop) (count : Nat) : Prop :=
  ∃ names : List String, names.Nodup ∧ (∀ name, name ∈ names ↔ kind name) ∧ names.length = count

namespace HasCount
variable {kind kind' : String → Prop} {count count' : Nat}

theorem congr (h : HasCount kind count) (hkind : ∀ name, kind name ↔ kind' name) :
    HasCount kind' count := by
  obtain ⟨names, hnodup, hmem, hlength⟩ := h
  exact ⟨names, hnodup, fun name => (hmem name).trans (hkind name), hlength⟩

theorem none (h : ∀ name, ¬kind name) : HasCount kind 0 :=
  ⟨[], .nil, fun name =>
    ⟨fun hname => absurd hname List.not_mem_nil, fun hname => absurd hname (h name)⟩, rfl⟩

theorem or (h : HasCount kind count) (h' : HasCount kind' count')
    (hdisjoint : ∀ name, kind name → ¬kind' name) :
    HasCount (fun name => kind name ∨ kind' name) (count + count') := by
  obtain ⟨names, hnodup, hmem, rfl⟩ := h
  obtain ⟨names', hnodup', hmem', rfl⟩ := h'
  refine ⟨names ++ names', ?_, ?_, List.length_append⟩
  · apply List.nodup_append.mpr
    refine ⟨hnodup, hnodup', ?_⟩
    rintro name hname _ hname' rfl
    exact hdisjoint name ((hmem name).mp hname) ((hmem' name).mp hname')
  · intro name
    rw [List.mem_append, hmem, hmem']

end HasCount

/-- What a filter takes from a table. -/
theorem KeyMap.hasCount_filter {α : Type} (m : KeyMap α) (keep : String → α → Bool) :
    HasCount (fun name => ∃ a, m.find? name = some a ∧ keep name a = false)
      (m.size - (m.filter keep).size) := by
  refine ⟨(m.entries.filter fun e => !keep e.1 e.2).map (·.1), ?_, ?_, ?_⟩
  · have hascending := m.ascending.filter fun e => !keep e.1 e.2
    apply List.pairwise_map.mpr
    exact hascending.imp text_ne_of_lt
  · intro name
    rw [List.mem_map]
    constructor
    · rintro ⟨e, he, rfl⟩
      obtain ⟨hmem, hkeep⟩ := List.mem_filter.mp he
      exact ⟨e.2, find?_eq_some_iff.mpr hmem, by simpa using hkeep⟩
    · rintro ⟨a, ha, hkeep⟩
      exact ⟨(name, a), List.mem_filter.mpr ⟨find?_eq_some_iff.mp ha, by simpa using hkeep⟩, rfl⟩
  · have hsplit := m.entries.length_eq_countP_add_countP fun e => keep e.1 e.2
    rw [List.countP_eq_length_filter, List.countP_eq_length_filter] at hsplit
    rw [List.length_map, size, size, filter, hsplit, Nat.add_sub_cancel_left]
    simp

/-- From the state `s` to `s'` the entries for a path have been forgotten and no others: requests
with that path are misses that have no entry, and the decisions on all other requests are the
same. -/
structure Engine.Forgets (e : Engine σ) (path : String) (now : Instant) (s s' : σ) : Prop where
  missed : ∀ {t : Clock} {r : Request} {route : Declaration}, now ≤ t.now → r.path = path →
    r.method ∈ e.methods → route.bypassesLookup = false →
    (e.decide r route ⟨t, s'⟩).1 = { outcome := .miss, key := e.keyOf r }
  kept : ∀ {t : Clock} {r : Request} (route : Declaration), now ≤ t.now → r.path ≠ path →
    (e.decide r route ⟨t, s'⟩).1 = (e.decide r route ⟨t, s⟩).1

theorem Engine.forgets_of_lookup {e : Engine σ} {path : String} {now : Instant} {s s' : σ}
    (h : ∀ {t : Clock} (r : Request), now ≤ t.now →
      e.lookup r ⟨t, s'⟩ = if r.path = path then none else e.lookup r ⟨t, s⟩) :
    e.Forgets path now s s' := by
  constructor
  · intro t r route hle hpath hm hb
    have hmethod : e.methods.contains r.method = true := List.contains_iff_mem.mpr hm
    rw [decide_eq, h r hle, if_pos hpath, decisionOn, hmethod, hb]
    rfl
  · intro t r route hle hpath
    rw [decide_eq, decide_eq, h r hle, if_neg hpath]
    rfl

@[simp] theorem Key.parts_ofRequest_path (r : Request) : (Key.ofRequest r).parts.path = r.path := by
  rw [ofRequest, parts_derive]

/-- Where the keys are those of requests, the items whose key decodes to a path are those of the
requests for it. -/
theorem Namespace.path_iff_of_requests {n : Namespace} {kind : String → Prop}
    (hrequests : ∀ k, kind (n.physical k) → ∃ r, k = Key.ofRequest r) (path name : String) :
    (kind name ∧ ∃ k, name = n.physical k ∧ k.parts.path = path) ↔
      kind name ∧ ∃ r : Request, name = n.physical (Key.ofRequest r) ∧ r.path = path := by
  constructor
  · rintro ⟨hkind, k, rfl, hpath⟩
    obtain ⟨r, rfl⟩ := hrequests k hkind
    exact ⟨hkind, r, rfl, (Key.parts_ofRequest_path r).symm.trans hpath⟩
  · rintro ⟨hkind, r, hname, hpath⟩
    exact ⟨hkind, _, hname, (Key.parts_ofRequest_path r).trans hpath⟩

namespace Memory
variable (n : Namespace) (path : String) (m : Memory)

theorem get_deletePath (now : Instant) (k : Key) :
    (m.deletePath n path).2.get n now k = if k.parts.path = path then none else m.get n now k := by
  rw [deletePath, get_removeWhere n fun k => k.parts.path == path]
  simp only [beq_iff_eq]

/-- Slots that have expired and were not swept count too. -/
theorem deletePath_count :
    HasCount
      (fun name => m.slots.find? name ≠ none ∧ ∃ k, name = n.physical k ∧ k.parts.path = path)
      (m.deletePath n path).1 := by
  refine (m.slots.hasCount_filter _).congr ?_
  intro name
  constructor
  · rintro ⟨slot, hslot, hkeep⟩
    split at hkeep
    · rename_i k hk
      refine ⟨by simp [hslot], k, Namespace.logical?_eq_some_iff.mp hk, ?_⟩
      simpa using hkeep
    · cases hkeep
  · rintro ⟨hsome, k, rfl, hpath⟩
    obtain ⟨slot, hslot⟩ := Option.ne_none_iff_exists'.mp hsome
    refine ⟨slot, hslot, ?_⟩
    simp [hpath]

end Memory

/-- All writes of a session are under keys of requests. -/
theorem Cache.exists_request_of_written {ε : Type} {n : Namespace} {methods : List Method}
    {w : World Memory} {ev : Event ε} {u : Write} (h : (memory n methods).written? w ev = some u) :
    ∃ r, u.key = Key.ofRequest r := by
  cases ev with
  | execute r route work =>
    obtain ⟨-, response, -, -, hwrite⟩ := ((memory n methods).written?_execute).mp h
    obtain ⟨-, rfl⟩ := Write.of?_eq_some_iff.mp hwrite
    exact ⟨r, rfl⟩
  | commit r response hint =>
    obtain ⟨-, rfl⟩ := Write.of?_eq_some_iff.mp h
    exact ⟨r, rfl⟩
  | _ => cases h

/-- In memory that had none of the namespace's keys, a session leaves keys of requests only. -/
theorem Cache.exists_request_of_slot {ε : Type} {n : Namespace} {methods : List Method}
    {events : List (Event ε)} {w : World Memory}
    (hempty : ∀ k, w.store.slots.find? (n.physical k) = none) {k : Key}
    (hthere : ((memory n methods).run events w).store.slots.find? (n.physical k) ≠ none) :
    ∃ r, k = Key.ofRequest r := by
  have hall : ∀ name slot, ((memory n methods).run events w).store.slots.find? name = some slot →
      ∀ k, name = n.physical k → ∃ r, k = Key.ofRequest r := by
    apply slot_of_run
    · intro ev _ w u hu k hk
      obtain ⟨r, hr⟩ := exists_request_of_written hu
      exact ⟨r, (Namespace.physical_inj.mp hk).symm.trans hr⟩
    · rintro name slot hslot k rfl
      cases (hempty k).symm.trans hslot
  obtain ⟨slot, hslot⟩ := Option.ne_none_iff_exists'.mp hthere
  exact hall _ slot hslot k rfl

namespace KeyValue
variable {client : Client σ} {v : View σ} {present : String → σ → Prop} {c : Scope} {now : Instant}
  {s : σ}

/-- A removal counts the items that it takes, and no expired ones. -/
def Client.CountsRemovals (client : Client σ) (v : View σ) : Prop :=
  ∀ {now keys s n s'}, v.ready s → client.del now keys s = (.ok n, s') →
    HasCount (fun name => name ∈ keys ∧ v.value? now name s ≠ none) n

/-- The names under which a store has items, expired ones among them or not. A call puts no item
under a name other than the one that it writes, whether it succeeds or fails and whatever the clock
shows. -/
structure Tenancy (client : Client σ) (v : View σ) (present : String → σ → Prop) : Prop where
  found : ∀ {t name s}, v.value? t name s ≠ none → present name s
  get : ∀ {now key s name}, present name (client.get now key s).2 → present name s
  set : ∀ {now key value ttl s name}, present name (client.set now key value ttl s).2 →
    present name s ∨ name = key
  del : ∀ {now keys s name}, present name (client.del now keys s).2 → present name s
  scan : ∀ {now cursor pattern count s name},
    present name (client.scan now cursor pattern count s).2 → present name s

def OnlyAdds (present : String → σ → Prop) (kind : String → Prop) (s s' : σ) : Prop :=
  ∀ name, present name s' → present name s ∨ kind name

theorem Tenancy.follows (ht : Tenancy client v present) (now : Instant) (kind : String → Prop) :
    client.Follows now (OnlyAdds present kind) where
  refl _ _ h := .inl h
  trans h h' name hname := (h' name hname).elim (h name) .inr
  get _ _ _ h := .inl (ht.get h)
  scan _ _ _ _ _ h := .inl (ht.scan h)

/-- Whatever a session does, the items that it adds are under keys of requests. -/
theorem Tenancy.run_onlyAdds {ε : Type} (ht : Tenancy client v present) (c : Scope)
    (methods : List Method) (events : List (Event ε)) (w : World σ) :
    OnlyAdds present (fun name => ∃ r, name = c.space.physical (Key.ofRequest r)) w.store
      ((Cache.keyValue c client methods).run events w).store := by
  have hx : (Cache.keyValue c client methods).Follows (fun k _ => ∃ r, k = Key.ofRequest r)
      (OnlyAdds present fun name => ∃ r, name = c.space.physical (Key.ofRequest r)) := by
    constructor
    · exact (ht.follows .epoch _).refl
    · exact (ht.follows .epoch _).trans
    · intro op now s hop
      apply Scope.after_follows (c := c) (ht.follows now _) (fun keys s _ name h => .inl (ht.del h))
      rintro k e ttl rfl name hname
      obtain ⟨r, rfl⟩ : ∃ r, k = Key.ofRequest r := hop
      exact (ht.set hname).imp_right fun h => ⟨r, h⟩
    · exact fun r _ => ⟨r, rfl⟩
  exact Cache.run_follows hx events w

/-- In a store that had none of the namespace's keys, a session leaves values under keys of requests
only. -/
theorem Tenancy.exists_request_of_value? {ε : Type} (ht : Tenancy client v present)
    {methods : List Method} {events : List (Event ε)} {w : World σ}
    (hempty : ∀ k, ¬present (c.space.physical k) w.store) {k : Key}
    (hlive : v.value? now (c.space.physical k)
      ((Cache.keyValue c client methods).run events w).store ≠ none) :
    ∃ r, k = Key.ofRequest r := by
  rcases ht.run_onlyAdds c methods events w _ (ht.found hlive) with hbefore | ⟨r, hr⟩
  · exact absurd hbefore (hempty k)
  · exact ⟨r, Namespace.physical_inj.mp hr⟩

/-- The pattern of a path's removal matches the keys of all requests for the path. -/
theorem Scope.isMatch_pathPattern {path : String} {k : Key} (hrequest : ∃ r, k = Key.ofRequest r)
    (hpath : k.parts.path = path) :
    Wildcard.isMatch (c.storePattern (pathPattern path)) (c.space.physical k) = true := by
  obtain ⟨r, rfl⟩ := hrequest
  rw [← hpath, Key.parts_ofRequest_path]
  exact Wildcard.isMatch_storePattern_path c r.method r.host r.path r.query

theorem removeBatches_count (hc : Contract client v) (hcount : client.CountsRemovals v)
    (removed : Nat) {batches : List (List String)} (hnodup : batches.flatten.Nodup) (hs : v.ready s)
    {n : Nat} {s' : σ} (h : removeBatches client now removed batches s = (.ok n, s')) :
    ∃ taken, n = removed + taken ∧
      HasCount (fun name => name ∈ batches.flatten ∧ v.value? now name s ≠ none) taken := by
  induction batches generalizing removed s with
  | nil =>
    cases h
    exact ⟨0, rfl, .none fun name hname => absurd hname.1 List.not_mem_nil⟩
  | cons batch batches ih =>
    rw [List.flatten_cons, List.nodup_append] at hnodup
    obtain ⟨-, hnodup, hdisjoint⟩ := hnodup
    obtain ⟨one, t, hdel, hleaves⟩ := hc.del now batch hs
    rw [removeBatches, hdel] at h
    obtain ⟨rest, rfl, hrest⟩ := ih (removed + one) hnodup hleaves.ready h
    refine ⟨one + rest, Nat.add_assoc .., ?_⟩
    have htaken := (hcount hs hdel).or hrest ?_
    · apply htaken.congr
      intro name
      rw [List.flatten_cons, List.mem_append, hleaves.value? now (Int.le_refl _)]
      by_cases hname : name ∈ batch
      · simp [hname]
      · simp [hname]
    · rintro name ⟨hname, -⟩ ⟨hname', -⟩
      exact hdisjoint name hname name hname' rfl

/-- A removal counts the items that it takes: those of the namespace that it is to take, if its
pattern matches them. -/
theorem Scope.removeMatching_count (c : Scope) (hc : Contract client v)
    (hcount : client.CountsRemovals v) {pattern : String} {keep : Key → Bool} (hs : v.ready s)
    (hpattern : ∀ k, keep k = true → v.value? now (c.space.physical k) s ≠ none →
      Wildcard.isMatch pattern (c.space.physical k) = true)
    {n : Nat} {s' : σ} (h : c.removeMatching client now pattern keep s = (.ok n, s')) :
    HasCount (fun name => v.value? now name s ≠ none ∧
      ∃ k, name = c.space.physical k ∧ keep k = true) n := by
  obtain ⟨names, t, hscan, hleaves, hfinds⟩ := c.scanKeys_finds now hc pattern keep hs
  have hflat : (cut c.batchSize names.length names).flatten = names :=
    cut_flatten c.batchSize_pos (Nat.le_refl _)
  have hnodup : names.Nodup := hfinds.ascending.imp text_ne_of_lt
  rw [removeMatching, hscan] at h
  obtain ⟨taken, rfl, htaken⟩ := removeBatches_count hc hcount 0 (by rwa [hflat]) hleaves.ready h
  rw [Nat.zero_add]
  apply htaken.congr
  intro name
  rw [hflat, hleaves.value? now (Int.le_refl _)]
  constructor
  · rintro ⟨hname, hlive⟩
    exact ⟨hlive, hfinds.kept name hname⟩
  · rintro ⟨hlive, k, rfl, hkeep⟩
    exact ⟨hfinds.complete k hkeep hlive (hpattern k hkeep hlive), hlive⟩

theorem Scope.lookup_eq (c : Scope) (hc : Contract client v) (methods : List Method) (r : Request)
    {t : Clock} (hs : v.ready s) :
    (Cache.keyValue c client methods).engine.lookup r ⟨t, s⟩ =
      (entryOf (v.value? t.now (c.space.physical (Key.ofRequest r)) s)).toOption.join := by
  show (c.get client t.now (Key.ofRequest r) s).1.toOption.join = _
  rw [get_answer hc t.now _ hs]

end KeyValue

namespace KeyValue.Server

theorem countsRemovals : client.CountsRemovals view := by
  intro now keys s n s' hs hdel
  replace hdel : del now keys s = (.ok n, s') := hdel
  rw [del, onBase, ItemStore.remove, call_of_ready now hs] at hdel
  cases hdel
  apply ((s.base.expire now).items.hasCount_filter fun k _ => !keys.contains k).congr
  intro name
  simp [view, Option.ne_none_iff_exists', and_comm]

/-- A call whose body adds no item of a name adds none. -/
theorem find?_onBase_eq_none {α : Type} {now : Instant} {name : String}
    {body : ItemStore Duration → Except StoreError α × ItemStore Duration}
    (hbody : ∀ b, b.items.find? name = none → (body b).2.items.find? name = none) {s : Server}
    (hs : s.base.items.find? name = none) :
    (onBase (ItemStore.call now body) s).2.base.items.find? name = none := by
  have hexpired : (s.base.expire now).items.find? name = none := by
    rw [ItemStore.find?_expire, hs]
    rfl
  show (ItemStore.call now body s.base).2.items.find? name = none
  obtain ⟨faults, ⟨e, hcall⟩ | hcall⟩ := ItemStore.call_cases now body s.base
  · rw [hcall]
    exact hexpired
  · rw [hcall]
    exact hbody _ hexpired

theorem tenancy : Tenancy client view fun name s => s.base.items.find? name ≠ none where
  found {t name s} hvalue hnone := by
    apply hvalue
    simp only [view]
    rw [ItemStore.find?_expire, hnone]
    rfl
  get h hnone := h (find?_onBase_eq_none (fun _ hb => hb) hnone)
  set {now key value ttl s name} h := by
    by_cases hname : name = key
    · exact .inr hname
    · refine .inl fun hnone => h (find?_onBase_eq_none ?_ hnone)
      intro b hb
      split
      · exact hb
      · exact (KeyMap.find?_insert ..).trans ((if_neg hname).trans hb)
  del h hnone := by
    refine h (find?_onBase_eq_none ?_ hnone)
    intro b hb
    rw [KeyMap.find?_filter, hb]
    rfl
  scan h hnone := h (find?_onBase_eq_none (fun _ hb => hb) hnone)

end KeyValue.Server

/-- From a store that a session has filled, in memory or in a key-value store that can be reached
and keeps its word, the removal of a path succeeds. From then on requests with that path find
nothing, whatever their method, host and query, and all others are decided as before. The count is
that of the items with the path: with the expired ones that no sweep has taken in memory, without
them in a key-value store. -/
theorem Cache.deletePath_exact {ε : Type} (path : String) (methods : List Method)
    (events : List (Event ε)) (start : Clock) :
    (∀ (n : Namespace) (m : Memory), (∀ k, m.slots.find? (n.physical k) = none) →
      let x := memory n methods
      let w := x.run events ⟨start, m⟩
      ∃ count m', x.engine.backend.deletePath w.now path w.store = (.ok count, m') ∧
        x.engine.Forgets path .epoch w.store m' ∧
        HasCount (fun name => w.store.slots.find? name ≠ none ∧
          ∃ r : Request, name = n.physical (Key.ofRequest r) ∧ r.path = path) count) ∧
    ∀ {σ : Type} (c : KeyValue.Scope) {client : KeyValue.Client σ} {v : KeyValue.View σ}
      {present : String → σ → Prop} (s : σ),
      KeyValue.Contract client v → client.CountsRemovals v → KeyValue.Tenancy client v present →
      (∀ k, ¬present (c.space.physical k) s) →
      let x := keyValue c client methods
      let w := x.run events ⟨start, s⟩
      v.ready w.store →
      ∃ count s', x.engine.backend.deletePath w.now path w.store = (.ok count, s') ∧
        x.engine.Forgets path w.now w.store s' ∧
        HasCount (fun name => v.value? w.now name w.store ≠ none ∧
          ∃ r : Request, name = c.space.physical (Key.ofRequest r) ∧ r.path = path) count := by
  constructor
  · intro n m hempty x w
    refine ⟨(w.store.deletePath n path).1, (w.store.deletePath n path).2, rfl, ?_, ?_⟩
    · apply Engine.forgets_of_lookup
      intro t r _
      show (w.store.deletePath n path).2.get n t.now (Key.ofRequest r) =
        if r.path = path then none else w.store.get n t.now (Key.ofRequest r)
      rw [Memory.get_deletePath, Key.parts_ofRequest_path]
    · apply (w.store.deletePath_count n path).congr
      exact Namespace.path_iff_of_requests (fun _ => exists_request_of_slot hempty) path
  · intro σ c client v present s hc hcount ht hempty x w hready
    have hrequests : ∀ k, v.value? w.now (c.space.physical k) w.store ≠ none →
        ∃ r, k = Key.ofRequest r :=
      fun _ => ht.exists_request_of_value? hempty
    have hpattern : ∀ k, (k.parts.path == path) = true →
        v.value? w.now (c.space.physical k) w.store ≠ none →
        Wildcard.isMatch (c.storePattern (KeyValue.pathPattern path)) (c.space.physical k) = true :=
      fun k hpath hlive =>
        KeyValue.Scope.isMatch_pathPattern (hrequests k hlive) (beq_iff_eq.mp hpath)
    obtain ⟨count, s', hdone, hleaves⟩ := c.removeMatching_leaves w.now hc hready hpattern
    refine ⟨count, s', hdone, ?_, ?_⟩
    · apply Engine.forgets_of_lookup
      intro t r hle
      rw [c.lookup_eq hc methods r hleaves.ready, c.lookup_eq hc methods r hready,
        hleaves.value? t.now hle, Namespace.logical?_physical, Option.any_some,
        Key.parts_ofRequest_path]
      by_cases hpath : r.path = path
      · rw [if_pos hpath, if_pos (beq_iff_eq.mpr hpath)]
        rfl
      · rw [if_neg hpath, if_neg (mt beq_iff_eq.mp hpath)]
    · apply (c.removeMatching_count hc hcount hready hpattern hdone).congr
      simpa only [beq_iff_eq] using Namespace.path_iff_of_requests hrequests path

/-- A path with all the signs of wildcards, the bar, the percent sign, a control character and a
letter beyond ASCII, once for a host where its entry has expired, and once for another method and
host. The server gives pages of one key, names all keys of a page, and names them twice. -/
theorem Cache.deletePath_exact_unusual :
    let path := "/a*?[b]\\|%7C\x01é"
    let expiring : Request := { host := "localhost", path, query := [("q", "1")] }
    let lasting : Request := { host := "example.org", path, method := .head }
    let other : Request := { host := "localhost", path := "/a" }
    let response (control : String) : Response := { headers := ⟨[("Cache-Control", control)]⟩ }
    let events : List (Event Unit) :=
      [.execute expiring {} { outcome := .ok (response "max-age=1") },
        .pause (.advance (.ofSeconds 5)),
        .execute lasting {} { outcome := .ok (response "max-age=60") },
        .execute other {} { outcome := .ok (response "max-age=60") }]
    let server : KeyValue.Server := { listing := { loose := true, twice := true, page := some 1 } }
    let x := memory .default [.get, .head]
    let y := keyValue { batch := 1 } KeyValue.Server.client [.get, .head]
    let w := x.run events ⟨⟨0⟩, {}⟩
    let u := y.run events ⟨⟨0⟩, server⟩
    (∃ m', x.engine.backend.deletePath w.now path w.store = (.ok 2, m') ∧
      x.engine.Forgets path .epoch w.store m' ∧
      m'.slots.keys = ["cachex:GET|||localhost|||/a|||"]) ∧
    ∃ s', y.engine.backend.deletePath u.now path u.store = (.ok 1, s') ∧
      y.engine.Forgets path u.now u.store s' ∧
      s'.base.items.keys = ["cachex:GET|||localhost|||/a|||"] := by
  intro path expiring lasting other response events server
  obtain ⟨hmemory, hkeyValue⟩ := deletePath_exact path [.get, .head] events ⟨0⟩
  obtain ⟨count, m', hdone, hforgets, -⟩ := hmemory .default {} fun _ => rfl
  obtain ⟨count', s', hdone', hforgets', -⟩ :=
    hkeyValue { batch := 1 } server KeyValue.Server.contract
      KeyValue.Server.countsRemovals KeyValue.Server.tenancy (fun _ => absurd rfl)
      ⟨by decide +kernel, by decide +kernel, by decide +kernel⟩
  have hresult : (some count, m'.slots.keys) = (some 2, ["cachex:GET|||localhost|||/a|||"]) := by
    apply (congrArg (fun z => (z.1.toOption, z.2.slots.keys)) hdone).symm.trans
    decide +kernel
  have hresult' : (some count', s'.base.items.keys) =
      (some 1, ["cachex:GET|||localhost|||/a|||"]) := by
    apply (congrArg (fun z => (z.1.toOption, z.2.base.items.keys)) hdone').symm.trans
    decide +kernel
  obtain ⟨⟨rfl⟩, hkeys⟩ := Prod.mk.inj hresult
  obtain ⟨⟨rfl⟩, hkeys'⟩ := Prod.mk.inj hresult'
  exact ⟨⟨m', hdone, hforgets, hkeys⟩, s', hdone', hforgets', hkeys'⟩

end ResponseCache
