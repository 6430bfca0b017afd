import ResponseCache.Proofs.Calls
import ResponseCache.Proofs.Indices
import ResponseCache.Proofs.Server

/-!
# Isolation of namespaces

A handle leaves every item alone that its namespace does not own. In memory a removal looks at the
namespace of each slot, a key-value store is only told to remove names that were checked after the
scan, and an index of written keys has no others. So a handle of a namespace apart from it reads
what it read before.
-/
namespace ResponseCache

variable {σ α : Type}

namespace Memory

def handle (n : Namespace) : Handle Memory where
  backend := backend n
  sweep now m := (m.sweep n now).2

def slot? (name : String) (m : Memory) : Option Slot := m.slots.find? name

theorem removeWhere_spares (n : Namespace) (doomed : Key → Slot → Bool) (m : Memory) :
    n.Spares slot? m (m.removeWhere n doomed).2 := by
  intro name hname
  simp only [slot?, removeWhere, KeyMap.find?_filter, Namespace.logical?_of_not_owns hname]
  cases m.slots.find? name with
  | none => rfl
  | some slot => rfl

theorem after_spares (n : Namespace) (now : Instant) (m : Memory) (op : Operation) :
    n.Spares slot? m ((handle n).after now m op) := by
  cases op with
  | get k => exact .refl n slot? m
  | set k e ttl =>
    intro name hname
    exact (find?_set ..).trans (if_neg (Namespace.ne_physical hname k))
  | delete k =>
    intro name hname
    exact (find?_delete ..).trans (if_neg (Namespace.ne_physical hname k))
  | deletePath path => exact removeWhere_spares n _ m
  | deletePattern pattern =>
    show n.Spares slot? m (m.deletePattern n pattern).2
    rw [deletePattern]
    split
    · exact .refl n slot? m
    · exact removeWhere_spares n _ m
  | clear => exact removeWhere_spares n _ m
  | entries => exact .refl n slot? m
  | sweep => exact removeWhere_spares n _ m

theorem run_spares (n : Namespace) (ops : List (Instant × Operation)) (m : Memory) :
    n.Spares slot? m ((handle n).run ops m) :=
  (handle n).run_related (.refl n slot?) .trans (fun x _ m => after_spares n x.1 m x.2) m

theorem readsAlike_of_slots {n : Namespace} {m m' : Memory} (t : Instant)
    (h : ∀ k, m'.slot? (n.physical k) = m.slot? (n.physical k)) :
    (backend n).ReadsAlike t m m' := by
  have hget : ∀ k, m'.get n t k = m.get n t k := by
    intro k
    rw [get, get, show m'.slots.find? (n.physical k) = m.slots.find? (n.physical k) from h k]
  have hentries : m'.entries n t = m.entries n t := by
    apply Ascending.eq_of_mem_iff (entries_ascending n t m') (entries_ascending n t m)
    rintro ⟨k, e⟩
    rw [mem_entries, mem_entries, hget]
  exact Backend.readsAlike_of_entries (fun k => congrArg Except.ok (hget k))
    (congrArg Except.ok hentries)

end Memory

namespace KeyValue
variable {client : Client σ} {item? : Instant → String → σ → α} {now t : Instant} {c : Scope}

theorem Client.IsLocal.map {β : Type} (hlocal : client.IsLocal item?) (f : α → β) :
    client.IsLocal fun t name s => f (item? t name s) where
  get key s name hle := congrArg f (hlocal.get key s name hle)
  set key value ttl s name hle hname := congrArg f (hlocal.set key value ttl s name hle hname)
  del keys s name hle hname := congrArg f (hlocal.del keys s name hle hname)
  scan cursor pattern count s name hle := congrArg f (hlocal.scan cursor pattern count s name hle)

theorem Client.IsLocal.follows (hlocal : client.IsLocal item?) (hle : now ≤ t) (name : String) :
    client.Follows now fun s s' => item? t name s' = item? t name s where
  refl _ := rfl
  trans h h' := h'.trans h
  get key s := hlocal.get key s name hle
  scan cursor pattern count s := hlocal.scan cursor pattern count s name hle

theorem Scope.after_spares (hlocal : client.IsLocal item?) (hle : now ≤ t) (s : σ)
    (op : Operation) : c.space.Spares (item? t) s ((c.handle client).after now s op) := by
  intro name hname
  apply after_follows (hlocal.follows hle name)
  · intro keys s hkeys
    apply hlocal.del keys s name hle
    intro hmem
    rw [hkeys name hmem] at hname
    cases hname
  · intro k e ttl _
    exact hlocal.set _ _ ttl s name hle (Namespace.ne_physical hname k)

theorem Scope.run_spares (c : Scope) (hlocal : client.IsLocal item?)
    {ops : List (Instant × Operation)} (hops : ∀ x ∈ ops, x.1 ≤ t) (s : σ) :
    c.space.Spares (item? t) s ((c.handle client).run ops s) :=
  (c.handle client).run_related (.refl c.space (item? t)) .trans
    (fun x hx s => after_spares hlocal (hops x hx) s x.2) s

/-- Reads of a store that keeps its word depend on the items of the namespace only. -/
theorem Scope.readsAlike_of_values {v : View σ} (hc : Contract client v) {s s' : σ} (hs : v.ready s)
    (hs' : v.ready s')
    (h : ∀ k, v.value? t (c.space.physical k) s' = v.value? t (c.space.physical k) s) :
    (c.backend client).ReadsAlike t s s' := by
  apply Backend.readsAlike_of_entries
  · intro k
    show (c.get client t k s').1 = (c.get client t k s).1
    rw [get_answer hc t k hs, get_answer hc t k hs', h]
  · obtain ⟨found, _, hentries, -, hascending, hmem⟩ := c.entries_shows t hc hs
    obtain ⟨found', _, hentries', -, hascending', hmem'⟩ := c.entries_shows t hc hs'
    show (c.entries client t s').1 = (c.entries client t s).1
    rw [hentries, hentries']
    apply congrArg Except.ok
    apply Ascending.eq_of_mem_iff hascending' hascending
    rintro ⟨k, e⟩
    rw [hmem, hmem', h]

end KeyValue

theorem KeyValue.Server.client_isLocal_value : client.IsLocal view.value? :=
  client_isLocal.map (Option.map (·.value))

namespace Memcached.Server

/-- Reads of a server that fails no call find the items whose time is not up. -/
def view : KeyValue.View Server where
  ready s := s.faults = {}
  value? t key s := (s.item? t key).map (·.value)

theorem client_reads : client.Reads view := by
  intro s t key hs
  show (ItemStore.get t key s).1 = _
  rw [ItemStore.get, ItemStore.call_of_faultless t _ hs]
  rfl

theorem client_isLocal_value : client.IsLocal view.value? where
  get key s name hle := congrArg (Option.map _) (client_isLocal.get key s name hle)
  set key value expiry s name hle hname :=
    congrArg (Option.map _) (client_isLocal.set key value expiry s name hle hname)
  delete key s name hle hname :=
    congrArg (Option.map _) (client_isLocal.delete key s name hle hname)

end Memcached.Server

/-- Operations through a handle, also failing ones, leave all foreign items as they were. A handle
of a namespace apart from it reads the same before and after, as far as its own connection can reach
the store both times: the key-value store may answer the one handle's scans with any keys, and fail
any of its calls. -/
theorem Namespace.isolated (a : Namespace) {ops : List (Instant × Operation)} {t : Instant}
    (hops : ∀ x ∈ ops, x.1 ≤ t) :
    (∀ m : Memory,
      let m' := (Memory.handle a).run ops m
      a.Spares Memory.slot? m m' ∧
        ∀ b later, a.Apart b → (Memory.backend b).ReadsAlike later m m') ∧
    (∀ {σ : Type} (batch : Nat) (client : KeyValue.Client σ) (s : σ),
      let s' := (KeyValue.Scope.handle { space := a, batch } client).run ops s
      (∀ {α : Type} {item? : Instant → String → σ → α}, client.IsLocal item? →
        a.Spares (item? t) s s') ∧
      ∀ {v : KeyValue.View σ} {other : KeyValue.Client σ} (c : KeyValue.Scope),
        client.IsLocal v.value? →
        KeyValue.Contract other v → v.ready s → v.ready s' → a.Apart c.space →
        (c.backend other).ReadsAlike t s s') ∧
    (∀ {σ : Type} (client : Memcached.Client σ) (s : σ) {index : Memcached.Written},
      Memcached.Indexed client a index →
      let s' := ((Memcached.handle client a).run ops ⟨s, index⟩).store
      (∀ {α : Type} {item? : Instant → String → σ → α}, client.IsLocal item? →
        a.Spares (item? t) s s') ∧
      ∀ {v : KeyValue.View σ} {other : Memcached.Client σ} (b : Namespace)
        (own : Memcached.Written),
        client.IsLocal v.value? → other.Reads v → v.ready s → v.ready s' → a.Apart b →
        (Memcached.backend other b).ReadsAlike t ⟨s, own⟩ ⟨s', own⟩) := by
  refine ⟨?_, ?_, ?_⟩
  · intro m
    refine ⟨Memory.run_spares a ops m, ?_⟩
    intro b later hapart
    apply Memory.readsAlike_of_slots later
    intro k
    exact Memory.run_spares a ops m _ (hapart.owns_eq_false (owns_physical b k))
  · intro σ batch client s
    refine ⟨fun hlocal => KeyValue.Scope.run_spares { space := a, batch } hlocal hops s, ?_⟩
    intro v other c hlocal hc hs hs' hapart
    apply KeyValue.Scope.readsAlike_of_values hc hs hs'
    intro k
    exact KeyValue.Scope.run_spares { space := a, batch } hlocal hops s _
      (hapart.owns_eq_false (owns_physical c.space k))
  · intro σ client s index hindex
    -- Clearing reaches foreign items only through the index, which has none of their keys.
    have hwithin : (⟨s, index⟩ : Memcached.State σ).written.IsWithin a := hindex.within
    refine ⟨fun hlocal => Memcached.run_spares hlocal hops hwithin, ?_⟩
    intro v other b own hlocal hc hs hs' hapart
    apply Memcached.readsAlike_of_values own hc hs hs'
    intro k
    exact Memcached.run_spares hlocal hops hwithin _
      (hapart.owns_eq_false (Memcached.owns_wireKey b k))

/-- One tenant removes all it can, from a key-value store whose scans name foreign keys, and name
all of them twice. -/
theorem Namespace.isolated_from_clearing :
    let a : Namespace := ⟨"a:"⟩
    let b : Namespace := ⟨"b:"⟩
    let ops : List (Instant × Operation) :=
      [(.epoch, .entries), (.epoch, .deletePattern "*"), (.epoch, .clear)]
    let e : Entry :=
      { etag := "", content := [], status := .ok, headers := {}, storedAt := .epoch,
        expiresAt := none, policy := {} }
    let m := (({} : Memory).set a .epoch ⟨"k"⟩ e none).set b .epoch ⟨"k"⟩ e none
    let s : KeyValue.Server := {
      base := ItemStore.place "a:k" [] (.place "b:k" [] {})
      listing := { loose := true, twice := true, page := some 1 } }
    let stored := (Memcached.handle Memcached.Server.client a).after .epoch ⟨.place "b:k" [] {}, {}⟩
      (.set ⟨"k"⟩ e none)
    let m' := (Memory.handle a).run ops m
    let s' := (KeyValue.Scope.handle { space := a, batch := 1 } KeyValue.Server.client).run ops s
    let stored' := (Memcached.handle Memcached.Server.client a).run ops stored
    (m'.slots.keys = ["b:k"] ∧ (Memory.backend b).ReadsAlike .epoch m m') ∧
      (s'.base.items.keys = ["b:k"] ∧
        (KeyValue.Scope.backend { space := b } KeyValue.Server.client).ReadsAlike .epoch s s') ∧
      (stored.store.items.keys = ["a:k", "b:k"] ∧ stored'.store.items.keys = ["b:k"] ∧
        (Memcached.backend Memcached.Server.client b).ReadsAlike .epoch
          ⟨stored.store, {}⟩ ⟨stored'.store, {}⟩) := by
  intro a b ops e m s stored m' s' stored'
  have hops : ∀ x ∈ ops, x.1 ≤ .epoch := by decide
  have hapart : a.Apart b := by decide
  obtain ⟨hmemory, hkeyValue, hmemcached⟩ := Namespace.isolated a hops
  have hindex : Memcached.Indexed Memcached.Server.client a stored.written := .after _ _ _ .fresh
  have hready : stored.store.faults = {} := by decide +kernel
  have hready' : stored'.store.faults = {} := by decide +kernel
  refine ⟨⟨?_, (hmemory m).2 b .epoch hapart⟩, ⟨?_, ?_⟩, ?_, ?_, ?_⟩
  · decide +kernel
  · decide +kernel
  · exact (hkeyValue 1 _ s).2 { space := b } KeyValue.Server.client_isLocal_value
      KeyValue.Server.contract
      ⟨rfl, rfl, by decide⟩ ⟨by decide +kernel, by decide +kernel, by decide +kernel⟩ hapart
  · decide +kernel
  · decide +kernel
  · exact (hmemcached _ stored.store hindex).2 b {} Memcached.Server.client_isLocal_value
      Memcached.Server.client_reads hready hready' hapart

end ResponseCache
