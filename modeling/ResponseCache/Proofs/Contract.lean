import ResponseCache.Proofs.Wildcards

/-!
# Stores that keep their word

What the cache relies on in a key-value store: while it is reachable its calls succeed, reads find
what was written until its time is up or it is removed, and a scan names every key that matches and
can be read. Under this contract removals and listings reach exactly the keys that they are about.
-/
namespace ResponseCache.KeyValue

variable {σ : Type}

/-- A scan from a cursor to its end, with the keys of all its pages and the state that the last one
leaves. -/
inductive Pages (client : Client σ) (now : Instant) (pattern : String) (count : Nat) :
    Nat → σ → List String → σ → Prop
  | last {cursor : Nat} {s s' : σ} {keys : List String} :
      client.scan now cursor pattern count s = (.ok (0, keys), s') →
      Pages client now pattern count cursor s keys s'
  | more {cursor next : Nat} {s s' s'' : σ} {keys rest : List String} :
      client.scan now cursor pattern count s = (.ok (next, keys), s') → next ≠ 0 →
      Pages client now pattern count next s' rest s'' →
      Pages client now pattern count cursor s (keys ++ rest) s''

structure View (σ : Type) where
  /-- The store can be reached. -/
  ready : σ → Prop
  /-- What a read of a key finds at a time, if no call comes before it. -/
  value? : Instant → String → σ → Option Bytes

structure View.Leaves (v : View σ) (now : Instant) (s : σ)
    (values : Instant → String → Option Bytes) : Prop where
  ready : v.ready s
  value? : ∀ later, now ≤ later → ∀ key, v.value? later key s = values later key

/-- What calls to a store that can be reached do. -/
structure Contract (client : Client σ) (v : View σ) : Prop where
  /-- What cannot be read does not come back by itself. -/
  gone : ∀ {now later key s}, v.ready s → now ≤ later → v.value? now key s = none →
    v.value? later key s = none
  get : ∀ {s} now key, v.ready s → ∃ s', client.get now key s = (.ok (v.value? now key s), s') ∧
    v.Leaves now s' fun later k => v.value? later k s
  /-- An item can be read until its lifetime, counted from the write, is over. -/
  set : ∀ {s} now key value ttl, v.ready s → ∃ s', client.set now key value ttl s = (.ok (), s') ∧
    v.Leaves now s' fun later k =>
      if k = key then (if later.isBefore (ttl.bind now.add?) then some value else none)
      else v.value? later k s
  del : ∀ {s} now keys, v.ready s → ∃ n s', client.del now keys s = (.ok n, s') ∧
    v.Leaves now s' fun later k => if k ∈ keys then none else v.value? later k s
  page : ∀ {s} now cursor pattern count, v.ready s →
    ∃ next keys s', client.scan now cursor pattern count s = (.ok (next, keys), s') ∧
      v.Leaves now s' fun later k => v.value? later k s
  /-- A key that matches and can be read is named. -/
  scan : ∀ {now pattern count s keys s' key}, v.ready s → 0 < count →
    Pages client now pattern count 0 s keys s' →
    v.value? now key s ≠ none → Wildcard.isMatch pattern key = true → key ∈ keys

namespace View.Leaves
variable {v : View σ} {now : Instant} {s s' : σ} {values : Instant → String → Option Bytes}

theorem refl (hs : v.ready s) : v.Leaves now s fun later k => v.value? later k s :=
  ⟨hs, fun _ _ _ => rfl⟩

/-- A call that changes no value leaves what the state before it left. -/
theorem trans (h : v.Leaves now s values) (h' : v.Leaves now s' fun later k => v.value? later k s) :
    v.Leaves now s' values := by
  refine ⟨h'.ready, ?_⟩
  intro later hlater key
  rw [h'.value? later hlater key, h.value? later hlater key]

end View.Leaves

variable {client : Client σ} {v : View σ} {now : Instant} {s : σ}

/-- A store also keeps the contract on the states of a kind, if no call leads away from them. -/
theorem Contract.restrict (hc : Contract client v) {kind : σ → Prop}
    (hget : ∀ now key s, kind s → kind (client.get now key s).2)
    (hset : ∀ now key value ttl s, kind s → kind (client.set now key value ttl s).2)
    (hdel : ∀ now keys s, kind s → kind (client.del now keys s).2)
    (hscan : ∀ now cursor pattern count s, kind s →
      kind (client.scan now cursor pattern count s).2) :
    Contract client { v with ready := fun s => v.ready s ∧ kind s } where
  gone hs := hc.gone hs.1
  get now key hs := by
    obtain ⟨s', h, hleaves⟩ := hc.get now key hs.1
    have hkind := hget now key _ hs.2
    rw [h] at hkind
    exact ⟨s', h, ⟨hleaves.ready, hkind⟩, hleaves.value?⟩
  set now key value ttl hs := by
    obtain ⟨s', h, hleaves⟩ := hc.set now key value ttl hs.1
    have hkind := hset now key value ttl _ hs.2
    rw [h] at hkind
    exact ⟨s', h, ⟨hleaves.ready, hkind⟩, hleaves.value?⟩
  del now keys hs := by
    obtain ⟨n, s', h, hleaves⟩ := hc.del now keys hs.1
    have hkind := hdel now keys _ hs.2
    rw [h] at hkind
    exact ⟨n, s', h, ⟨hleaves.ready, hkind⟩, hleaves.value?⟩
  page now cursor pattern count hs := by
    obtain ⟨next, keys, s', h, hleaves⟩ := hc.page now cursor pattern count hs.1
    have hkind := hscan now cursor pattern count _ hs.2
    rw [h] at hkind
    exact ⟨next, keys, s', h, ⟨hleaves.ready, hkind⟩, hleaves.value?⟩
  scan hs := hc.scan hs.1

/-- A scan that comes to its end went through pages, and found what is to be kept of their keys. -/
theorem pages_of_scanFrom {pattern : String} {count : Nat} {keep : String → Bool}
    {fuel cursor : Nat} {found names : List String} {s' : σ}
    {hfuel : client.pagesLeft now pattern count cursor s < fuel}
    (h : scanFrom client now pattern count keep fuel cursor found s hfuel = (.ok names, s')) :
    ∃ keys, Pages client now pattern count cursor s keys s' ∧
      ∀ x, x ∈ names ↔ x ∈ keys ∧ keep x = true ∨ x ∈ found := by
  induction fuel generalizing cursor found s with
  | zero => exact absurd hfuel (Nat.not_lt_zero _)
  | succ fuel ih =>
    rw [scanFrom] at h
    split at h
    · cases h
    · rename_i next keys t hpage
      split at h
      · rename_i hlast
        subst hlast
        cases h
        refine ⟨keys, .last hpage, ?_⟩
        intro x
        rw [List.mem_append, List.mem_filter]
      · rename_i hnext
        obtain ⟨rest, hrest, hnames⟩ := ih h
        refine ⟨keys ++ rest, .more hpage hnext hrest, ?_⟩
        intro x
        rw [hnames, List.mem_append, List.mem_append, List.mem_filter, or_and_right, or_assoc,
          or_left_comm]

theorem scanFrom_answers (hc : Contract client v) {pattern : String} {count : Nat}
    (keep : String → Bool) {fuel cursor : Nat} (found : List String) (hs : v.ready s)
    (hfuel : client.pagesLeft now pattern count cursor s < fuel) :
    ∃ names s', scanFrom client now pattern count keep fuel cursor found s hfuel = (.ok names, s') ∧
      v.Leaves now s' fun later k => v.value? later k s := by
  induction fuel generalizing cursor found s with
  | zero => exact absurd hfuel (Nat.not_lt_zero _)
  | succ fuel ih =>
    obtain ⟨next, keys, s', hpage, hleaves⟩ := hc.page now cursor pattern count hs
    rw [scanFrom]
    split
    · rename_i herror
      rw [hpage] at herror
      cases herror
    · rename_i next' keys' t hpage'
      obtain ⟨⟨rfl, rfl⟩, rfl⟩ : (next = next' ∧ keys = keys') ∧ s' = t := by
        simpa [hpage] using hpage'
      split
      · exact ⟨_, s', rfl, hleaves⟩
      · obtain ⟨names, s'', hscan, hrest⟩ := ih (keys.filter keep ++ found) hleaves.ready _
        exact ⟨names, s'', hscan, hleaves.trans hrest⟩

variable (now)

theorem Scope.batchSize_pos (c : Scope) : 0 < c.batchSize := Nat.le_max_right ..

variable {now} in
theorem Scope.pages_of_scanKeys {c : Scope} {pattern : String} {keep : Key → Bool}
    {names : List String} {s' : σ} (h : c.scanKeys client now pattern keep s = (.ok names, s')) :
    ∃ keys, Pages client now pattern c.batchSize 0 s keys s' ∧ names.Pairwise (· < ·) ∧
      ∀ x, x ∈ names ↔ x ∈ keys ∧ (c.space.logical? x).any keep = true := by
  rw [scanKeys] at h
  split at h
  · cases h
  · rename_i found t hscan
    cases h
    obtain ⟨keys, hpages, hfound⟩ := pages_of_scanFrom hscan
    refine ⟨keys, hpages, Ascending.pairwise_ofList found, ?_⟩
    intro x
    rw [Ascending.mem_ofList, hfound, or_iff_left List.not_mem_nil]

theorem Scope.scanKeys_pages (c : Scope) (hc : Contract client v) (pattern : String)
    (keep : Key → Bool) (hs : v.ready s) :
    ∃ keys names s', Pages client now pattern c.batchSize 0 s keys s' ∧
      v.Leaves now s' (fun later k => v.value? later k s) ∧
      c.scanKeys client now pattern keep s = (.ok names, s') ∧ names.Pairwise (· < ·) ∧
      ∀ x, x ∈ names ↔ x ∈ keys ∧ (c.space.logical? x).any keep = true := by
  have hfuel := Nat.lt_succ_self (client.pagesLeft now pattern c.batchSize 0 s)
  obtain ⟨found, s', hscan, hleaves⟩ :=
    scanFrom_answers hc (fun physical => (c.space.logical? physical).any keep) [] hs hfuel
  have hkeys : c.scanKeys client now pattern keep s = (.ok (Ascending.ofList found), s') := by
    rw [scanKeys, hscan]
  obtain ⟨keys, hpages, hascending, hnames⟩ := pages_of_scanKeys hkeys
  exact ⟨keys, _, s', hpages, hleaves, hkeys, hascending, hnames⟩

/-- What a scan for the keys of a namespace is to find. -/
structure Scope.Finds (c : Scope) (v : View σ) (now : Instant) (pattern : String)
    (keep : Key → Bool) (s : σ) (names : List String) : Prop where
  ascending : names.Pairwise (· < ·)
  kept : ∀ x ∈ names, ∃ k, x = c.space.physical k ∧ keep k = true
  complete : ∀ k, keep k = true → v.value? now (c.space.physical k) s ≠ none →
    Wildcard.isMatch pattern (c.space.physical k) = true → c.space.physical k ∈ names

theorem Scope.scanKeys_finds (c : Scope) (hc : Contract client v) (pattern : String)
    (keep : Key → Bool) (hs : v.ready s) :
    ∃ names s', c.scanKeys client now pattern keep s = (.ok names, s') ∧
      v.Leaves now s' (fun later k => v.value? later k s) ∧ c.Finds v now pattern keep s names := by
  obtain ⟨keys, names, s', hpages, hleaves, hscan, hascending, hnames⟩ :=
    c.scanKeys_pages now hc pattern keep hs
  refine ⟨names, s', hscan, hleaves, hascending, ?_, ?_⟩
  · intro x hx
    obtain ⟨k, hk, hkeep⟩ := (Option.any_eq_true _ _).mp ((hnames x).mp hx).2
    exact ⟨k, Namespace.logical?_eq_some_iff.mp hk, hkeep⟩
  · intro k hkeep hlive hmatch
    refine (hnames _).mpr ⟨hc.scan hs c.batchSize_pos hpages hlive hmatch, ?_⟩
    rw [Namespace.logical?_physical]
    exact hkeep

theorem cut_flatten {size : Nat} (hsize : 0 < size) {fuel : Nat} {keys : List String}
    (h : keys.length ≤ fuel) : (cut size fuel keys).flatten = keys := by
  induction fuel generalizing keys with
  | zero => rw [List.length_eq_zero_iff.mp (Nat.le_zero.mp h), cut, List.flatten_nil]
  | succ fuel ih =>
    rw [cut]
    split
    · rename_i hempty
      rw [List.isEmpty_iff.mp hempty, List.flatten_nil]
    · have hrest : (keys.drop size).length ≤ fuel := by
        rw [List.length_drop]
        omega
      rw [List.flatten_cons, ih hrest, List.take_append_drop]

theorem removeBatches_leaves (hc : Contract client v) (removed : Nat) (batches : List (List String))
    (hs : v.ready s) :
    ∃ n s', removeBatches client now removed batches s = (.ok n, s') ∧
      v.Leaves now s' fun later k => if k ∈ batches.flatten then none else v.value? later k s := by
  induction batches generalizing removed s with
  | nil =>
    refine ⟨removed, s, rfl, ?_⟩
    simpa using View.Leaves.refl hs
  | cons batch batches ih =>
    obtain ⟨n, s', hdel, hleaves⟩ := hc.del now batch hs
    obtain ⟨total, s'', hdone, hrest⟩ := ih (removed + n) hleaves.ready
    rw [removeBatches, hdel]
    refine ⟨total, s'', hdone, hrest.ready, ?_⟩
    intro later hlater key
    rw [hrest.value? later hlater key, hleaves.value? later hlater key, List.flatten_cons]
    by_cases hkey : key ∈ batch
    · simp [hkey]
    · simp [hkey]

/-- A removal takes away what can be read and is among the names that it takes from the pages. -/
theorem Scope.removeMatching_takes (c : Scope) (hc : Contract client v) {pattern : String}
    {keep : Key → Bool} {doomed : String → Prop} [DecidablePred doomed] (hs : v.ready s)
    (hdoomed : ∀ {keys s'}, Pages client now pattern c.batchSize 0 s keys s' →
      ∀ x, v.value? now x s ≠ none → (x ∈ keys ∧ (c.space.logical? x).any keep = true ↔ doomed x)) :
    ∃ n s', c.removeMatching client now pattern keep s = (.ok n, s') ∧
      v.Leaves now s' fun later physical =>
        if doomed physical then none else v.value? later physical s := by
  obtain ⟨keys, names, s', hpages, hleaves, hscan, -, hnames⟩ :=
    c.scanKeys_pages now hc pattern keep hs
  obtain ⟨n, s'', hdone, hrest⟩ :=
    removeBatches_leaves now hc 0 (cut c.batchSize names.length names) hleaves.ready
  rw [removeMatching, hscan]
  refine ⟨n, s'', hdone, hrest.ready, ?_⟩
  intro later hlater physical
  rw [hrest.value? later hlater, hleaves.value? later hlater,
    cut_flatten c.batchSize_pos (Nat.le_refl _)]
  by_cases hlive : v.value? now physical s = none
  · simp [hc.gone hs hlater hlive]
  · simp only [hnames, hdoomed hpages physical hlive]

/-- A removal takes away the keys of the namespace that it is to take, if its pattern matches those
that can be read, and no others. -/
theorem Scope.removeMatching_leaves (c : Scope) (hc : Contract client v) {pattern : String}
    {keep : Key → Bool} (hs : v.ready s)
    (hpattern : ∀ k, keep k = true → v.value? now (c.space.physical k) s ≠ none →
      Wildcard.isMatch pattern (c.space.physical k) = true) :
    ∃ n s', c.removeMatching client now pattern keep s = (.ok n, s') ∧
      v.Leaves now s' fun later physical =>
        if (c.space.logical? physical).any keep then none else v.value? later physical s := by
  apply c.removeMatching_takes now hc hs
  intro keys s' hpages physical hlive
  refine ⟨And.right, fun hdoomed => ⟨?_, hdoomed⟩⟩
  obtain ⟨k, hk, hkeep⟩ := (Option.any_eq_true _ _).mp hdoomed
  obtain rfl := Namespace.logical?_eq_some_iff.mp hk
  exact hc.scan hs c.batchSize_pos hpages hlive (hpattern k hkeep hlive)

def Scope.shown? (c : Scope) (v : View σ) (now : Instant) (s : σ) (physical : String) :
    Option (Key × Entry) :=
  match c.space.logical? physical, entryOf (v.value? now physical s) with
  | some k, .ok (some e) => some (k, e)
  | _, _ => none

variable {now} in
theorem Scope.shown?_eq_some_iff {c : Scope} {physical : String} {k : Key} {e : Entry} :
    c.shown? v now s physical = some (k, e) ↔
      physical = c.space.physical k ∧ entryOf (v.value? now physical s) = .ok (some e) := by
  rw [shown?, ← Namespace.logical?_eq_some_iff]
  split
  · rename_i k' e' hk he
    simp [hk, he]
  · rename_i hnot
    constructor
    · intro h
      cases h
    · rintro ⟨hk, he⟩
      exact absurd he (hnot k e hk)

variable {now} in
theorem Scope.shown?_eq_of_leaves {c : Scope} {s' : σ}
    (h : v.Leaves now s' fun later k => v.value? later k s) :
    c.shown? v now s' = c.shown? v now s := by
  funext physical
  rw [shown?, shown?, h.value? now (Int.le_refl _)]

theorem Scope.readAll_shows (c : Scope) (hc : Contract client v) (names : List String)
    (hs : v.ready s) :
    ∃ s', c.readAll client now names s = (.ok (names.filterMap (c.shown? v now s)), s') ∧
      v.Leaves now s' fun later k => v.value? later k s := by
  induction names generalizing s with
  | nil => exact ⟨s, rfl, View.Leaves.refl hs⟩
  | cons physical names ih =>
    obtain ⟨s', hget, hleaves⟩ := hc.get now physical hs
    obtain ⟨s'', hread, hrest⟩ := ih hleaves.ready
    rw [shown?_eq_of_leaves hleaves] at hread
    rw [readAll, hget]
    simp only [hread]
    split
    · rename_i k e hk he
      have hhead : c.shown? v now s physical = some (k, e) :=
        shown?_eq_some_iff.mpr ⟨Namespace.logical?_eq_some_iff.mp hk, he⟩
      exact ⟨s'', by rw [List.filterMap_cons_some hhead], hleaves.trans hrest⟩
    · rename_i hnot
      have hhead : c.shown? v now s physical = none := by
        apply Option.eq_none_iff_forall_ne_some.mpr
        rintro ⟨k, e⟩ h
        obtain ⟨hk, he⟩ := shown?_eq_some_iff.mp h
        exact hnot k e (Namespace.logical?_eq_some_iff.mpr hk) he
      exact ⟨s'', by rw [List.filterMap_cons_none hhead], hleaves.trans hrest⟩

/-- A listing holds the entries that can be read, each once, in the order of their names in the
store. -/
theorem Scope.entries_shows (c : Scope) (hc : Contract client v) (hs : v.ready s) :
    ∃ found s', c.entries client now s = (.ok found, s') ∧
      v.Leaves now s' (fun later k => v.value? later k s) ∧
      found.Pairwise (fun a b => c.space.physical a.1 < c.space.physical b.1) ∧
      ∀ k e, (k, e) ∈ found ↔ entryOf (v.value? now (c.space.physical k) s) = .ok (some e) := by
  obtain ⟨names, s', hscan, hleaves, hfinds⟩ :=
    c.scanKeys_finds now hc (c.storePattern "*") (fun _ => true) hs
  obtain ⟨s'', hread, hrest⟩ := c.readAll_shows now hc names hleaves.ready
  rw [shown?_eq_of_leaves hleaves] at hread
  rw [entries, hscan]
  refine ⟨names.filterMap (c.shown? v now s), s'', hread, hleaves.trans hrest, ?_, ?_⟩
  · apply hfinds.ascending.filterMap
    rintro x y hxy ⟨k, e⟩ hx ⟨k', e'⟩ hy
    rw [← (shown?_eq_some_iff.mp hx).1, ← (shown?_eq_some_iff.mp hy).1]
    exact hxy
  · intro k e
    rw [List.mem_filterMap]
    constructor
    · rintro ⟨physical, -, h⟩
      obtain ⟨rfl, he⟩ := shown?_eq_some_iff.mp h
      exact he
    · intro he
      refine ⟨c.space.physical k, ?_, shown?_eq_some_iff.mpr ⟨rfl, he⟩⟩
      apply hfinds.complete k rfl
      · intro hnone
        rw [hnone] at he
        cases he
      · exact Wildcard.isMatch_storePattern_star c k

end ResponseCache.KeyValue
