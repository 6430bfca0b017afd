import ResponseCache.Proofs.PathRemovals

/-!
# Keys that spell a path in their own way

A key need not be a derived one: any text is a key, and its path is what it decodes to. The removal
of a path from memory goes by that path. A key-value store is asked only for the keys that spell the
path as derived keys do, so it keeps those that come to the same path by other escapes, and keys
without parts, whose path is empty.
-/
namespace ResponseCache

/-- Whether a key spells a path is what a scan for the path decides. -/
instance (k : Key) (path : String) : Decidable (k.Spells path) :=
  decidable_of_iff
    (Wildcard.isMatch (KeyValue.Scope.storePattern {} (KeyValue.pathPattern path))
      (Namespace.default.physical k) = true) Wildcard.isMatch_storePattern_path_iff

namespace KeyValue

variable {σ : Type} {client : Client σ} {v : View σ} {now : Instant} {s : σ}

def Client.ScansMatching (client : Client σ) (now : Instant) (s : σ) : Prop :=
  ∀ {pattern count keys s'}, Pages client now pattern count 0 s keys s' →
    ∀ name ∈ keys, Wildcard.isMatch pattern name = true

theorem Scope.removeMatching_matching (c : Scope) (hc : Contract client v)
    (hscans : client.ScansMatching now s) (pattern : String) (keep : Key → Bool) (hs : v.ready s) :
    ∃ n s', c.removeMatching client now pattern keep s = (.ok n, s') ∧
      v.Leaves now s' fun later name =>
      if (c.space.logical? name).any keep = true ∧ Wildcard.isMatch pattern name = true then none
      else v.value? later name s := by
  apply c.removeMatching_takes now hc hs
  intro keys s' hpages name hlive
  constructor
  · rintro ⟨hname, hkeep⟩
    exact ⟨hkeep, hscans hpages name hname⟩
  · rintro ⟨hkeep, hmatch⟩
    exact ⟨hc.scan hs c.batchSize_pos hpages hlive hmatch, hkeep⟩

/-- From a memory and a key-value store that scans with exact wildcards, the removal of a path takes
away what has the path. Memory loses all of it, whatever its keys look like; the key-value store
loses what spells the path and keeps the rest. So the two agree on a key that they both hold if and
only if the key does not have the path, or spells it. -/
theorem Scope.deletePath_spelled (c : Scope) (hc : Contract client v) (m : Memory) (hs : v.ready s)
    (hscans : client.ScansMatching now s) (path : String) :
    ∃ n m' n' s', (Memory.backend c.space).deletePath now path m = (.ok n, m') ∧
      (c.backend client).deletePath now path s = (.ok n', s') ∧ v.ready s' ∧
      ∀ later, now ≤ later → ∀ k,
        (m'.get c.space later k = if k.parts.path = path then none else m.get c.space later k) ∧
        (v.value? later (c.space.physical k) s' =
          if k.parts.path = path ∧ k.Spells path then none
          else v.value? later (c.space.physical k) s) ∧
        (m.get c.space later k ≠ none → v.value? later (c.space.physical k) s ≠ none →
          ((m'.get c.space later k = none ↔ v.value? later (c.space.physical k) s' = none) ↔
            (k.parts.path = path → k.Spells path))) := by
  obtain ⟨n', s', hdone, hleaves⟩ :=
    c.removeMatching_matching hc hscans (c.storePattern (pathPattern path))
      (fun k => k.parts.path == path) hs
  refine ⟨(m.deletePath c.space path).1, (m.deletePath c.space path).2, n', s', rfl, hdone,
    hleaves.ready, ?_⟩
  intro later hlater k
  have hmemory := m.get_deletePath c.space path later k
  have hstore := hleaves.value? later hlater (c.space.physical k)
  simp only [Namespace.logical?_physical, Option.any_some, beq_iff_eq,
    Wildcard.isMatch_storePattern_path_iff] at hstore
  refine ⟨hmemory, hstore, ?_⟩
  intro hheld hheld'
  rw [hmemory, hstore]
  by_cases hpath : k.parts.path = path
  · by_cases hspells : k.Spells path
    · simp [hpath, hspells]
    · simp [hpath, hspells, hheld']
  · simp [hpath, hheld, hheld']

end KeyValue

namespace KeyValue.Server

theorem scan_matching {now : Instant} {cursor count next : Nat} {pattern : String}
    {keys : List String} {s s' : Server} (hs : s.listing.loose = false)
    (hscan : scan now cursor pattern count s = (.ok (next, keys), s')) :
    s'.listing = s.listing ∧ ∀ name ∈ keys, Wildcard.isMatch pattern name = true := by
  simp only [scan, onBase] at hscan
  obtain ⟨faults, ⟨e, hcall⟩ | hcall⟩ := ItemStore.call_cases now (fun b =>
    (Except.ok (nextCursor cursor (s.listing.page.getD count) b.items.size,
      pageKeys s.listing pattern ((b.items.keys.drop cursor).take (s.listing.page.getD count))), b))
        s.base
  · rw [hcall] at hscan
    cases hscan
  · rw [hcall] at hscan
    cases hscan
    refine ⟨rfl, ?_⟩
    intro name hname
    simpa [hs] using (mem_pageKeys_iff.mp hname).2

/-- A server that is not told to name other keys names those that match. -/
theorem client_scansMatching (now : Instant) {s : Server} (hs : s.listing.loose = false) :
    client.ScansMatching now s := by
  intro pattern count keys s' hpages
  generalize 0 = cursor at hpages
  induction hpages with
  | last hscan => exact (scan_matching hs hscan).2
  | more hscan _ _ ih =>
    obtain ⟨hlisting, hkeys⟩ := scan_matching hs hscan
    intro name hname
    rcases List.mem_append.mp hname with hname | hname
    · exact hkeys name hname
    · exact ih (by rw [hlisting, hs]) name hname

end KeyValue.Server

def Backend.fill {σ : Type} (b : Backend σ) (now : Instant) (e : Entry) (keys : List Key) (s : σ) :
    σ :=
  keys.foldl (fun s k => (b.set now k e none s).2) s

/-- A derived key and four of another make. Three of the five have the path `/a/é`, but only the
derived one spells it; the last has it between triple bars, but its path is empty. -/
theorem KeyValue.Scope.deletePath_spelled_variants :
    let e : Entry :=
      { etag := "", content := [], status := .ok, headers := {}, storedAt := .epoch,
        expiresAt := none, policy := {} }
    let keys : List Key :=
      [.derive .get "localhost" "/a/é" [], ⟨"GET|||localhost|||/a%2F%C3%A9|||"⟩,
        ⟨"GET|||localhost|||/a/é|||"⟩, ⟨"custom:/a/é"⟩, ⟨"|||||||||/a/%C3%A9|||"⟩]
    let server : KeyValue.Server := { listing := { page := some 1 } }
    let m := (Memory.backend .default).fill .epoch e keys {}
    let c : KeyValue.Scope := { batch := 0 }
    let s := (c.backend KeyValue.Server.client).fill .epoch e keys server
    ∃ n m' n' s', (Memory.backend .default).deletePath .epoch "/a/é" m = (.ok n, m') ∧
      (c.backend KeyValue.Server.client).deletePath .epoch "/a/é" s = (.ok n', s') ∧
      n = 3 ∧ n' = 1 ∧
      m'.slots.keys = ["cachex:custom:/a/é", "cachex:|||||||||/a/%C3%A9|||"] ∧
      s'.base.items.keys =
        ["cachex:GET|||localhost|||/a%2F%C3%A9|||", "cachex:GET|||localhost|||/a/é|||",
          "cachex:custom:/a/é", "cachex:|||||||||/a/%C3%A9|||"] := by
  intro e keys server m c s
  have hready : KeyValue.Server.view.ready s :=
    ⟨by decide +kernel, by decide +kernel, by decide +kernel⟩
  have hscans : KeyValue.Server.client.ScansMatching .epoch s :=
    KeyValue.Server.client_scansMatching .epoch (by decide +kernel)
  obtain ⟨n, m', n', s', hmemory, hstore, -, -⟩ :=
    c.deletePath_spelled KeyValue.Server.contract m hready hscans "/a/é"
  refine ⟨n, m', n', s', hmemory, hstore, ?_⟩
  have hresult : (some n, m'.slots.keys) =
      (some 3, ["cachex:custom:/a/é", "cachex:|||||||||/a/%C3%A9|||"]) := by
    apply (congrArg (fun z => (z.1.toOption, z.2.slots.keys)) hmemory).symm.trans
    decide +kernel
  have hresult' : (some n', s'.base.items.keys) =
      (some 1, ["cachex:GET|||localhost|||/a%2F%C3%A9|||", "cachex:GET|||localhost|||/a/é|||",
        "cachex:custom:/a/é", "cachex:|||||||||/a/%C3%A9|||"]) := by
    apply (congrArg (fun z => (z.1.toOption, z.2.base.items.keys)) hstore).symm.trans
    decide +kernel
  obtain ⟨⟨rfl⟩, hkeys⟩ := Prod.mk.inj hresult
  obtain ⟨⟨rfl⟩, hkeys'⟩ := Prod.mk.inj hresult'
  exact ⟨rfl, rfl, hkeys, hkeys'⟩

/-- The removal of a path takes a key with an escaped slash from memory and leaves it in a key-value
store. -/
theorem KeyValue.Scope.deletePath_misses_spelling :
    let e : Entry :=
      { etag := "", content := [], status := .ok, headers := {}, storedAt := .epoch,
        expiresAt := none, policy := {} }
    let k : Key := ⟨"GET|||localhost|||/a%2Fb|||"⟩
    let b := Memory.backend .default
    let b' := KeyValue.Scope.backend {} KeyValue.Server.client
    let x := b.deletePath .epoch "/a/b" (b.fill .epoch e [k] {})
    let y := b'.deletePath .epoch "/a/b" (b'.fill .epoch e [k] {})
    k.parts.path = "/a/b" ∧ x.1.toOption = some 1 ∧ (b.get .epoch k x.2).1.toOption = some none ∧
      y.1.toOption = some 0 ∧ (b'.get .epoch k y.2).1.toOption = some (some e) := by
  decide +kernel

end ResponseCache
