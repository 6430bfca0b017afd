import ResponseCache.Proofs.Calls
import ResponseCache.Proofs.Server
import ResponseCache.Proofs.Utf8

/-!
# Listings and reads

A listing finds its entries in another way than a read does: it goes through a whole table, or
through the pages of a scan, and takes the namespace off what it finds there. All the same it shows
what reads of single keys would find at that time, and nothing else.
-/
namespace ResponseCache

/-- The entries that reads of their keys find, each once, in the order of the bytes of their
keys. -/
structure Backend.Lists {σ : Type} (b : Backend σ) (now : Instant) (s : σ)
    (found : List (Key × Entry)) : Prop where
  mem_iff : ∀ k e, (k, e) ∈ found ↔ (b.get now k s).1 = .ok (some e)
  ascending : found.Pairwise fun x y => Utf8.encode x.1.text.toList < Utf8.encode y.1.text.toList
  nodup : (found.map (·.1)).Nodup

/-- Names in the store that start with the same namespace are in the order of their keys. -/
theorem Namespace.lt_of_physical_lt {n : Namespace} {k k' : Key}
    (h : n.physical k < n.physical k') : k.text.toList < k'.text.toList := by
  have hnames : n.lead.toList ++ k.text.toList < n.lead.toList ++ k'.text.toList := by
    rw [← String.toList_append, ← String.toList_append]
    exact h
  generalize n.lead.toList = lead at hnames
  induction lead with
  | nil => exact hnames
  | cons c lead ih =>
    rcases List.cons_lt_cons_iff.mp hnames with hlt | ⟨-, hrest⟩
    · exact absurd hlt (Char.lt_irrefl c)
    · exact ih hrest

/-- A listing in the order of the names in the store. -/
theorem Backend.Lists.of_physical {σ : Type} {b : Backend σ} {n : Namespace} {now : Instant} {s : σ}
    {found : List (Key × Entry)} (hmem : ∀ k e, (k, e) ∈ found ↔ (b.get now k s).1 = .ok (some e))
    (hascending : found.Pairwise fun x y => n.physical x.1 < n.physical y.1) :
    b.Lists now s found where
  mem_iff := hmem
  ascending := hascending.imp fun hlt => Utf8.encode_lt (Namespace.lt_of_physical_lt hlt)
  nodup := by
    apply List.pairwise_map.mpr
    exact hascending.imp fun hlt heq => text_ne_of_lt hlt (congrArg n.physical heq)

theorem Memory.entries_lists (n : Namespace) (now : Instant) (m : Memory) :
    (backend n).Lists now m (m.entries n now) := by
  apply Backend.Lists.of_physical _ (entries_ascending n now m)
  intro k e
  simp [backend, mem_entries]

namespace KeyValue
variable {σ : Type} {client : Client σ} {v : View σ} {now : Instant} {s : σ}

theorem Scope.entries_lists (c : Scope) (hc : Contract client v) (hs : v.ready s) :
    ∃ found s', (c.backend client).entries now s = (.ok found, s') ∧ v.ready s' ∧
      (c.backend client).Lists now s found ∧ (c.backend client).Lists now s' found := by
  obtain ⟨found, s', hentries, hleaves, hascending, hmem⟩ := c.entries_shows now hc hs
  have hget : ∀ {t}, v.ready t →
      ∀ k, ((c.backend client).get now k t).1 = entryOf (v.value? now (c.space.physical k) t) :=
    fun ht k => c.get_answer hc now k ht
  refine ⟨found, s', hentries, hleaves.ready, .of_physical ?_ hascending,
    .of_physical ?_ hascending⟩
  · intro k e
    rw [hmem, hget hs]
  · intro k e
    rw [hmem, hget hleaves.ready, hleaves.value? now (Int.le_refl _)]

end KeyValue

/-- In memory, and in a key-value store that can be reached and keeps its word, the listing succeeds
and shows exactly what reads find, before it and after it, whatever the store holds. The scans of
the key-value store may give pages of any size, name keys twice and name keys that do not match, and
its values need not be records. -/
theorem Backend.entries_list_reads (now : Instant) :
    (∀ (n : Namespace) (m : Memory),
      ∃ found m', (Memory.backend n).entries now m = (.ok found, m') ∧
      (Memory.backend n).Lists now m found ∧ (Memory.backend n).Lists now m' found) ∧
    ∀ {σ : Type} (c : KeyValue.Scope) {client : KeyValue.Client σ} {v : KeyValue.View σ} (s : σ),
      KeyValue.Contract client v → v.ready s →
      ∃ found s', (c.backend client).entries now s = (.ok found, s') ∧ v.ready s' ∧
        (c.backend client).Lists now s found ∧ (c.backend client).Lists now s' found := by
  constructor
  · intro n m
    exact ⟨m.entries n now, m, rfl, m.entries_lists n now, m.entries_lists n now⟩
  · intro σ c client v s hc hs
    exact c.entries_lists hc hs

/-- Two entries that last and one that is gone when the listing is made. A shorter namespace writes
two more, one of them under a name that both namespaces own. In the key-value store there is also a
value that is no record, and its scans name one key at a time, twice, and whether it matches or
not. -/
theorem Backend.entries_list_reads_unusual :
    let e : Entry :=
      { etag := "", content := [], status := .ok, headers := {}, storedAt := .epoch,
        expiresAt := none, policy := {} }
    let now : Instant := ⟨2000000000, by decide, by decide⟩
    let n : Namespace := ⟨"a*[b]?"⟩
    let write {σ : Type} (b b' : Backend σ) (s : σ) : σ :=
      let s := (b.set .epoch ⟨"é"⟩ e none s).2
      let s := (b.set .epoch ⟨"z|"⟩ e (some (.ofSeconds 60)) s).2
      let s := (b.set .epoch ⟨"gone"⟩ e (some (.ofSeconds 2)) s).2
      let s := (b'.set .epoch ⟨"b]?c"⟩ e none s).2
      (b'.set .epoch ⟨"x"⟩ e none s).2
    let c : KeyValue.Scope := { space := n, batch := 1 }
    let c' : KeyValue.Scope := { c with space := ⟨"a*["⟩ }
    let m := write (Memory.backend n) (Memory.backend c'.space) {}
    let filled := write (c.backend KeyValue.Server.client) (c'.backend KeyValue.Server.client)
      { listing := { loose := true, twice := true, page := some 1 } }
    let s : KeyValue.Server := { filled with base := filled.base.place "a*[b]?y" [0x7b] }
    (∃ found m', (Memory.backend n).entries now m = (.ok found, m') ∧
      (Memory.backend n).Lists now m found ∧
      found = [(⟨"c"⟩, e), (⟨"z|"⟩, e), (⟨"é"⟩, e)]) ∧
    ∃ found s', (c.backend KeyValue.Server.client).entries now s = (.ok found, s') ∧
      (c.backend KeyValue.Server.client).Lists now s found ∧
      found = [(⟨"c"⟩, e), (⟨"z|"⟩, e), (⟨"é"⟩, e)] := by
  intro e now n write c c' m filled s
  obtain ⟨hmemory, hkeyValue⟩ := entries_list_reads now
  obtain ⟨found, m', hentries, hlists, -⟩ := hmemory n m
  have hready : KeyValue.Server.view.ready s :=
    ⟨by decide +kernel, by decide +kernel, by decide +kernel⟩
  obtain ⟨found', s', hentries', -, hlists', -⟩ := hkeyValue c s KeyValue.Server.contract hready
  refine ⟨⟨found, m', hentries, hlists, ?_⟩, found', s', hentries', hlists', ?_⟩
  · have hfound : some found = some [(⟨"c"⟩, e), (⟨"z|"⟩, e), (⟨"é"⟩, e)] := by
      apply (congrArg (fun z => z.1.toOption) hentries).symm.trans
      decide +kernel
    exact Option.some.inj hfound
  · have hfound : some found' = some [(⟨"c"⟩, e), (⟨"z|"⟩, e), (⟨"é"⟩, e)] := by
      apply (congrArg (fun z => z.1.toOption) hentries').symm.trans
      decide +kernel
    exact Option.some.inj hfound

end ResponseCache
