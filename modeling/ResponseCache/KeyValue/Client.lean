import ResponseCache.Recorded

/-!
# Key-value stores with cursors

What a networked store with native expiry and incremental scans offers. A scan starts at cursor zero
and is over when it is given cursor zero back; the client vouches that it gets there by a count of
the pages that are left.
-/
namespace ResponseCache.KeyValue

structure Client (σ : Type) where
  get : Instant → String → Action σ (Option Bytes)
  set : Instant → String → Bytes → Option Duration → Action σ Unit
  /-- Removes keys and counts those that were there. -/
  del : Instant → List String → Action σ Nat
  /-- One page: the next cursor and the keys found. -/
  scan : Instant → Nat → String → Nat → Action σ (Nat × List String)
  /-- A bound on the pages that a scan for a pattern and a page size still takes from a cursor
  on. -/
  pagesLeft : Instant → String → Nat → Nat → σ → Nat
  pagesLeft_lt : ∀ {now cursor pattern count s next keys s'},
    scan now cursor pattern count s = (.ok (next, keys), s') → next ≠ 0 →
      pagesLeft now pattern count next s' < pagesLeft now pattern count cursor s

inductive Call
  | get (key : String)
  | set (key : String) (ttl : Option Duration)
  | del (keys : List String)
  | scan (cursor : Nat) (pattern : String) (count : Nat)
deriving DecidableEq

/-- Keeps a record of every call, failed ones included. -/
def Client.recorded {σ : Type} (c : Client σ) : Client (Recorded Call σ) where
  get now key := Recorded.note (.get key) (c.get now key)
  set now key value ttl := Recorded.note (.set key ttl) (c.set now key value ttl)
  del now keys := Recorded.note (.del keys) (c.del now keys)
  scan now cursor pattern count :=
    Recorded.note (.scan cursor pattern count) (c.scan now cursor pattern count)
  pagesLeft now pattern count cursor r := c.pagesLeft now pattern count cursor r.store
  pagesLeft_lt := by
    intro now cursor pattern count s next keys s' h hn
    simp only [Recorded.note, Prod.mk.injEq] at h
    obtain ⟨h1, rfl⟩ := h
    exact c.pagesLeft_lt (Prod.ext h1 rfl) hn

end ResponseCache.KeyValue
