import ResponseCache.Entry
import ResponseCache.Key
import ResponseCache.StoreError

/-!
# Backends

What the cache asks of a store with states `σ`. Each operation is told the time, answers or fails,
and leaves a new state either way.
-/
namespace ResponseCache

abbrev Action (σ α : Type) := σ → Except StoreError α × σ

structure Backend (σ : Type) where
  name : String
  get : Instant → Key → Action σ (Option Entry)
  /-- The store drops the entry after the given time; without one it stays until removed. -/
  set : Instant → Key → Entry → Option Duration → Action σ Unit
  /-- Whether there was an entry. -/
  delete : Instant → Key → Action σ Bool
  /-- Removes the keys with a given path, whatever their method, host and query. -/
  deletePath : Instant → String → Action σ Nat
  deletePattern : Instant → String → Action σ Nat
  /-- Removes every key of the namespace. -/
  clear : Instant → Action σ Nat
  /-- The live entries of the namespace by ascending key. -/
  entries : Instant → Action σ (List (Key × Entry))

end ResponseCache
