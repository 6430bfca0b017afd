import ResponseCache.ItemStore
import ResponseCache.Recorded

/-!
# Stores without a way to list keys

What a memcached-like store offers, and a server that keeps to its rule for expiry.
-/
namespace ResponseCache.Memcached

structure Client (σ : Type) where
  get : Instant → String → Action σ (Option Bytes)
  /-- The number says when the item expires; zero is never. -/
  set : Instant → String → Bytes → Nat → Action σ Unit
  delete : Instant → String → Action σ Bool

inductive Call
  | get (key : String)
  | set (key : String) (expiry : Nat)
  | delete (key : String)
deriving DecidableEq

/-- Keeps a record of every call, failed ones included. -/
def Client.recorded {σ : Type} (c : Client σ) : Client (Recorded Call σ) where
  get now key := Recorded.note (.get key) (c.get now key)
  set now key value expiry := Recorded.note (.set key expiry) (c.set now key value expiry)
  delete now key := Recorded.note (.delete key) (c.delete now key)

/-- Thirty days in seconds. Expiries up to here count from now, longer ones from the epoch. -/
def relativeLimit : Nat := 60 * 60 * 24 * 30

/-- When a server drops an item. -/
def dropTime (now : Instant) (expiry : Nat) : Option Instant :=
  if expiry = 0 then none
  else if expiry ≤ relativeLimit then now.add? (.ofSeconds expiry)
  else Instant.epoch.add? (.ofSeconds expiry)

abbrev Server := ItemStore Nat

def Server.client : Client Server where
  get := ItemStore.get
  set now key value expiry :=
    ItemStore.put now key { value, dropAt := dropTime now expiry, expiry := some expiry }
  delete now key s := match ItemStore.remove now [key] s with
    | (.error e, s) => (.error e, s)
    | (.ok n, s) => (.ok (0 < n), s)

end ResponseCache.Memcached
