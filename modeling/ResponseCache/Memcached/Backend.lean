import ResponseCache.Memcached.Client
import ResponseCache.Memcached.Written
import ResponseCache.Namespace
import ResponseCache.Record
import ResponseCache.Digest.Sha256

/-!
# Caching in a store without key listing

Keys that the protocol refuses are replaced by a digest. Removal by path or pattern and listing are
not to be had; clearing removes what this handle wrote and has not expired.
-/
namespace ResponseCache.Memcached

structure State (σ : Type) where
  store : σ
  written : Written := {}

def maxKeyLength : Nat := 250

/-- Short enough, and no control byte or space in it. -/
def isValidKey (key : String) : Bool :=
  let bs := Utf8.encode key.toList
  bs.length ≤ maxKeyLength && bs.all fun b => 0x20 < b.toNat && b.toNat != 0x7f

/-- The key as it is sent. -/
def wireKey (n : Namespace) (k : Key) : String :=
  if isValidKey (n.physical k) then n.physical k
  else n.lead ++ String.ofList (Hex.ofBytes (Sha256.digest (Utf8.encode k.text.toList)))

/-- A fraction of a second counts as a whole one, so that a short time does not become never. Long
times are sent as Unix time, and what exceeds 32 bits as the largest number. -/
def expiry (now : Instant) : Option Duration → Nat
  | none => 0
  | some ttl =>
    let secs := if ttl.secondsUp ≤ relativeLimit then ttl.secondsUp
      else (now.since .epoch).seconds + ttl.secondsUp
    min secs (2 ^ 32 - 1)

variable {σ : Type}

def get (client : Client σ) (n : Namespace) (now : Instant) (k : Key) :
    Action (State σ) (Option Entry) := fun s =>
  match client.get now (wireKey n k) s.store with
  | (.error e, store) => (.error e, { s with store })
  | (.ok none, store) => (.ok none, { s with store })
  | (.ok (some record), store) => ((Record.decode record).map some, { s with store })

/-- Only a write that succeeded enters the index. -/
def set (client : Client σ) (n : Namespace) (now : Instant) (k : Key) (e : Entry)
    (ttl : Option Duration) : Action (State σ) Unit := fun s =>
  match client.set now (wireKey n k) (Record.encode e) (expiry now ttl) s.store with
  | (.error e, store) => (.error e, { s with store })
  | (.ok (), store) => (.ok (), ⟨store, s.written.insert (wireKey n k) (ttl.bind now.add?) now⟩)

def delete (client : Client σ) (n : Namespace) (now : Instant) (k : Key) :
    Action (State σ) Bool := fun s =>
  match client.delete now (wireKey n k) s.store with
  | (.error e, store) => (.error e, { s with store })
  | (.ok existed, store) => (.ok existed, ⟨store, s.written.erase (wireKey n k)⟩)

/-- Deletes keys in turn. A failure puts the key it struck and those after it back into the
index. -/
def deleteAll (client : Client σ) (now : Instant) (removed : Nat) :
    List (String × Option Instant) → Action (State σ) Nat
  | [], s => (.ok removed, s)
  | e :: es, s => match client.delete now e.1 s.store with
    | (.error fault, store) => (.error fault, ⟨store, s.written.restore (e :: es)⟩)
    | (.ok existed, store) =>
      deleteAll client now (if existed then removed + 1 else removed) es { s with store }

def clear (client : Client σ) (now : Instant) : Action (State σ) Nat := fun s =>
  let pruned := s.written.prune now
  deleteAll client now 0 pruned.deadlines.entries
    { s with written := { pruned with deadlines := .empty } }

def name : String := "memcache"

def backend (client : Client σ) (n : Namespace) : Backend (State σ) where
  name := name
  get := get client n
  set := set client n
  delete := delete client n
  deletePath _ _ s := (.error (.unsupported name "delete_path"), s)
  deletePattern _ _ s := (.error (.unsupported name "delete_pattern"), s)
  clear := clear client
  entries _ s := (.error (.unsupported name "entries"), s)

end ResponseCache.Memcached
