import ResponseCache.KeyValue.Client
import ResponseCache.Namespace
import ResponseCache.Pattern.Wildcard
import ResponseCache.Record

/-!
# Caching in a key-value store

Entries are records under their physical keys and expire by themselves. Removals and listings first
scan for keys, check that the namespace owns what the scan names, and only then touch items.
-/
namespace ResponseCache.KeyValue

/-- Keys asked for in one page of a scan, and removed by one command. -/
structure Scope where
  space : Namespace := .default
  batch : Nat := 100

/-- A batch has room for one key at least. -/
def Scope.batchSize (c : Scope) : Nat := max c.batch 1

variable {σ : Type}

/-- The names in the store that a pattern over logical keys stands for. -/
def Scope.storePattern (c : Scope) (relative : String) : String :=
  Wildcard.escape c.space.lead ++ relative

/-- Goes through the pages from a cursor on and puts the keys to keep in front of `found`. -/
def scanFrom (client : Client σ) (now : Instant) (pattern : String) (count : Nat)
    (keep : String → Bool) :
    (fuel cursor : Nat) → (found : List String) → (s : σ) →
      client.pagesLeft now pattern count cursor s < fuel → Except StoreError (List String) × σ
  | 0, _, _, _, h => absurd h (Nat.not_lt_zero _)
  | fuel + 1, cursor, found, s, h => match page : client.scan now cursor pattern count s with
    | (.error e, s) => (.error e, s)
    | (.ok (next, keys), s) =>
      if last : next = 0 then (.ok (keys.filter keep ++ found), s)
      else scanFrom client now pattern count keep fuel next (keys.filter keep ++ found) s
        (by have := client.pagesLeft_lt page last; omega)

/-- The distinct keys of the namespace that a scan names and `keep` accepts, in ascending order. -/
def Scope.scanKeys (c : Scope) (client : Client σ) (now : Instant) (pattern : String)
    (keep : Key → Bool) : Action σ (List String) := fun s =>
  match scanFrom client now pattern c.batchSize
    (fun physical => (c.space.logical? physical).any keep)
      (client.pagesLeft now pattern c.batchSize 0 s + 1) 0 [] s (Nat.lt_succ_self _) with
  | (.error e, s) => (.error e, s)
  | (.ok found, s) => (.ok (Ascending.ofList found), s)

/-- Cuts a list into pieces of a given size; the last may be shorter. -/
def cut (size : Nat) : Nat → List String → List (List String)
  | 0, _ => []
  | fuel + 1, keys => if keys.isEmpty then [] else keys.take size :: cut size fuel (keys.drop size)

/-- Removes one batch after another and adds up the counts. -/
def removeBatches (client : Client σ) (now : Instant) (removed : Nat) :
    List (List String) → Action σ Nat
  | [], s => (.ok removed, s)
  | batch :: batches, s => match client.del now batch s with
    | (.error e, s) => (.error e, s)
    | (.ok n, s) => removeBatches client now (removed + n) batches s

def Scope.removeMatching (c : Scope) (client : Client σ) (now : Instant) (pattern : String)
    (keep : Key → Bool) : Action σ Nat := fun s =>
  match c.scanKeys client now pattern keep s with
  | (.error e, s) => (.error e, s)
  | (.ok keys, s) => removeBatches client now 0 (cut c.batchSize keys.length keys) s

/-- The entry of a record, if there is one. -/
def entryOf : Option Bytes → Except StoreError (Option Entry)
  | none => .ok none
  | some record => (Record.decode record).map some

def Scope.get (c : Scope) (client : Client σ) (now : Instant) (k : Key) :
    Action σ (Option Entry) := fun s =>
  match client.get now (c.space.physical k) s with
  | (.error e, s) => (.error e, s)
  | (.ok record, s) => (entryOf record, s)

/-- Reads keys one by one. Keys gone since the scan and records that are no entries are left out. -/
def Scope.readAll (c : Scope) (client : Client σ) (now : Instant) :
    List String → Action σ (List (Key × Entry))
  | [], s => (.ok [], s)
  | physical :: rest, s => match client.get now physical s with
    | (.error e, s) => (.error e, s)
    | (.ok record, s) => match c.readAll client now rest s with
      | (.error e, s) => (.error e, s)
      | (.ok found, s) => match c.space.logical? physical, entryOf record with
        | some k, .ok (some e) => (.ok ((k, e) :: found), s)
        | _, _ => (.ok found, s)

/-- Keys whose path part is written as in a derived key. -/
def pathPattern (path : String) : String :=
  "*|||*|||" ++ Wildcard.escape (String.ofList (Key.encodePart path)) ++ "|||*"

def Scope.entries (c : Scope) (client : Client σ) (now : Instant) :
    Action σ (List (Key × Entry)) := fun s =>
  match c.scanKeys client now (c.storePattern "*") (fun _ => true) s with
  | (.error e, s) => (.error e, s)
  | (.ok keys, s) => c.readAll client now keys s

def Scope.backend (c : Scope) (client : Client σ) : Backend σ where
  name := "kv"
  get := c.get client
  set now k e ttl := client.set now (c.space.physical k) (Record.encode e) ttl
  delete now k s := match client.del now [c.space.physical k] s with
    | (.error e, s) => (.error e, s)
    | (.ok n, s) => (.ok (0 < n), s)
  deletePath now path :=
    c.removeMatching client now (c.storePattern (pathPattern path)) fun k => k.parts.path == path
  deletePattern now pattern :=
    c.removeMatching client now (c.storePattern (c.space.relative pattern)) fun _ => true
  clear now := c.removeMatching client now (c.storePattern "*") fun _ => true
  entries := c.entries client

end ResponseCache.KeyValue
