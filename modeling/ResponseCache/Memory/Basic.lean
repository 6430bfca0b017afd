import ResponseCache.Backend
import ResponseCache.KeyMap
import ResponseCache.Namespace
import ResponseCache.Pattern.Path

/-!
# The store in memory

Entries sit in slots under their physical keys. A slot past its deadline cannot be read but is kept,
and counted by removals, until it is swept or replaced.
-/
namespace ResponseCache

structure Slot where
  entry : Entry
  evictAt : Option Instant
deriving DecidableEq

def Slot.isLive (s : Slot) (now : Instant) : Bool := now.isBefore s.evictAt

structure Memory where
  slots : KeyMap Slot := .empty

namespace Memory

instance : Inhabited Memory := ⟨{}⟩

def get (n : Namespace) (now : Instant) (k : Key) (m : Memory) : Option Entry :=
  ((m.slots.find? (n.physical k)).filter (·.isLive now)).map (·.entry)

/-- A deadline past the end of time is none. -/
def set (n : Namespace) (now : Instant) (k : Key) (e : Entry) (ttl : Option Duration) (m : Memory) :
    Memory :=
  ⟨m.slots.insert (n.physical k) ⟨e, ttl.bind now.add?⟩⟩

theorem find?_set (n : Namespace) (now : Instant) (k : Key) (e : Entry) (ttl : Option Duration)
    (m : Memory) (physical : String) :
    (m.set n now k e ttl).slots.find? physical =
      if physical = n.physical k then some ⟨e, ttl.bind now.add?⟩ else m.slots.find? physical :=
  KeyMap.find?_insert ..

/-- Writing one key leaves every other one readable as before. -/
theorem get_set_of_ne {n : Namespace} {k k' : Key} (h : k' ≠ k) (now later : Instant) (e : Entry)
    (ttl : Option Duration) (m : Memory) :
    (m.set n now k e ttl).get n later k' = m.get n later k' := by
  simp [get, find?_set, Namespace.physical_inj, h]

/-- Drops the slots of a namespace that a test dooms, and counts them. -/
def removeWhere (n : Namespace) (doomed : Key → Slot → Bool) (m : Memory) : Nat × Memory :=
  let kept := m.slots.filter fun physical slot => match n.logical? physical with
    | some k => !doomed k slot
    | none => true
  (m.slots.size - kept.size, ⟨kept⟩)

def delete (n : Namespace) (k : Key) (m : Memory) : Bool × Memory :=
  (m.slots.contains (n.physical k), ⟨m.slots.erase (n.physical k)⟩)

def deletePath (n : Namespace) (path : String) : Memory → Nat × Memory :=
  removeWhere n fun k _ => k.parts.path == path

def deletePattern (n : Namespace) (pattern : String) (m : Memory) :
    Except StoreError Nat × Memory :=
  match PathPattern.read (n.relative pattern) with
  | .error e => (.error (.invalidPattern pattern e.message), m)
  | .ok ts =>
    let (removed, m) := removeWhere n (fun k _ => PathPattern.isMatch ts k.text) m
    (.ok removed, m)

def clear (n : Namespace) : Memory → Nat × Memory := removeWhere n fun _ _ => true

/-- Drops the slots past their deadline. -/
def sweep (n : Namespace) (now : Instant) : Memory → Nat × Memory :=
  removeWhere n fun _ slot => !slot.isLive now

/-- All slots of a namespace, expired ones included. -/
def size (n : Namespace) (m : Memory) : Nat := (m.slots.keys.filter n.owns).length

/-- Physical keys of one namespace stand in the order of their logical keys. -/
def entries (n : Namespace) (now : Instant) (m : Memory) : List (Key × Entry) :=
  m.slots.entries.filterMap fun (physical, slot) =>
    if slot.isLive now then (n.logical? physical).map (·, slot.entry) else none

def backend (n : Namespace) : Backend Memory where
  name := "memory"
  get now k m := (.ok (m.get n now k), m)
  set now k e ttl m := (.ok (), m.set n now k e ttl)
  delete _ k m := let (existed, m) := m.delete n k; (.ok existed, m)
  deletePath _ path m := let (removed, m) := m.deletePath n path; (.ok removed, m)
  deletePattern _ pattern m := m.deletePattern n pattern
  clear _ m := let (removed, m) := m.clear n; (.ok removed, m)
  entries now m := (.ok (m.entries n now), m)

end Memory
end ResponseCache
