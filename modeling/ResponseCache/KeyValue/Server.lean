import ResponseCache.KeyValue.Client
import ResponseCache.Pattern.Wildcard
import ResponseCache.ItemStore

/-!
# A key-value server

A store that keeps to the rules of its kind: items vanish when their time is up, patterns are
wildcards, and scans go through the keys in order. What a scan may do besides is adjustable: the
size of its pages, naming keys twice, naming keys that do not match.
-/
namespace ResponseCache.KeyValue

structure Listing where
  /-- Keys that scans name but reads do not find. -/
  hidden : List String := []
  loose : Bool := false
  twice : Bool := false
  page : Option Nat := none

structure Server where
  base : ItemStore Duration := {}
  listing : Listing := {}

namespace Server

instance : Inhabited Server := ⟨{}⟩

def onBase {α : Type} (act : Action (ItemStore Duration) α) : Action Server α := fun s =>
  let (answer, base) := act s.base
  (answer, { s with base })

def get (now : Instant) (key : String) : Action Server (Option Bytes) := fun s =>
  onBase (ItemStore.call now fun b =>
    (.ok (if s.listing.hidden.contains key then none else (b.items.find? key).map (·.value)), b)) s

def set (now : Instant) (key : String) (value : Bytes) (ttl : Option Duration) :
    Action Server Unit :=
  onBase (ItemStore.put now key { value, dropAt := ttl.bind now.add?, expiry := ttl })

def del (now : Instant) (keys : List String) : Action Server Nat :=
  onBase (ItemStore.remove now keys)

/-- A page of no keys ends a scan. -/
def nextCursor (cursor page size : Nat) : Nat :=
  if page = 0 ∨ size ≤ cursor + page then 0 else cursor + page

def pageKeys (l : Listing) (pattern : String) (keys : List String) : List String :=
  let kept := keys.filter fun k => l.loose || Wildcard.isMatch pattern k
  if l.twice then kept.flatMap fun k => [k, k] else kept

def scan (now : Instant) (cursor : Nat) (pattern : String) (count : Nat) :
    Action Server (Nat × List String) := fun s =>
  onBase (ItemStore.call now fun b =>
    let page := s.listing.page.getD count
    (.ok (nextCursor cursor page b.items.size,
      pageKeys s.listing pattern ((b.items.keys.drop cursor).take page)), b)) s

theorem scan_pages {now : Instant} {cursor : Nat} {pattern : String} {count : Nat} {s s' : Server}
    {next : Nat} {keys : List String} (h : scan now cursor pattern count s = (.ok (next, keys), s'))
    (hn : next ≠ 0) :
    (s'.base.expire now).items.size - next < (s.base.expire now).items.size - cursor := by
  simp only [scan, onBase, ItemStore.call, ItemStore.expire_faults] at h
  rcases hf : s.base.faults.fate with ⟨_ | _, f⟩
  · simp [hf] at h
  · simp only [hf, Prod.mk.injEq, Except.ok.injEq] at h
    obtain ⟨⟨h1, -⟩, rfl⟩ := h
    have e : ({ s.base.expire now with faults := f } : ItemStore Duration).expire now =
        { s.base.expire now with faults := f } := by
      have := ItemStore.expire_expire now s.base
      simp only [ItemStore.expire] at this ⊢
      simpa using this
    simp only [e]
    unfold nextCursor at h1
    split at h1
    · exact absurd h1.symm hn
    · subst h1; omega

def client : Client Server where
  get := get
  set := set
  del := del
  scan := scan
  pagesLeft now _ _ cursor s := (s.base.expire now).items.size - cursor
  pagesLeft_lt := scan_pages

end Server
end ResponseCache.KeyValue
