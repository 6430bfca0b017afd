import ResponseCache.KeyMap
import ResponseCache.Time.Instant

/-!
# The index of written keys

A store that lists no keys can only be cleared by who remembers them. The index has the keys that
were written and the time at which each expires. Once it has grown to its threshold, a write drops
the expired keys, and the threshold becomes twice of what is left.
-/
namespace ResponseCache.Memcached

/-- Below this size nothing is dropped. -/
def pruneFloor : Nat := 64

structure Written where
  deadlines : KeyMap (Option Instant) := .empty
  pruneAt : Nat := pruneFloor

namespace Written

instance : Inhabited Written := ⟨{}⟩

def size (w : Written) : Nat := w.deadlines.size

def prune (w : Written) (now : Instant) : Written :=
  { w with deadlines := w.deadlines.filter fun _ deadline => now.isBefore deadline }

def insert (w : Written) (key : String) (deadline : Option Instant) (now : Instant) : Written :=
  let w := { w with deadlines := w.deadlines.insert key deadline }
  if w.size < w.pruneAt then w
  else
    let w := w.prune now
    { w with pruneAt := max (w.size * 2) pruneFloor }

def erase (w : Written) (key : String) : Written := { w with deadlines := w.deadlines.erase key }

/-- Takes back keys with their deadlines; the threshold stays. -/
def restore (w : Written) (keys : List (String × Option Instant)) : Written :=
  { w with deadlines := keys.foldl (fun m e => m.insert e.1 e.2) w.deadlines }

end Written
end ResponseCache.Memcached
