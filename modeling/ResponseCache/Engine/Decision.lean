import ResponseCache.Backend
import ResponseCache.EntityTag
import ResponseCache.Time.Clock
import ResponseCache.Policy.Declaration

/-!
# Decisions

How a request is answered, judged from the entry found for it: replayed while it may be served,
answered by a bodiless 304 if the client has it already, and otherwise given to the handler.
-/
namespace ResponseCache

/-- Why the store was not asked. -/
inductive BypassReason | method | declared
deriving DecidableEq

inductive Outcome
  | serveCached
  | notModified
  | bypass (reason : BypassReason)
  | miss
deriving DecidableEq

structure Decision where
  outcome : Outcome
  key : Key
  /-- The entry found, also one that may not be served. -/
  cached : Option Entry := none
  /-- Served past its freshness. -/
  stale : Bool := false
deriving DecidableEq

/-- The response of an entry, with its tag and its age in whole seconds. -/
def Entry.replay (e : Entry) (now : Instant) : Response where
  status := e.status
  headers :=
    (e.headers.set "ETag" e.etag).set "Age" (String.ofList (Nat.toDigits 10 (e.age now).seconds))
  body := e.content

/-- A 304 with a tag and the Cache-Control of the full response. -/
def Response.unchanged (tag : String) (source : Headers) : Response where
  status := .notModified
  headers := match source.joined? "cache-control" with
    | some value => ⟨[("ETag", tag), ("Cache-Control", value)]⟩
    | none => ⟨[("ETag", tag)]⟩

namespace Entry

/-- Whether a lookup may be answered. Under no-cache only an immutable entry may, while it is
fresh. -/
def isServable (e : Entry) (now : Instant) : Bool :=
  if e.policy.requiresRevalidation then false
  else if e.policy.noCache then e.isFresh now
  else e.isFresh now ||
    (!e.policy.mustRevalidate && e.withinGrace e.policy.staleWhileRevalidate now)

/-- Whether the entry may stand in for a handler that failed. -/
def coversError (e : Entry) (now : Instant) : Bool :=
  !e.policy.mustRevalidate && e.withinGrace e.policy.staleIfError now

end Entry

namespace Decision

def ofEntry (key : Key) (e : Entry) (ifNoneMatch : Option String) (now : Instant) : Decision where
  outcome :=
    if !e.isServable now then .miss
    else if ifNoneMatch.any (EntityTag.matchesList · e.etag) then .notModified
    else .serveCached
  key
  cached := some e
  stale := e.isServable now && !e.isFresh now

def needsHandler (d : Decision) : Bool :=
  match d.outcome with
  | .miss | .bypass _ => true
  | _ => false

/-- The handler's response goes to the store. -/
def writesBack (d : Decision) : Bool := d.outcome == .miss || d.outcome == .bypass .declared

/-- The answer from the store, if the handler does not have to run. -/
def cachedResponse (d : Decision) (now : Instant) : Option Response :=
  match d.outcome, d.cached with
  | .serveCached, some e => some (e.replay now)
  | .notModified, some e => some (.unchanged e.etag e.headers)
  | _, _ => none

/-- The entry to fall back on when the handler fails. -/
def staleIfError (d : Decision) (now : Instant) : Option Entry :=
  d.cached.filter (·.coversError now)

end Decision
end ResponseCache
