import ResponseCache.Message.Response
import ResponseCache.Policy.Basic
import ResponseCache.Time.Instant

/-! # Stored responses -/
namespace ResponseCache

structure Entry where
  etag : String
  content : Bytes
  status : Status
  headers : Headers
  storedAt : Instant
  /-- The end of freshness; absent means fresh until removed. -/
  expiresAt : Option Instant
  /-- What the response was stored under. -/
  policy : Policy
deriving DecidableEq

namespace Entry

def isFresh (e : Entry) (now : Instant) : Bool := now.isBefore e.expiresAt

/-- Zero when the clock went back. -/
def age (e : Entry) (now : Instant) : Duration := now.since e.storedAt

/-- Freshness left, zero once it is over. -/
def ttlRemaining (e : Entry) (now : Instant) : Option Duration := e.expiresAt.map (·.since now)

/-- Before the end of a window that starts where freshness ends. A window past the end of time never
closes. -/
def withinGrace (e : Entry) (window : Option Duration) (now : Instant) : Bool :=
  match e.expiresAt, window with
  | some expiresAt, some window => now.isBefore (expiresAt.add? window)
  | _, _ => false

end Entry
end ResponseCache
