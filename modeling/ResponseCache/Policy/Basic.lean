import ResponseCache.Time.Duration
import ResponseCache.Json.Fields

/-! # Cache policies -/
namespace ResponseCache

inductive Visibility | publicly | privately | unspecified
deriving DecidableEq

/-- What a response says about its reuse. Times that it does not limit are absent. -/
structure Policy where
  ttl : Option Duration := none
  visibility : Visibility := .unspecified
  noCache : Bool := false
  noStore : Bool := false
  mustRevalidate : Bool := false
  immutable : Bool := false
  staleWhileRevalidate : Option Duration := none
  staleIfError : Option Duration := none
deriving DecidableEq

namespace Policy

instance : Inhabited Policy := ⟨{}⟩

/-- The wider of the two stale windows, and none of them under must-revalidate. -/
def staleExtension (p : Policy) : Duration :=
  if p.mustRevalidate then .zero
  else (p.staleWhileRevalidate.getD .zero).max (p.staleIfError.getD .zero)

/-- How long a store has to keep a response; absent means until it is removed. -/
def storageTtl (p : Policy) : Option Duration := p.ttl.map (·.add p.staleExtension)

/-- Even a fresh response goes back to the handler. -/
def requiresRevalidation (p : Policy) : Bool := p.noCache && !p.immutable

end Policy

namespace Visibility

def text : Visibility → String
  | publicly => "public" | privately => "private" | unspecified => "unspecified"

def ofText? (s : String) : Option Visibility :=
  [publicly, privately, unspecified].find? (·.text == s)

/-- A name, or an object with that name and null. -/
def ofDocument? : Json.Document → Option Visibility
  | .text t => t.bind ofText?
  | .object [(name, .null)] => name.bind ofText?
  | _ => none

end Visibility

namespace Duration

def names : List String := ["secs", "nanos"]

def document (d : Duration) : Json String :=
  .object [("secs", .nat d.seconds), ("nanos", .nat d.subseconds)]

/-- Nanoseconds of a second or more carry over. -/
def ofDocument? (j : Json.Document) : Option Duration := do
  let f ← Json.Fields.ofDocument? names true j
  let secs ← f.required "secs" (Json.natBelow? (2 ^ 64))
  let nanos ← f.required "nanos" (Json.natBelow? (2 ^ 32))
  ofNanos? (secs * nanosPerSecond + nanos)

end Duration

namespace Policy

def names : List String :=
  ["ttl", "visibility", "no_cache", "no_store", "must_revalidate", "immutable",
    "stale_while_revalidate", "stale_if_error"]

def document (p : Policy) : Json String :=
  .object [
    ("ttl", .option Duration.document p.ttl),
    ("visibility", .text p.visibility.text),
    ("no_cache", .bool p.noCache),
    ("no_store", .bool p.noStore),
    ("must_revalidate", .bool p.mustRevalidate),
    ("immutable", .bool p.immutable),
    ("stale_while_revalidate", .option Duration.document p.staleWhileRevalidate),
    ("stale_if_error", .option Duration.document p.staleIfError)]

def ofDocument? (j : Json.Document) : Option Policy := do
  let f ← Json.Fields.ofDocument? names false j
  let ttl ← f.optional "ttl" Duration.ofDocument?
  let visibility ← f.required "visibility" Visibility.ofDocument?
  let noCache ← f.required "no_cache" Json.bool?
  let noStore ← f.required "no_store" Json.bool?
  let mustRevalidate ← f.required "must_revalidate" Json.bool?
  let immutable ← f.required "immutable" Json.bool?
  let staleWhileRevalidate ← f.optional "stale_while_revalidate" Duration.ofDocument?
  let staleIfError ← f.optional "stale_if_error" Duration.ofDocument?
  some { ttl, visibility, noCache, noStore, mustRevalidate, immutable, staleWhileRevalidate,
         staleIfError }

end Policy
end ResponseCache
