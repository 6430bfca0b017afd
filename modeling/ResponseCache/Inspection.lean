import ResponseCache.Backend
import ResponseCache.Json.Printer
import ResponseCache.Ascending

/-!
# Inspection reports

A report lists what a store holds at a time and ranks the paths with the most entries.
-/
namespace ResponseCache.Inspection

structure Hit where
  key : Key
  parts : Key.Parts
  etag : String
  status : Status
  isExpired : Bool
  ttlRemaining : Option Duration
deriving DecidableEq

structure Report where
  hits : List Hit
  validHits : Nat
  expiredHits : Nat
  uniqueRoutes : Nat
  /-- Paths with the most hits first. -/
  topRoutes : List String
deriving DecidableEq

def Hit.ofEntry (now : Instant) (k : Key) (e : Entry) : Hit where
  key := k
  parts := k.parts
  etag := e.etag
  status := e.status
  isExpired := !e.isFresh now
  ttlRemaining := e.ttlRemaining now

/-- The number of times that each path occurs, by ascending path. -/
def countPaths (paths : List String) : List (String × Nat) :=
  (Ascending.ofList paths).map fun p => (p, paths.count p)

/-- Puts a counted path in front of the first with no larger count. -/
def rankOne (c : String × Nat) : List (String × Nat) → List (String × Nat)
  | [] => [c]
  | d :: ds => if d.2 ≤ c.2 then c :: d :: ds else d :: rankOne c ds

/-- Larger counts first; equal ones keep their order. -/
def rank (cs : List (String × Nat)) : List (String × Nat) := cs.foldr rankOne []

def topSize : Nat := 10

def Report.ofHits (hits : List Hit) : Report :=
  let counts := countPaths (hits.map (·.parts.path))
  let expired := hits.countP (·.isExpired)
  { hits
    expiredHits := expired
    validHits := hits.length - expired
    uniqueRoutes := counts.length
    topRoutes := ((rank counts).take topSize).map (·.1) }

def collect {σ : Type} (b : Backend σ) (now : Instant) : Action σ Report := fun s =>
  match b.entries now s with
  | (.error e, s) => (.error e, s)
  | (.ok es, s) => (.ok (.ofHits (es.map fun (k, e) => .ofEntry now k e)), s)

def Hit.document (h : Hit) : Json String :=
  .object [
    ("cache_key", .text h.key.text),
    ("method", .text h.parts.method),
    ("host", .text h.parts.host),
    ("path", .text h.parts.path),
    ("query_params", .text h.parts.query),
    ("etag", .text h.etag),
    ("status", .nat h.status.code),
    ("is_expired", .bool h.isExpired),
    ("ttl_remaining", .option (fun d => .double (.ofDuration d)) h.ttlRemaining)]

def Report.document (r : Report) : Json String :=
  .object [
    ("cached_hits", .array (r.hits.map Hit.document)),
    ("total_hits", .nat r.hits.length),
    ("valid_hits", .nat r.validHits),
    ("expired_hits", .nat r.expiredHits),
    ("unique_routes", .nat r.uniqueRoutes),
    ("summary", .object [
      ("total_cached_entries", .nat r.hits.length),
      ("active_entries", .nat r.validHits),
      ("expired_entries", .nat r.expiredHits),
      ("frequently_cached_routes", .array (r.topRoutes.map .text))])]

def Report.text (r : Report) : String := String.ofList (r.document.indented 0)

end ResponseCache.Inspection
