import ResponseCache.Engine.Decision

/-!
# The engine

A request is looked up, answered from the store or by its handler, and the handler's response is
written back. A store that fails counts as one without the entry, and a failed write changes no
answer.
-/
namespace ResponseCache

/-- A clock and the state of a store. -/
structure World (σ : Type) where
  clock : Clock
  store : σ

def World.now {σ : Type} (w : World σ) : Instant := w.clock.now

structure Engine (σ : Type) where
  backend : Backend σ
  keyOf : Request → Key := Key.ofRequest
  methods : List Method := [.get]

/-- Why a response was not written. -/
inductive SkipReason
  | noStore
  | status (s : Status)
  /-- No lifetime and no stale window, so it would never be served. -/
  | expired
deriving DecidableEq

inductive WriteResult
  | stored (ttl : Option Duration)
  | skipped (reason : SkipReason)
  | failed (e : StoreError)
deriving DecidableEq

/-- What a run of the handler does to the world, and its answer. -/
abbrev Handler (σ ε : Type) := World σ → Except ε Response × World σ

structure Exchange (ε : Type) where
  answer : Except ε Response
  handlerRan : Bool

/-- The policy that a response is stored under: the declared one, else its own. -/
def Response.effectivePolicy (r : Response) (hint : Option Declaration) : Policy :=
  match hint.bind Declaration.cacheControl? with
  | some declared => CacheControl.read declared
  | none => CacheControl.ofHeaders r.headers

/-- Whether the client has this response already. -/
def Response.isKnown (r : Response) (ifNoneMatch : Option String) : Bool :=
  match ifNoneMatch, r.headers.get? "etag" with
  | some list, some tag => r.status.isSuccess && EntityTag.matchesList list tag
  | _, _ => false

/-- Gives a successful response its tag and the declared Cache-Control. -/
def Response.stamp (r : Response) (route : Declaration) : Response :=
  if r.status.isSuccess then
    let tagged := r.headers.set "ETag" (EntityTag.ofContent r.body)
    { r with headers := match route.cacheControl? with
        | some value => tagged.set "Cache-Control" value
        | none => tagged }
  else r

/-- The entry of a response stored at a time. An end of freshness past the end of time is none. -/
def Response.entry (r : Response) (policy : Policy) (now : Instant) : Entry where
  etag := (r.headers.get? "etag").getD (EntityTag.ofContent r.body)
  content := r.body
  status := r.status
  headers := r.headers
  storedAt := now
  expiresAt := policy.ttl.bind now.add?
  policy

/-- Why a response is not to be written, in this order. -/
def Response.skipReason? (r : Response) (policy : Policy) : Option SkipReason :=
  if policy.noStore then some .noStore
  else if !r.status.isSuccess then some (.status r.status)
  else if policy.storageTtl = some .zero then some .expired
  else none

namespace Engine
variable {σ ε : Type}

def decide (e : Engine σ) (r : Request) (route : Declaration) (w : World σ) : Decision × World σ :=
  let key := e.keyOf r
  if !e.methods.contains r.method then ({ outcome := .bypass .method, key }, w)
  else if route.bypassesLookup then ({ outcome := .bypass .declared, key }, w)
  else match e.backend.get w.now key w.store with
    | (.ok (some entry), store) => (.ofEntry key entry r.ifNoneMatch? w.now, { w with store })
    | (_, store) => ({ outcome := .miss, key }, { w with store })

def commit (e : Engine σ) (key : Key) (r : Response) (hint : Option Declaration) (w : World σ) :
    WriteResult × World σ :=
  let policy := r.effectivePolicy hint
  match r.skipReason? policy with
  | some reason => (.skipped reason, w)
  | none => match e.backend.set w.now key (r.entry policy w.now) policy.storageTtl w.store with
    | (.ok (), store) => (.stored policy.storageTtl, { w with store })
    | (.error fault, store) => (.failed fault, { w with store })

/-- The answer to a handler's failure: an entry that covers it, else the failure. -/
def recover (d : Decision) (failure : ε) (now : Instant) : Except ε Response :=
  match d.staleIfError now with
  | some entry => .ok (entry.replay now)
  | none => .error failure

/-- The handler's response as it goes to the client. -/
def deliver (r : Request) (response : Response) : Response :=
  if response.isKnown r.ifNoneMatch? then
    .unchanged ((response.headers.get? "etag").getD "") response.headers
  else response

/-- Writes back what the decision lets through. -/
def writeBack (e : Engine σ) (d : Decision) (response : Response) (route : Declaration)
    (w : World σ) : World σ :=
  if d.writesBack then (e.commit d.key response (some route) w).2 else w

/-- The whole cycle. The handler runs at most once, and not when the store can answer. -/
def execute (e : Engine σ) (r : Request) (route : Declaration) (handler : Handler σ ε)
    (w : World σ) : Exchange ε × World σ :=
  let (d, w) := e.decide r route w
  match d.cachedResponse w.now with
  | some response => (⟨.ok response, false⟩, w)
  | none => match handler w with
    | (.error failure, w) => (⟨recover d failure w.now, true⟩, w)
    | (.ok response, w) =>
      let response := response.stamp route
      (⟨.ok (deliver r response), true⟩, e.writeBack d response route w)

end Engine
end ResponseCache
