import ResponseCache.Proofs.Freshness
import ResponseCache.Proofs.Holdings
import ResponseCache.Proofs.Session

/-!
# Lookups that fail

A store takes part in an answer by the entry that the lookup finds, and in no other way. A lookup
that fails finds nothing, and whether the response can be written back is never seen by the client.
-/
namespace ResponseCache

variable {σ τ ε : Type}

namespace Engine

/-- What a lookup finds for a request. One that fails finds nothing. -/
def lookup (e : Engine σ) (r : Request) (w : World σ) : Option Entry :=
  (e.backend.get w.now (e.keyOf r) w.store).1.toOption.join

def decisionOn (e : Engine σ) (r : Request) (route : Declaration) (now : Instant)
    (found : Option Entry) : Decision :=
  if !e.methods.contains r.method then { outcome := .bypass .method, key := e.keyOf r }
  else if route.bypassesLookup then { outcome := .bypass .declared, key := e.keyOf r }
  else e.decisionFor r now found

theorem decide_eq (e : Engine σ) (r : Request) (route : Declaration) (w : World σ) :
    (e.decide r route w).1 = e.decisionOn r route w.now (e.lookup r w) := by
  rw [decide, decisionOn, lookup]
  split
  · rfl
  · split
    · rfl
    · rcases e.backend.get w.now (e.keyOf r) w.store with ⟨_ | _ | _, store⟩
      · rfl
      · rfl
      · rfl

theorem decisionOn_congr {e : Engine σ} {e' : Engine τ} (hkey : e'.keyOf = e.keyOf)
    (hmethods : e'.methods = e.methods) (r : Request) (route : Declaration) (now : Instant)
    (found : Option Entry) : e'.decisionOn r route now found = e.decisionOn r route now found := by
  rw [decisionOn, decisionOn, hkey, hmethods]
  cases found with
  | none => rw [decisionFor, decisionFor, hkey]
  | some entry => rw [decisionFor, decisionFor, hkey]

/-- What a client gets for a request: by the decision and the time at which it was made, and where
that leaves it to the handler, by what the handler came to and when. -/
def exchange (d : Decision) (r : Request) (route : Declaration) (now : Instant)
    (outcome : Except ε Response) (finished : Instant) : Exchange ε :=
  match d.cachedResponse now, outcome with
  | some response, _ => ⟨.ok response, false⟩
  | none, .error failure => ⟨recover d failure finished, true⟩
  | none, .ok response => ⟨.ok (deliver r (response.stamp route)), true⟩

/-- Whether the response can be written back does not count. -/
theorem execute_exchange (e : Engine σ) (r : Request) (route : Declaration) (handler : Handler σ ε)
    (w : World σ) :
    let u := (e.decide r route w).2
    (e.execute r route handler w).1 =
      exchange (e.decide r route w).1 r route w.now (handler u).1 (handler u).2.now := by
  intro u
  have hnow : u.now = w.now := congrArg Clock.now (e.decide_clock r route w)
  unfold exchange
  rw [← hnow]
  rcases e.execute_cases r route handler w
    with ⟨response, hc, h⟩ | ⟨hc, ⟨failure, ho, h⟩ | ⟨response, ho, h⟩⟩
  · rw [h, hc]
  · rw [h, hc, ho]
  · rw [h, hc, ho]

/-- Only a handler that ran and failed is answered by a failure, and that is its own. -/
theorem exchange_of_error {d : Decision} {r : Request} {route : Declaration}
    {now finished : Instant} {outcome : Except ε Response} {failure : ε}
    (h : (exchange d r route now outcome finished).answer = .error failure) :
    (exchange d r route now outcome finished).handlerRan = true ∧ outcome = .error failure := by
  unfold exchange at *
  split at h
  · cases h
  · rename_i failure' _
    refine ⟨rfl, ?_⟩
    rw [recover] at h
    split at h
    · cases h
    · exact h
  · cases h

end Engine

/-- From two worlds the handlers come to one outcome, and the clocks stand alike when they have.
What they do to the stores is left open. -/
structure Handler.Alike (handler : Handler σ ε) (handler' : Handler τ ε) (u : World σ)
    (u' : World τ) : Prop where
  outcome : (handler' u').1 = (handler u).1
  clock : (handler' u').2.clock = (handler u).2.clock

/-- Handlers that heed the clock only are alike wherever the clocks are when the lookups are
done. -/
theorem Engine.alike_of_clock (e : Engine σ) (e' : Engine τ) {r : Request} {route : Declaration}
    {w : World σ} {w' : World τ} (hclock : w'.clock = w.clock) {handler : Handler σ ε}
    {handler' : Handler τ ε}
    (h : ∀ u u', u'.clock = u.clock → Handler.Alike handler handler' u u') :
    Handler.Alike handler handler' (e.decide r route w).2 (e'.decide r route w').2 := by
  apply h
  rw [decide_clock, decide_clock, hclock]

/-- Over any two stores, also ones whose calls fail, a request is answered alike if its lookups find
the same entry: with the same response or failure, and after as many runs of the handler. A failure
is always one of the handler. -/
theorem Engine.execute_eq_of_lookup (e : Engine σ) (e' : Engine τ) (hkey : e'.keyOf = e.keyOf)
    (hmethods : e'.methods = e.methods) {r : Request} {w : World σ} {w' : World τ}
    (hlookup : e'.lookup r w' = e.lookup r w) (hclock : w'.clock = w.clock) (route : Declaration)
    (handler : Handler σ ε) (handler' : Handler τ ε)
    (hhandler : Handler.Alike handler handler' (e.decide r route w).2 (e'.decide r route w').2) :
    (e'.execute r route handler' w').1 = (e.execute r route handler w).1 ∧
      ∀ failure, (e.execute r route handler w).1.answer = .error failure →
        (e.execute r route handler w).1.handlerRan = true ∧
          (handler (e.decide r route w).2).1 = .error failure := by
  have hnow : w'.now = w.now := congrArg Clock.now hclock
  have hdecision : (e'.decide r route w').1 = (e.decide r route w).1 := by
    rw [decide_eq, decide_eq, hlookup, hnow, decisionOn_congr hkey hmethods]
  have hfinished : (handler' (e'.decide r route w').2).2.now =
      (handler (e.decide r route w).2).2.now :=
    congrArg Clock.now hhandler.clock
  rw [execute_exchange, execute_exchange, hdecision, hnow, hhandler.outcome, hfinished]
  exact ⟨rfl, fun _ => exchange_of_error⟩

/-- Three times the same answer as from a store that works: from one whose record is no entry and
whose writes end the task, from one that cannot be reached while the handler fails, and from one
that has an entry to replace but refuses the write. -/
theorem Engine.execute_eq_of_failing_stores :
    let r : Request := { host := "localhost", path := "/a" }
    let response : Response := { headers := ⟨[("Cache-Control", "max-age=60, stale-if-error=30")]⟩ }
    let works : ∀ σ, Handler σ String :=
      fun _ w => (.ok response, { w with clock := w.clock.advance (.ofSeconds 5) })
    let fails : ∀ σ, Handler σ String :=
      fun _ w => (.error "broken", { w with clock := w.clock.advance (.ofSeconds 5) })
    let e : Engine Memory := { backend := Memory.backend .default }
    let refusing : Engine Memory :=
      { backend := { Memory.backend .default with
        set := fun _ _ _ _ m => (.error .writeAborted, m) } }
    let remote : Engine KeyValue.Server :=
      { backend := KeyValue.Scope.backend {} KeyValue.Server.client }
    let undecodable : World KeyValue.Server :=
      ⟨⟨0⟩, {
        base := .place "cachex:GET|||localhost|||/a|||" [0x7b]
          { faults := { writesAbort := true } } }⟩
    let down : World KeyValue.Server :=
      ⟨⟨0⟩, { base := { faults := { outage := some "connection refused" } } }⟩
    let stored := (e.execute r {} (works Memory) ⟨⟨0⟩, {}⟩).2
    let late : World Memory := { stored with clock := stored.clock.advance (.ofSeconds 70) }
    (remote.execute r {} (works _) undecodable).1 = (e.execute r {} (works _) ⟨⟨0⟩, {}⟩).1 ∧
      (remote.execute r {} (fails _) down).1 = (e.execute r {} (fails _) ⟨⟨0⟩, {}⟩).1 ∧
      (e.lookup r late).isSome = true ∧
      (refusing.execute r {} (works _) late).1 = (e.execute r {} (works _) late).1 := by
  intro r response works fails e refusing remote undecodable down stored late
  have hworks : ∀ {σ τ : Type} (u : World σ) (u' : World τ), u'.clock = u.clock →
      Handler.Alike (works σ) (works τ) u u' :=
    fun _ _ h => ⟨rfl, congrArg (Clock.advance · (.ofSeconds 5)) h⟩
  have hfails : ∀ {σ τ : Type} (u : World σ) (u' : World τ), u'.clock = u.clock →
      Handler.Alike (fails σ) (fails τ) u u' :=
    fun _ _ h => ⟨rfl, congrArg (Clock.advance · (.ofSeconds 5)) h⟩
  have hundecodable : remote.lookup r undecodable = e.lookup r ⟨⟨0⟩, {}⟩ := by decide +kernel
  have hdown : remote.lookup r down = e.lookup r ⟨⟨0⟩, {}⟩ := by decide +kernel
  have hfound : refusing.lookup r late = e.lookup r late := rfl
  refine ⟨?_, ?_, by decide +kernel, ?_⟩
  · exact (execute_eq_of_lookup e remote rfl rfl hundecodable rfl {} _ _
      (e.alike_of_clock remote rfl hworks)).1
  · exact (execute_eq_of_lookup e remote rfl rfl hdown rfl {} _ _
      (e.alike_of_clock remote rfl hfails)).1
  · exact (execute_eq_of_lookup e refusing rfl rfl hfound rfl {} _ _
      (e.alike_of_clock refusing rfl hworks)).1

end ResponseCache
