import ResponseCache.Proofs.Freshness
import ResponseCache.Proofs.Keys
import ResponseCache.Proofs.Writes

/-!
# Where answers come from

An execution over the store in memory that is not answered by its handler is answered from an
earlier execution of the same session, for a request that agrees with the present one.
-/
namespace ResponseCache

def Request.Alike (r r' : Request) : Prop :=
  r.method.text = r'.method.text ∧ r.host = r'.host ∧ r.path = r'.path ∧
    ∀ p, p ∈ r.query ↔ p ∈ r'.query

theorem Request.alike_of_key {r r' : Request} (h : Key.ofRequest r = Key.ofRequest r') :
    r.Alike r' :=
  Key.derive_inj h

namespace Cache
variable {ε : Type}

/-- An execution in a session whose handler returned the response that is stored for a request. -/
structure Origin (n : Namespace) (methods : List Method) (events : List (Event ε))
    (start : World Memory) (r : Request) where
  earlier : List (Event ε)
  request : Request
  route : Declaration
  work : Work ε
  later : List (Event ε)
  response : Response
  split : events = earlier ++ .execute request route work :: later
  alike : request.Alike r
  ran : ((memory n methods).engine.execute request route ((memory n methods).handler work)
    ((memory n methods).run earlier start)).1.handlerRan = true
  returned : work.outcome = .ok response
  success : response.status.isSuccess = true
  /-- The execution wrote the key, and nothing wrote or removed it later. -/
  stored :
    ((memory n methods).written? ((memory n methods).run earlier start)
      (.execute request route work)).isSome
  kept : (memory n methods).Quiet n (Key.ofRequest r) later
    ((memory n methods).run (earlier ++ [.execute request route work]) start)

namespace Origin
variable {n : Namespace} {methods : List Method} {events : List (Event ε)} {start : World Memory}
  {r : Request}

def policy (o : Origin n methods events start r) : Policy :=
  (o.response.stamp o.route).effectivePolicy (some o.route)

/-- The clock's reading when the handler had returned. -/
def storedAt (o : Origin n methods events start r) : Clock :=
  ((memory n methods).pauses o.work.pauses ((memory n methods).run o.earlier start)).clock

def entry (o : Origin n methods events start r) : Entry :=
  (o.response.stamp o.route).entry o.policy o.storedAt.now

end Origin
end Cache

@[simp] theorem Response.stamp_status (response : Response) (route : Declaration) :
    (response.stamp route).status = response.status := by
  rw [stamp]
  split <;> rfl

@[simp] theorem Response.stamp_body (response : Response) (route : Declaration) :
    (response.stamp route).body = response.body := by
  rw [stamp]
  split <;> rfl

/-- What is not written is ruled out by the policy, by the status or by a lifetime of nothing. -/
theorem Response.skipReason?_eq_none {response : Response} {p : Policy}
    (h : response.skipReason? p = none) : p.noStore = false ∧ response.status.isSuccess = true := by
  rw [skipReason?] at h
  split at h
  · cases h
  · rename_i hn
    split at h
    · cases h
    · rename_i hs
      exact ⟨Bool.eq_false_iff.mpr hn, by simpa using hs⟩

namespace Engine
variable {e : Engine Memory} {n : Namespace}

/-- A decision has an entry only if the store has it, and is then made from it. -/
theorem decide_memory_cached (he : e.backend = Memory.backend n) {r : Request} {route : Declaration}
    {w : World Memory} {entry : Entry} (h : (e.decide r route w).1.cached = some entry) :
    w.store.get n w.now (e.keyOf r) = some entry ∧
      (e.decide r route w).1 = .ofEntry (e.keyOf r) entry r.ifNoneMatch? w.now := by
  simp only [decide, he, Memory.backend] at h ⊢
  split at h
  · cases h
  · rename_i hm
    split at h
    · cases h
    · rename_i hb
      rw [if_neg hm, if_neg hb]
      cases hg : w.store.get n w.now (e.keyOf r) with
      | none => simp [hg] at h
      | some found =>
        simp only [hg, Decision.ofEntry, Option.some.injEq] at h
        obtain rfl := h
        exact ⟨rfl, rfl⟩

/-- A failure is covered by a replay of the entry that was found. -/
theorem recover_eq_ok {ε : Type} {d : Decision} {failure : ε} {now : Instant} {answer : Response}
    (h : recover d failure now = .ok answer) :
    ∃ entry, d.cached = some entry ∧ entry.coversError now = true ∧ answer = entry.replay now := by
  rw [recover] at h
  split at h
  · rename_i entry hs
    obtain ⟨hc, hcovers⟩ := Option.filter_eq_some_iff.mp hs
    cases h
    exact ⟨entry, hc, hcovers, rfl⟩
  · cases h

end Engine

namespace Decision

/-- An answer without the handler is a replay, or a 304 for a client that has the entry already. -/
theorem cachedResponse_ofEntry {key : Key} {entry : Entry} {ifNoneMatch : Option String}
    {now : Instant} {response : Response}
    (h : (ofEntry key entry ifNoneMatch now).cachedResponse now = some response) :
    entry.isServable now = true ∧
      (response = entry.replay now ∨
        ifNoneMatch.any (EntityTag.matchesList · entry.etag) = true ∧
          response = .unchanged entry.etag entry.headers) := by
  rw [cachedResponse, ofEntry] at h
  cases hs : entry.isServable now with
  | false => simp [hs] at h
  | true =>
    cases hm : ifNoneMatch.any (EntityTag.matchesList · entry.etag) with
    | false =>
      simp only [hs, hm] at h
      exact ⟨rfl, .inl (Option.some.inj h).symm⟩
    | true =>
      simp only [hs, hm] at h
      exact ⟨rfl, .inr ⟨rfl, (Option.some.inj h).symm⟩⟩

theorem cached_of_cachedResponse {d : Decision} {now : Instant} {response : Response}
    (h : d.cachedResponse now = some response) : ∃ entry, d.cached = some entry := by
  cases hc : d.cached with
  | some entry => exact ⟨entry, rfl⟩
  | none =>
    rw [cachedResponse, hc] at h
    split at h
    · rename_i hsome
      cases hsome
    · rename_i hsome
      cases hsome
    · cases h

end Decision

namespace Cache
variable {ε : Type} {n : Namespace} {methods : List Method} {start : World Memory}
  {before : List (Event ε)}

namespace Origin
variable {r : Request}

theorem inDeltas (o : Origin n methods before start r) : o.policy.InDeltas :=
  Response.effectivePolicy_inDeltas ..

theorem add?_ne_none (o : Origin n methods before start r) :
    ∀ d ∈ o.policy.ttl, o.storedAt.now.add? d ≠ none :=
  fun d hd => o.storedAt.add?_ne_none (o.inDeltas.ttl d hd)

theorem replay_status (o : Origin n methods before start r) (now : Instant) :
    (o.entry.replay now).status = o.response.status := Response.stamp_status ..

theorem replay_body (o : Origin n methods before start r) (now : Instant) :
    (o.entry.replay now).body = o.response.body := Response.stamp_body ..

end Origin

/-- The last write of a key in a session without commits of its own was an execution's. -/
theorem exists_origin_of_lastWrite {r : Request} {u : Write}
    (hcommits : ∀ r response hint, .commit r response hint ∉ before)
    (hkey : u.key = Key.ofRequest r) (h : (memory n methods).LastWrite n before start u) :
    ∃ o : Origin n methods before start r, o.entry = u.entry ∧ o.storedAt = u.clock ∧
      o.policy.noStore = false := by
  obtain ⟨earlier, ev, later, rfl, hu, hquiet⟩ := h
  cases ev with
  | execute request route work =>
    obtain ⟨hc, response, hr, -, hw⟩ := ((memory n methods).written?_execute).mp hu
    obtain ⟨hskip, rfl⟩ := Write.of?_eq_some_iff.mp hw
    obtain ⟨hstore, hsuccess⟩ := Response.skipReason?_eq_none hskip
    rw [Response.stamp_status] at hsuccess
    have hran :=
      ((memory n methods).engine.handlerRan_iff request route ((memory n methods).handler work)
        ((memory n methods).run earlier start)).mpr
    rw [Engine.decide_memory_world (n := n) rfl] at hran
    exact ⟨{ earlier, request, route, work, later, response, split := rfl,
             alike := Request.alike_of_key hkey
             ran := hran hc, returned := hr, success := hsuccess, stored := by rw [hu]; rfl
             kept := hkey ▸ hquiet }, rfl, rfl, hstore⟩
  | commit request response hint => exact absurd (by simp) (hcommits request response hint)
  | _ => cases hu

/-- What a lookup finds was left there by an execution of the session. -/
theorem exists_origin_of_get {r : Request} {entry : Entry} (hstart : start.store = {})
    (hcommits : ∀ r response hint, .commit r response hint ∉ before)
    (horder : (memory n methods).InOrder before start)
    (h : ((memory n methods).run before start).store.get n ((memory n methods).run before start).now
      (Key.ofRequest r) = some entry) :
    ∃ o : Origin n methods before start r, o.entry = entry ∧ o.policy.noStore = false ∧
      o.storedAt.now ≤ ((memory n methods).run before start).now := by
  obtain ⟨s, hs, -, rfl⟩ := Memory.get_eq_some_iff.mp h
  obtain ⟨u, hkey, rfl, htime, hlast⟩ := accounted_run (accounted_empty hstart) horder _ s hs
  obtain ⟨o, hentry, hclock, hstore⟩ := exists_origin_of_lastWrite hcommits hkey hlast
  exact ⟨o, hentry, hstore, hclock ▸ htime⟩

/-- Behind an answer that is no handler's response stands the entry that the lookup found. -/
theorem exists_entry_of_answer {w : World Memory} {r : Request} {route : Declaration}
    {work : Work ε} {answer : Response} {ran : Bool}
    (hanswer : ((memory n methods).step w (.execute r route work)).1 = .exchange ⟨.ok answer, ran⟩)
    (hcached : ran = true → ∃ failure, work.outcome = .error failure) :
    let now := ((memory n methods).next w (.execute r route work)).now
    ∃ entry, w.store.get n w.now (Key.ofRequest r) = some entry ∧
      (if ran then entry.coversError now else entry.isServable now) = true ∧
      (answer = entry.replay now ∨ ran = false ∧
        r.ifNoneMatch?.any (EntityTag.matchesList · entry.etag) = true ∧
        answer = .unchanged entry.etag entry.headers) := by
  have hcases := (memory n methods).engine.execute_cases r route ((memory n methods).handler work) w
  have hd : ((memory n methods).engine.decide r route w).2 = w := Engine.decide_memory_world rfl ..
  have hstep : ((memory n methods).step w (.execute r route work)).1 =
      .exchange ((memory n methods).engine.execute r route ((memory n methods).handler work) w).1 :=
    rfl
  have hnext : (memory n methods).next w (.execute r route work) =
    ((memory n methods).engine.execute r route ((memory n methods).handler work) w).2 := rfl
  rw [hd] at hcases
  rw [hstep] at hanswer
  rw [hnext]
  rcases hcases with ⟨response, hc, h⟩ | ⟨-, ⟨failure, -, h⟩ | ⟨response, ho, h⟩⟩
  · rw [h] at hanswer ⊢
    cases hanswer
    obtain ⟨entry, he⟩ := Decision.cached_of_cachedResponse hc
    obtain ⟨hget, hdecision⟩ := Engine.decide_memory_cached rfl he
    rw [hdecision] at hc
    obtain ⟨hserves, hreply⟩ := Decision.cachedResponse_ofEntry hc
    refine ⟨entry, hget, hserves, ?_⟩
    rcases hreply with rfl | ⟨hmatch, rfl⟩
    · exact .inl rfl
    · exact .inr ⟨rfl, hmatch, rfl⟩
  · rw [h] at hanswer ⊢
    simp only [Answer.exchange.injEq, Exchange.mk.injEq] at hanswer
    obtain ⟨hanswer, rfl⟩ := hanswer
    obtain ⟨entry, he, hcovers, rfl⟩ := Engine.recover_eq_ok hanswer
    exact ⟨entry, (Engine.decide_memory_cached rfl he).1, hcovers, .inl rfl⟩
  · replace ho : work.outcome = .ok response := ho
    rw [h] at hanswer
    cases hanswer
    obtain ⟨failure, hf⟩ := hcached rfl
    cases ho.symm.trans hf

/-- Where the handler did not run or failed, the answer comes from the last execution that stored a
response for such a request, if nothing removed it since. Its policy allows storing it, and allows
the answer at the age that the response has by the end of the present execution: a replay with its
status and body, or a 304 for a client that has it already. -/
theorem answer_has_origin {c : Clock} {r : Request} {route : Declaration} {work : Work ε}
    {answer : Response} {ran : Bool}
    (hcommits : ∀ r response hint, .commit r response hint ∉ before)
    (horder : (memory n methods).InOrder (before ++ [.execute r route work]) ⟨c, {}⟩)
    (hanswer :
      ((memory n methods).step ((memory n methods).run before ⟨c, {}⟩) (.execute r route work)).1 =
        .exchange ⟨.ok answer, ran⟩)
    (hcached : ran = true → ∃ failure, work.outcome = .error failure) :
    ∃ (o : Origin n methods before ⟨c, {}⟩ r) (age : Nat),
      ((memory n methods).run (before ++ [.execute r route work]) ⟨c, {}⟩).now.nanos =
        o.storedAt.now.nanos + age ∧
      o.policy.noStore = false ∧
      (if ran then o.policy.CoversAt age else o.policy.ServesAt age) ∧
      (answer.status = o.response.status ∧ answer.body = o.response.body ∨
        ran = false ∧ r.ifNoneMatch?.any (EntityTag.matchesList · o.entry.etag) = true ∧
          answer = .unchanged o.entry.etag o.entry.headers) := by
  have hlater := (memory n methods).le_next
    ((memory n methods).readings_order ((memory n methods).inOrder_run horder))
  have hbefore := (memory n methods).inOrder_of_append horder
  obtain ⟨entry, hget, hallowed, hreply⟩ := exists_entry_of_answer hanswer hcached
  obtain ⟨o, rfl, hstore, htime⟩ := exists_origin_of_get rfl hcommits hbefore hget
  rw [run_append, run_cons, run_nil]
  obtain ⟨age, hage⟩ := Int.le.dest (Int.le_trans htime hlater)
  refine ⟨o, age, hage.symm, hstore, ?_, ?_⟩
  · cases ran with
    | false => exact (Response.isServable_entry hage.symm o.add?_ne_none).mp hallowed
    | true => exact (Response.coversError_entry hage.symm o.add?_ne_none).mp hallowed
  · rcases hreply with rfl | hunchanged
    · exact .inl ⟨o.replay_status _, o.replay_body _⟩
    · exact .inr hunchanged

theorem exists_answer {σ : Type} {x : Cache σ} {w : World σ} {r : Request} {route : Declaration}
    {work : Work ε} {ran : Bool}
    (hok : (x.engine.execute r route (x.handler work) w).1.answer.isOk = true)
    (hran : (x.engine.execute r route (x.handler work) w).1.handlerRan = ran) :
    ∃ answer, (x.step w (.execute r route work)).1 = .exchange ⟨.ok answer, ran⟩ := by
  show ∃ answer, Answer.exchange (x.engine.execute r route (x.handler work) w).1 = _
  generalize (x.engine.execute r route (x.handler work) w).1 = exchange at *
  obtain ⟨answer, ran⟩ := exchange
  cases answer with
  | error failure => cases hok
  | ok answer =>
    cases hran
    exact ⟨answer, rfl⟩

/-- A handler that fails 75 seconds after the response of its kind was stored, with a sweep in
between. -/
theorem failure_has_origin :
    let r : Request := { host := "localhost", path := "/a" }
    let response : Response := { headers := ⟨[("Cache-Control", "max-age=60, stale-if-error=30")]⟩ }
    let before : List (Event Unit) :=
      [.execute r {} { pauses := [.advance (.ofSeconds 1)], outcome := .ok response },
        .pause (.advance (.ofSeconds 70)), .pause .sweep]
    ∃ (o : Origin .default [.get] before ⟨⟨0⟩, {}⟩ r) (age : Nat),
      o.policy.noStore = false ∧ o.policy.CoversAt age := by
  intro r response before
  let work : Work Unit := { pauses := [.advance (.ofSeconds 5)], outcome := .error () }
  let x := memory .default [.get]
  have hok : (x.engine.execute r {} (x.handler work) (x.run before ⟨⟨0⟩, {}⟩)).1.answer.isOk =
      true := by decide +kernel
  have hran : (x.engine.execute r {} (x.handler work) (x.run before ⟨⟨0⟩, {}⟩)).1.handlerRan =
      true := by decide +kernel
  obtain ⟨answer, hanswer⟩ := exists_answer hok hran
  obtain ⟨o, age, -, hstore, hcovers, -⟩ :=
    answer_has_origin (by simp [before]) (by decide +kernel) hanswer fun _ => ⟨(), rfl⟩
  exact ⟨o, age, hstore, hcovers⟩

end Cache
end ResponseCache
