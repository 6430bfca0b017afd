import ResponseCache.Proofs.Fields
import ResponseCache.Proofs.Holdings
import ResponseCache.Proofs.Operations
import ResponseCache.Proofs.Provenance

/-!
# Conditional requests

The If-None-Match fields of a request change the form of its answer and nothing else. Two paths lead
to a 304: an entry that may be served, and a response that the handler has just made. Both give the
tag and the Cache-Control of the response that the request would be answered by without the fields,
because all entries of a store that only the engine writes to are successful responses.
-/
namespace ResponseCache

variable {σ ε : Type}

/-- The worlds that an engine gets to by executing requests and committing responses, with any
readings of the clock in between. Handlers may use the engine as well. -/
inductive Engine.Reaches (e : Engine σ) : World σ → World σ → Prop
  | refl (w : World σ) : e.Reaches w w
  | clock {start w : World σ} (c : Clock) : e.Reaches start w →
    e.Reaches start { w with clock := c }
  | commit {start w : World σ} (key : Key) (response : Response) (hint : Option Declaration) :
      e.Reaches start w → e.Reaches start (e.commit key response hint w).2
  | execute {start w : World σ} {ε : Type} (r : Request) (route : Declaration)
    (handler : Handler σ ε) :
      (∀ u, e.Reaches u (handler u).2) → e.Reaches start w →
        e.Reaches start (e.execute r route handler w).2

def Entry.IsSuccess (e : Entry) : Prop := e.status.isSuccess = true

namespace Engine
variable {e : Engine σ} {inside : σ → Prop}

theorem follows_inside (hb : e.backend.Keeps Entry.IsSuccess inside) :
    e.Follows (fun _ entry => entry.IsSuccess) fun s s' => inside s → inside s' where
  refl _ h := h
  trans h h' hs := h' (h hs)
  get _ _ _ hs := hb.get hs
  set _ _ _ he hs := hb.set hs he

/-- Nothing but successful responses gets into a store. -/
theorem Reaches.store_inside (hb : e.backend.Keeps Entry.IsSuccess inside) {start w : World σ}
    (h : e.Reaches start w) (hstart : inside start.store) : inside w.store := by
  have he := follows_inside hb
  have hwritten : ∀ (response : Response) p now, response.skipReason? p = none →
      (response.entry p now).IsSuccess :=
    fun _ _ _ hskip => (Response.skipReason?_eq_none hskip).2
  induction h with
  | refl w => exact hstart
  | clock c _ ih => exact ih hstart
  | commit key response hint _ ih =>
    exact commit_follows he (fun p => hwritten response p _) (ih hstart)
  | execute r route handler _ _ ihhandler ih =>
    exact execute_follows he (fun u hu => ihhandler u hu) _ hwritten (ih hstart)

end Engine

namespace Request

def unconditional (r : Request) : Request := { r with headers := r.headers.erase "if-none-match" }

theorem ifNoneMatch?_unconditional (r : Request) : r.unconditional.ifNoneMatch? = none := by
  apply Headers.joined?_eq_none_iff.mpr
  rw [unconditional, Headers.getAll_erase, Text.sameName_self, if_pos rfl]

end Request

theorem Response.isKnown_iff {response : Response} {ifNoneMatch : Option String} :
    response.isKnown ifNoneMatch = true ↔ response.status.isSuccess = true ∧
      ∃ list tag, ifNoneMatch = some list ∧
      response.headers.get? "etag" = some tag ∧ EntityTag.matchesList list tag = true := by
  unfold isKnown
  split
  · rename_i list tag htag
    simp [htag]
  · rename_i hnone
    constructor
    · intro h
      cases h
    · rintro ⟨-, list, tag, hlist, htag, -⟩
      exact absurd htag (hnone list tag hlist)

namespace Engine
variable (e : Engine σ) (r : Request) (route : Declaration) (handler : Handler σ ε) (w : World σ)

theorem deliver_plain {r : Request} (h : r.ifNoneMatch? = none) (response : Response) :
    deliver r response = response := by
  rw [deliver, h]
  rfl

theorem deliver_unconditional (response : Response) : deliver r.unconditional response = response :=
  deliver_plain r.ifNoneMatch?_unconditional response

/-- A replay has the tag of its entry, and the Cache-Control of the response that was stored. -/
theorem deliver_replay {entry : Entry} (hsuccess : entry.IsSuccess) (now : Instant) :
    deliver r (entry.replay now) =
      if r.ifNoneMatch?.any (EntityTag.matchesList · entry.etag) then
        .unchanged entry.etag entry.headers
      else entry.replay now := by
  have htag : (entry.replay now).headers.get? "etag" = some entry.etag := by
    rw [Headers.get?_eq_head?, Entry.replay, Headers.getAll_set, Headers.getAll_set]
    rfl
  have hcontrol : (entry.replay now).headers.joined? "cache-control" =
      entry.headers.joined? "cache-control" := by
    apply Headers.joined?_congr
    rw [Entry.replay, Headers.getAll_set, Headers.getAll_set]
    rfl
  have hknown : (entry.replay now).isKnown r.ifNoneMatch? =
      r.ifNoneMatch?.any (EntityTag.matchesList · entry.etag) := by
    have hstatus : (entry.replay now).status.isSuccess = true := hsuccess
    rw [Bool.eq_iff_iff, Response.isKnown_iff, Option.any_eq_true]
    simp [htag, hstatus]
  rw [deliver, hknown, htag, Option.getD_some, Response.unchanged, hcontrol]
  rfl

/-- Without If-None-Match fields a request leads to the same decision, or to the replay of an entry
that the request itself is answered from too. -/
theorem decide_unconditional (hkey : e.keyOf r.unconditional = e.keyOf r) {inside : σ → Prop}
    (hb : e.backend.Keeps Entry.IsSuccess inside) {w : World σ} (hw : inside w.store) :
    (e.decide r.unconditional route w).2 = (e.decide r route w).2 ∧
      ((e.decide r.unconditional route w).1 = (e.decide r route w).1 ∧
        (e.decide r route w).1.cachedResponse w.now = none ∨
      ∃ response, (e.decide r.unconditional route w).1.cachedResponse w.now = some response ∧
        (e.decide r route w).1.cachedResponse w.now = some (deliver r response)) := by
  have hmethod : r.unconditional.method = r.method := rfl
  simp only [decide, hkey, hmethod]
  split
  · exact ⟨rfl, .inl ⟨rfl, rfl⟩⟩
  · split
    · exact ⟨rfl, .inl ⟨rfl, rfl⟩⟩
    · split
      · rename_i entry store hget
        have hsuccess : entry.IsSuccess := hb.found hw (by rw [hget])
        refine ⟨rfl, ?_⟩
        rw [Request.ifNoneMatch?_unconditional]
        -- An entry that may not be served gives a miss, with the fields or without.
        cases hservable : entry.isServable w.now with
        | false =>
          left
          simp [Decision.ofEntry, Decision.cachedResponse, hservable]
        | true =>
          right
          refine ⟨entry.replay w.now, ?_, ?_⟩
          · simp [Decision.ofEntry, Decision.cachedResponse, hservable]
          · rw [deliver_replay r hsuccess]
            simp only [Decision.ofEntry, Decision.cachedResponse, hservable]
            cases r.ifNoneMatch?.any (EntityTag.matchesList · entry.etag) with
            | false => rfl
            | true => rfl
      · exact ⟨rfl, .inl ⟨rfl, rfl⟩⟩

variable {e r route handler w}

theorem execute_of_cached {response : Response}
    (hc : (e.decide r route w).1.cachedResponse (e.decide r route w).2.now = some response) :
    e.execute r route handler w = (⟨.ok response, false⟩, (e.decide r route w).2) := by
  simp only [execute, hc]

theorem execute_of_failure {failure : ε}
    (hc : (e.decide r route w).1.cachedResponse (e.decide r route w).2.now = none)
    (hf : (handler (e.decide r route w).2).1 = .error failure) :
    e.execute r route handler w =
      (⟨recover (e.decide r route w).1 failure (handler (e.decide r route w).2).2.now, true⟩,
      (handler (e.decide r route w).2).2) := by
  obtain ⟨outcome, after, hhandler⟩ : ∃ outcome after,
      handler (e.decide r route w).2 = (outcome, after) := ⟨_, _, rfl⟩
  rw [hhandler] at hf
  obtain rfl : outcome = .error failure := hf
  simp only [execute, hc, hhandler]

theorem execute_of_response {response : Response}
    (hc : (e.decide r route w).1.cachedResponse (e.decide r route w).2.now = none)
    (hr : (handler (e.decide r route w).2).1 = .ok response) :
    e.execute r route handler w = (⟨.ok (deliver r (response.stamp route)), true⟩,
      e.writeBack (e.decide r route w).1 (response.stamp route) route
        (handler (e.decide r route w).2).2) := by
  obtain ⟨outcome, after, hhandler⟩ : ∃ outcome after,
      handler (e.decide r route w).2 = (outcome, after) := ⟨_, _, rfl⟩
  rw [hhandler] at hr
  obtain rfl : outcome = .ok response := hr
  simp only [execute, hc, hhandler]

variable (e r route handler w)

/-- The handler ran and failed, so the answer is a stale entry or the failure. -/
def FallsBack : Prop :=
  (e.execute r route handler w).1.handlerRan = true ∧
    ∃ failure, (handler (e.decide r route w).2).1 = .error failure

variable {w}

/-- With and without its If-None-Match fields, a request runs the handler alike and leaves the same
world. Its answer is that of the plain request, as it is delivered to a client with these fields
unless the handler failed. -/
theorem execute_unconditional (hkey : e.keyOf r.unconditional = e.keyOf r) {inside : σ → Prop}
    (hb : e.backend.Keeps Entry.IsSuccess inside) (hw : inside w.store) :
    (e.execute r route handler w).1.handlerRan =
      (e.execute r.unconditional route handler w).1.handlerRan ∧
      (e.execute r route handler w).2 = (e.execute r.unconditional route handler w).2 ∧
      (e.FallsBack r.unconditional route handler w ∧
        (e.execute r route handler w).1.answer =
          (e.execute r.unconditional route handler w).1.answer ∨
      ¬e.FallsBack r.unconditional route handler w ∧ ∃ full,
        (e.execute r.unconditional route handler w).1.answer = .ok full ∧
        (e.execute r route handler w).1.answer = .ok (deliver r full)) := by
  have hnow : ∀ r, (e.decide r route w).2.now = w.now :=
    fun r => congrArg Clock.now (e.decide_clock r route w)
  obtain ⟨hworld, ⟨hsame, hnone⟩ | ⟨full, hplain, hfull⟩⟩ :=
    decide_unconditional e r route hkey hb hw
  · -- Both go to the handler, in one world: what it returns decides.
    have hdecide : e.decide r.unconditional route w = e.decide r route w := Prod.ext hsame hworld
    rw [← hnow r] at hnone
    have hnone' := hnone
    rw [← hdecide] at hnone'
    cases houtcome : (handler (e.decide r route w).2).1 with
    | error failure =>
      have hfailure := houtcome
      rw [← hdecide] at hfailure
      have hplain := execute_of_failure hnone' hfailure
      rw [FallsBack, hplain, execute_of_failure hnone houtcome, hdecide]
      exact ⟨rfl, rfl, .inl ⟨⟨rfl, failure, houtcome⟩, rfl⟩⟩
    | ok response =>
      have hresponse := houtcome
      rw [← hdecide] at hresponse
      have hplain := execute_of_response hnone' hresponse
      rw [deliver_unconditional] at hplain
      rw [FallsBack, hplain, execute_of_response hnone houtcome, hdecide]
      refine ⟨rfl, rfl, .inr ⟨?_, response.stamp route, rfl, rfl⟩⟩
      rintro ⟨-, failure, hfailure⟩
      cases houtcome.symm.trans hfailure
  · -- Both are answered from one entry, and the handler does not run.
    rw [← hnow r.unconditional] at hplain
    rw [← hnow r] at hfull
    rw [FallsBack, execute_of_cached hplain, execute_of_cached hfull]
    refine ⟨rfl, hworld.symm, .inr ⟨?_, full, rfl, rfl⟩⟩
    rintro ⟨hran, -⟩
    cases hran

end Engine

namespace Engine
variable (e : Engine σ) (r : Request) (route : Declaration) (handler : Handler σ ε) (w : World σ)

/-- Without conditions the answer is a successful response that does not stand in for a failure, and
its tag is on the client's list. -/
structure Confirms (full : Response) (tag : String) : Prop where
  answer : (e.execute r.unconditional route handler w).1.answer = .ok full
  success : full.status.isSuccess = true
  own : ¬e.FallsBack r.unconditional route handler w
  tagged : full.headers.get? "etag" = some tag
  listed : ∃ list, r.headers.joined? "if-none-match" = some list ∧
    EntityTag.matchesList list tag = true

/-- What the If-None-Match fields make of an execution: a 304 in place of a response that the client
has. -/
structure Transparent : Prop where
  runs : (e.execute r route handler w).1.handlerRan =
    (e.execute r.unconditional route handler w).1.handlerRan
  world : (e.execute r route handler w).2 = (e.execute r.unconditional route handler w).2
  confirmed : ∀ full tag, e.Confirms r route handler w full tag →
    ∃ short : Response, (e.execute r route handler w).1.answer = .ok short ∧
      short.status = .notModified ∧ short.body = [] ∧
      short.headers.fields =
        ("ETag", tag) ::
          ((full.headers.joined? "cache-control").map fun value => ("Cache-Control", value)).toList
  same : (¬∃ full tag, e.Confirms r route handler w full tag) →
    (e.execute r route handler w).1.answer = (e.execute r.unconditional route handler w).1.answer

variable {e w}

/-- Whatever backend the engine works on, also one whose calls fail, and whatever it did before. -/
theorem execute_transparent {start : World σ} (hkey : e.keyOf = Key.ofRequest)
    (hb : e.backend.StartsEmpty start.store) (hw : e.Reaches start w) :
    e.Transparent r route handler w := by
  have htimeless : Entry.IsTimeless Entry.IsSuccess := fun _ _ _ h => h
  obtain ⟨inside, hkeeps, hstart⟩ := hb.keeps htimeless
  have hrequest : e.keyOf r.unconditional = e.keyOf r := by
    rw [hkey]
    rfl
  obtain ⟨hruns, hworld, hanswer⟩ :=
    e.execute_unconditional r route handler hrequest hkeeps (hw.store_inside hkeeps hstart)
  refine ⟨hruns, hworld, ?_, ?_⟩
  · rintro full tag ⟨hfull, hsuccess, hown, htag, list, hlist, hlisted⟩
    rcases hanswer with ⟨hfalls, -⟩ | ⟨-, full', hfull', hdelivered⟩
    · exact absurd hfalls hown
    · obtain rfl : full' = full := Except.ok.inj (hfull'.symm.trans hfull)
      have hknown : full'.isKnown r.ifNoneMatch? = true :=
        Response.isKnown_iff.mpr ⟨hsuccess, list, tag, hlist, htag, hlisted⟩
      rw [deliver, if_pos hknown, htag, Option.getD_some] at hdelivered
      refine ⟨_, hdelivered, rfl, rfl, ?_⟩
      rw [Response.unchanged]
      cases full'.headers.joined? "cache-control" with
      | none => rfl
      | some value => rfl
  · intro hunconfirmed
    rcases hanswer with ⟨-, hsame⟩ | ⟨hown, full, hfull, hdelivered⟩
    · exact hsame
    · have hunknown : ¬full.isKnown r.ifNoneMatch? = true := by
        intro hknown
        obtain ⟨hsuccess, list, tag, hlist, htag, hlisted⟩ := Response.isKnown_iff.mp hknown
        exact hunconfirmed ⟨full, tag, hfull, hsuccess, hown, htag, list, hlist, hlisted⟩
      rw [deliver, if_neg hunknown] at hdelivered
      rw [hdelivered, hfull]

/-- A client that has a response asks again with its tag: ten seconds after the response was stored,
and where no call to the store succeeds, so that the handler makes the response anew. -/
theorem execute_transparent_with_tag :
    let plain : Request := { host := "localhost", path := "/a" }
    let r : Request := { plain with headers := ⟨[("if-none-match", "\"old\""),
      ("If-None-Match", "\"e3b0c44298fc1c149afbf4c8996fb924\"")]⟩ }
    let handler : ∀ σ, Handler σ Unit :=
      fun _ w => (.ok { headers := ⟨[("Cache-Control", "max-age=60")]⟩ }, w)
    let e : Engine Memory := { backend := Memory.backend .default }
    let stored := (e.execute plain {} (handler Memory) ⟨⟨0⟩, {}⟩).2
    let w : World Memory := { stored with clock := stored.clock.advance (.ofSeconds 10) }
    let e' : Engine KeyValue.Server :=
      { backend := KeyValue.Scope.backend {} KeyValue.Server.client }
    let w' : World KeyValue.Server :=
      ⟨⟨0⟩, { base := { faults := { outage := some "connection refused" } } }⟩
    (e.Transparent r {} (handler Memory) w ∧
      (e.execute plain {} (handler Memory) w).1.answer.toOption.map (·.status) = some .ok ∧
      (e.execute r {} (handler Memory) w).1.answer.toOption.map (·.status) = some .notModified) ∧
    (e'.Transparent r {} (handler KeyValue.Server) w' ∧
      (e'.execute plain {} (handler KeyValue.Server) w').1.answer.toOption.map (·.status) =
        some .ok ∧
      (e'.execute r {} (handler KeyValue.Server) w').1.answer.toOption.map (·.status) =
        some .notModified) := by
  intro plain r handler e stored w e' w'
  have hstored : e.Reaches ⟨⟨0⟩, {}⟩ stored :=
    .execute plain {} (handler Memory) (fun u => .refl u) (.refl _)
  have hserver : e'.backend.StartsEmpty w'.store :=
    .keyValue {} KeyValue.Server.custody fun _ => ItemStore.not_holds_empty _
  refine ⟨⟨?_, ?_, ?_⟩, ?_, ?_, ?_⟩
  · exact execute_transparent r {} (handler Memory) rfl (.memory .default) (.clock _ hstored)
  · decide +kernel
  · decide +kernel
  · exact execute_transparent r {} (handler KeyValue.Server) rfl hserver (.refl w')
  · decide +kernel
  · decide +kernel

end Engine

end ResponseCache
