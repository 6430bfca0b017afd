import ResponseCache.Engine.Basic
import ResponseCache.Proofs.Slots

/-!
# How long a response is served

The age of an entry alone decides what happens to it: whether a lookup finds it, whether it is
served, whether it counts as stale, and whether it may stand in for a handler that failed. The
conditions on the age are stated on the policy, without points in time.
-/
namespace ResponseCache

namespace CacheControl

/-- What a lifetime in a field value can say: whole seconds, and not too many of them. -/
def IsDelta (d : Duration) : Prop := ∃ n, n ≤ maxDelta ∧ d = .ofSeconds n

theorem IsDelta.nanos_le {d : Duration} (h : IsDelta d) : d.nanos ≤ maxDelta * nanosPerSecond := by
  obtain ⟨n, hn, rfl⟩ := h
  have hr : n < 2 ^ 64 := by simp only [maxDelta] at hn; omega
  rw [Duration.ofSeconds_nanos hr]
  exact Nat.mul_le_mul_right _ hn

theorem delta?_isDelta {argument : Option (List Char)} {d : Duration}
    (h : delta? argument = some d) : IsDelta d := by
  cases argument with
  | none => cases h
  | some cs =>
    simp only [delta?] at h
    split at h
    · exact ⟨_, Nat.min_le_right _ _, (Option.some.inj h).symm⟩
    · cases h

end CacheControl

open CacheControl in
structure Policy.InDeltas (p : Policy) : Prop where
  ttl : ∀ d ∈ p.ttl, IsDelta d
  staleWhileRevalidate : ∀ d ∈ p.staleWhileRevalidate, IsDelta d
  staleIfError : ∀ d ∈ p.staleIfError, IsDelta d

namespace CacheControl

def Directive.InDeltas : Directive → Prop
  | maxAge d | staleWhileRevalidate d | staleIfError d => IsDelta d
  | _ => True

theorem Directive.ofParts?_inDeltas {name : List Char} {argument : Option (List Char)}
    {x : Directive} (h : ofParts? name argument = some x) : x.InDeltas := by
  rw [ofParts?] at h
  -- six flags, then three lifetimes, then the names that mean nothing
  iterate 6
    split at h
    · cases h; trivial
  iterate 3
    split at h
    · obtain ⟨d, hd, rfl⟩ := Option.map_eq_some_iff.mp h
      exact delta?_isDelta hd
  cases h

theorem directives_inDeltas {value : List Char} {x : Directive} (h : x ∈ directives value) :
    x.InDeltas := by
  obtain ⟨segment, -, hs⟩ := List.mem_filterMap.mp h
  obtain ⟨⟨name, argument⟩, -, hp⟩ := Option.bind_eq_some_iff.mp hs
  exact Directive.ofParts?_inDeltas hp

private theorem or_isDelta {a : Option Duration} {d : Duration} (ha : ∀ x ∈ a, IsDelta x)
    (hd : IsDelta d) : ∀ x ∈ a.or (some d), IsDelta x := by
  cases a with
  | none => simpa using hd
  | some a => simpa using ha

theorem Directive.apply_inDeltas {p : Policy} {x : Directive} (hp : p.InDeltas) (hx : x.InDeltas) :
    (apply p x).InDeltas := by
  cases x with
  | maxAge d => exact ⟨or_isDelta hp.ttl hx, hp.staleWhileRevalidate, hp.staleIfError⟩
  | staleWhileRevalidate d => exact ⟨hp.ttl, or_isDelta hp.staleWhileRevalidate hx, hp.staleIfError⟩
  | staleIfError d => exact ⟨hp.ttl, hp.staleWhileRevalidate, or_isDelta hp.staleIfError hx⟩
  | publicly =>
    simp only [apply]
    split
    · exact hp
    · exact ⟨hp.ttl, hp.staleWhileRevalidate, hp.staleIfError⟩
  | _ => exact ⟨hp.ttl, hp.staleWhileRevalidate, hp.staleIfError⟩

theorem foldl_apply_inDeltas {xs : List Directive} {p : Policy} (hp : p.InDeltas)
    (hx : ∀ x ∈ xs, x.InDeltas) : (xs.foldl Directive.apply p).InDeltas := by
  induction xs generalizing p with
  | nil => exact hp
  | cons x xs ih =>
    have hstep := Directive.apply_inDeltas hp (hx x List.mem_cons_self)
    exact ih hstep fun y hy => hx y (List.mem_cons_of_mem _ hy)

theorem empty_inDeltas : ({} : Policy).InDeltas := ⟨nofun, nofun, nofun⟩

theorem read_inDeltas (value : String) : (read value).InDeltas :=
  foldl_apply_inDeltas empty_inDeltas fun _ hx => directives_inDeltas hx

end CacheControl

theorem Response.effectivePolicy_inDeltas (r : Response) (hint : Option Declaration) :
    (r.effectivePolicy hint).InDeltas := by
  rw [effectivePolicy, CacheControl.ofHeaders]
  split
  · exact CacheControl.read_inDeltas _
  · split
    · exact CacheControl.read_inDeltas _
    · exact CacheControl.empty_inDeltas

/-- A deadline `d` after `s` is ahead as long as less than `d` has passed since `s`. That holds also
where the deadline would lie past the end of time. -/
theorem Instant.isBefore_add? {s t : Instant} {d : Duration} {age : Nat}
    (ht : t.nanos = s.nanos + age) : t.isBefore (s.add? d) = true ↔ age < d.nanos := by
  cases h : s.add? d with
  | none =>
    have hs := Instant.add?_none_iff.mp h
    have hb := t.before
    simp only [isBefore_none, true_iff]
    omega
  | some u =>
    have hu := Instant.add?_eq_some h
    rw [isBefore_some, Instant.lt_iff]
    omega

namespace Policy

def IsFreshAt (p : Policy) (age : Nat) : Prop := ∀ ttl ∈ p.ttl, age < ttl.nanos

def IsWithin (p : Policy) (window : Option Duration) (age : Nat) : Prop :=
  ∃ ttl ∈ p.ttl, ∃ d ∈ window, age < ttl.nanos + d.nanos

/-- A lookup at this age may be answered. -/
def ServesAt (p : Policy) (age : Nat) : Prop :=
  ¬(p.noCache = true ∧ p.immutable = false) ∧
    (p.IsFreshAt age ∨ p.noCache = false ∧ p.mustRevalidate = false ∧
      p.IsWithin p.staleWhileRevalidate age)

/-- A handler that fails at this age is covered for. -/
def CoversAt (p : Policy) (age : Nat) : Prop :=
  p.mustRevalidate = false ∧ p.IsWithin p.staleIfError age

theorem InDeltas.staleExtension_nanos {p : Policy} (h : p.InDeltas) :
    p.staleExtension.nanos ≤ CacheControl.maxDelta * nanosPerSecond := by
  have window : ∀ o : Option Duration, (∀ d ∈ o, CacheControl.IsDelta d) →
      (o.getD .zero).nanos ≤ CacheControl.maxDelta * nanosPerSecond := by
    intro o ho
    cases o with
    | none => simp
    | some d => exact (ho d rfl).nanos_le
  have hw := window _ h.staleWhileRevalidate
  have he := window _ h.staleIfError
  rw [staleExtension]
  split
  · simp
  · rw [Duration.max_nanos]
    exact Nat.max_le.mpr ⟨hw, he⟩

/-- The lifetimes of field values are too short for their sum to be cut off. -/
theorem InDeltas.storageTtl_nanos {p : Policy} (h : p.InDeltas) {ttl : Duration}
    (ht : p.ttl = some ttl) :
    (ttl.add p.staleExtension).nanos = ttl.nanos + p.staleExtension.nanos := by
  have h1 := (h.ttl ttl ht).nanos_le
  have h2 := h.staleExtension_nanos
  rw [Duration.add_nanos, Nat.min_eq_left]
  simp only [Duration.longest, CacheControl.maxDelta, nanosPerSecond] at *
  omega

/-- What may still be served or cover for a handler is still kept. -/
theorem lt_storageTtl_of_isWithin {p : Policy} (h : p.InDeltas) (hm : p.mustRevalidate = false)
    {age : Nat} {window : Option Duration}
    (hw : window = p.staleWhileRevalidate ∨ window = p.staleIfError) (ha : p.IsWithin window age) :
    ∀ d ∈ p.storageTtl, age < d.nanos := by
  obtain ⟨ttl, ht, w, hwin, hlt⟩ := ha
  intro d hd
  obtain rfl : ttl.add p.staleExtension = d := by simpa [storageTtl, Option.mem_def.mp ht] using hd
  have hle : w.nanos ≤ p.staleExtension.nanos := by
    rw [staleExtension, hm, if_neg Bool.false_ne_true, Duration.max_nanos]
    rcases hw with rfl | rfl
    · rw [Option.mem_def.mp hwin]; exact Nat.le_max_left _ _
    · rw [Option.mem_def.mp hwin]; exact Nat.le_max_right _ _
  rw [h.storageTtl_nanos ht]
  omega

theorem lt_storageTtl_of_isFreshAt {p : Policy} (h : p.InDeltas) {age : Nat}
    (ha : p.IsFreshAt age) : ∀ d ∈ p.storageTtl, age < d.nanos := by
  intro d hd
  obtain ⟨ttl, ht, rfl⟩ := Option.map_eq_some_iff.mp hd
  have hlt := ha ttl ht
  rw [h.storageTtl_nanos ht]
  omega

theorem lt_storageTtl_of_servesAt {p : Policy} (h : p.InDeltas) {age : Nat} (ha : p.ServesAt age) :
    ∀ d ∈ p.storageTtl, age < d.nanos := by
  rcases ha.2 with hf | ⟨-, hm, hw⟩
  · exact lt_storageTtl_of_isFreshAt h hf
  · exact lt_storageTtl_of_isWithin h hm (.inl rfl) hw

end Policy

theorem Instant.isBefore_bind_add? {s t : Instant} {o : Option Duration} {age : Nat}
    (ht : t.nanos = s.nanos + age) :
    t.isBefore (o.bind s.add?) = true ↔ ∀ d ∈ o, age < d.nanos := by
  cases o with
  | none => simp
  | some d => simpa using isBefore_add? ht

/-- The clock's range ends long before the end of time. -/
theorem Clock.add?_ne_none_of_le (c : Clock) {d : Duration}
    (hd : d.nanos ≤ 2 * (CacheControl.maxDelta * nanosPerSecond)) : c.now.add? d ≠ none := by
  intro h
  have hn := Instant.add?_none_iff.mp h
  have hc := c.millis.toNat_lt
  rw [Clock.now_nanos] at hn
  simp only [CacheControl.maxDelta, nanosPerSecond] at hd
  omega

theorem Clock.add?_ne_none (c : Clock) {d : Duration} (hd : CacheControl.IsDelta d) :
    c.now.add? d ≠ none := by
  apply c.add?_ne_none_of_le
  have hd := hd.nanos_le
  omega

namespace Entry
variable {e : Entry} {p : Policy} {s t : Instant} {age : Nat}

theorem isFresh_iff (he : e.expiresAt = p.ttl.bind s.add?) (ht : t.nanos = s.nanos + age) :
    e.isFresh t = true ↔ p.IsFreshAt age := by
  rw [isFresh, he]
  exact Instant.isBefore_bind_add? ht

theorem withinGrace_iff (he : e.expiresAt = p.ttl.bind s.add?) (ht : t.nanos = s.nanos + age)
    (hs : ∀ d ∈ p.ttl, s.add? d ≠ none) (window : Option Duration) :
    e.withinGrace window t = true ↔ p.IsWithin window age := by
  cases hp : p.ttl with
  | none => simp [withinGrace, Policy.IsWithin, he, hp]
  | some ttl =>
    cases window with
    | none => simp [withinGrace, Policy.IsWithin]
    | some d =>
      obtain ⟨u, hu⟩ := Option.ne_none_iff_exists'.mp (hs ttl hp)
      have hun := Instant.add?_eq_some hu
      -- what has passed since the end of freshness, which may lie ahead
      have hend : t.isBefore (u.add? d) = true ↔ age < ttl.nanos + d.nanos := by
        cases hx : u.add? d with
        | none =>
          have hx := Instant.add?_none_iff.mp hx
          have hb := t.before
          simp only [Instant.isBefore_none, true_iff]
          omega
        | some x =>
          have hx := Instant.add?_eq_some hx
          rw [Instant.isBefore_some, Instant.lt_iff]
          omega
      simpa [withinGrace, Policy.IsWithin, he, hp, hu] using hend

end Entry

namespace Response
variable {response : Response} {p : Policy} {s t : Instant} {age : Nat}

theorem isFresh_entry (response : Response) (ht : t.nanos = s.nanos + age) :
    (response.entry p s).isFresh t = true ↔ p.IsFreshAt age :=
  Entry.isFresh_iff rfl ht

theorem withinGrace_entry (response : Response) (ht : t.nanos = s.nanos + age)
    (hs : ∀ d ∈ p.ttl, s.add? d ≠ none) (window : Option Duration) :
    (response.entry p s).withinGrace window t = true ↔ p.IsWithin window age :=
  Entry.withinGrace_iff rfl ht hs window

theorem isServable_entry (ht : t.nanos = s.nanos + age) (hs : ∀ d ∈ p.ttl, s.add? d ≠ none) :
    (response.entry p s).isServable t = true ↔ p.ServesAt age := by
  have hf := isFresh_entry response (p := p) ht
  have hw := withinGrace_entry response ht hs p.staleWhileRevalidate
  have hp : (response.entry p s).policy = p := rfl
  rw [Entry.isServable, Policy.ServesAt, Policy.requiresRevalidation]
  rw [hp]
  cases hc : p.noCache <;> cases hi : p.immutable <;> simp [hf, hw]

theorem coversError_entry (ht : t.nanos = s.nanos + age) (hs : ∀ d ∈ p.ttl, s.add? d ≠ none) :
    (response.entry p s).coversError t = true ↔ p.CoversAt age := by
  have hw := withinGrace_entry response ht hs p.staleIfError
  have hp : (response.entry p s).policy = p := rfl
  rw [Entry.coversError, Policy.CoversAt]
  rw [hp, Bool.and_eq_true, Bool.not_eq_true', hw]

end Response

namespace Decision
variable {key : Key} {e : Entry} {ifNoneMatch : Option String} {now : Instant}

theorem outcome_of_isServable (h : e.isServable now = true) :
    (ofEntry key e ifNoneMatch now).outcome =
      if ifNoneMatch.any (EntityTag.matchesList · e.etag) then .notModified else .serveCached := by
  rw [ofEntry, h]
  rfl

theorem outcome_of_not_isServable (h : ¬e.isServable now = true) :
    (ofEntry key e ifNoneMatch now).outcome = .miss := by
  rw [ofEntry, Bool.eq_false_iff.mpr h]
  rfl

theorem stale_ofEntry :
    (ofEntry key e ifNoneMatch now).stale = true ↔
      e.isServable now = true ∧ ¬e.isFresh now = true := by
  rw [ofEntry, Bool.and_eq_true, Bool.not_eq_true', Bool.not_eq_true]

theorem staleIfError_ofEntry {found : Entry} :
    (ofEntry key e ifNoneMatch now).staleIfError now = some found ↔
      found = e ∧ e.coversError now = true := by
  rw [staleIfError, ofEntry, Option.filter_eq_some_iff, Option.some.injEq]
  constructor
  · rintro ⟨rfl, h⟩
    exact ⟨rfl, h⟩
  · rintro ⟨rfl, h⟩
    exact ⟨rfl, h⟩

end Decision

namespace Engine
variable {σ : Type} {e : Engine σ} {key : Key} {response : Response} {hint : Option Declaration}
  {ttl : Option Duration} {w w' : World σ}

/-- A response is stored as one write of its entry, with the store's lifetime of its policy. -/
theorem commit_stored (h : e.commit key response hint w = (.stored ttl, w')) :
    ttl = (response.effectivePolicy hint).storageTtl ∧
    response.skipReason? (response.effectivePolicy hint) = none ∧ ∃ store,
      e.backend.set w.now key (response.entry (response.effectivePolicy hint) w.now) ttl w.store =
        (.ok (), store) ∧
      w' = { w with store } := by
  simp only [commit] at h
  cases hs : response.skipReason? (response.effectivePolicy hint) with
  | some reason => simp [hs] at h
  | none =>
    rw [hs] at h
    generalize hset : e.backend.set _ _ _ _ _ = answer at h
    obtain ⟨answer, store⟩ := answer
    cases answer with
    | error fault => simp at h
    | ok u =>
      simp only [Prod.mk.injEq, WriteResult.stored.injEq] at h
      obtain ⟨rfl, rfl⟩ := h
      exact ⟨rfl, rfl, store, hset, rfl⟩

def decisionFor (e : Engine σ) (r : Request) (now : Instant) : Option Entry → Decision
  | some entry => .ofEntry (e.keyOf r) entry r.ifNoneMatch? now
  | none => { outcome := .miss, key := e.keyOf r }

theorem decide_memory {e : Engine Memory} {n : Namespace} (he : e.backend = Memory.backend n)
    {r : Request} (hm : r.method ∈ e.methods) {route : Declaration}
    (hr : route.bypassesLookup = false) (w : World Memory) :
    e.decide r route w = (e.decisionFor r w.now (w.store.get n w.now (e.keyOf r)), w) := by
  have hm : e.methods.contains r.method = true := List.contains_iff_mem.mpr hm
  simp only [decide, hm, hr, he, Memory.backend]
  cases w.store.get n w.now (e.keyOf r) <;> rfl

end Engine

namespace Memory
variable {n : Namespace} {e : Engine Memory} {key : Key} {response : Response}
  {hint : Option Declaration} {ttl : Option Duration} {w stored : World Memory}

/-- What a commit leaves in memory. -/
theorem commit_stored (he : e.backend = backend n)
    (h : e.commit key response hint w = (.stored ttl, stored)) :
    stored.clock = w.clock ∧ stored.store = w.store.set n w.now key
      (response.entry (response.effectivePolicy hint) w.now)
      (response.effectivePolicy hint).storageTtl := by
  obtain ⟨rfl, -, store, hset, rfl⟩ := Engine.commit_stored h
  rw [he] at hset
  exact ⟨rfl, (congrArg Prod.snd hset).symm⟩

/-- As long as nothing disturbs the key, a lookup finds the entry up to the store's lifetime of its
policy. -/
theorem get_after_commit (he : e.backend = backend n)
    (h : e.commit key response hint w = (.stored ttl, stored)) {later : World Memory} {age : Nat}
    (hage : later.now.nanos = w.now.nanos + age)
    (hkey : Undisturbed (n.physical key) later.now stored.store later.store) (entry : Entry) :
    later.store.get n later.now key = some entry ↔
      entry = response.entry (response.effectivePolicy hint) w.now ∧
        ∀ d ∈ (response.effectivePolicy hint).storageTtl, age < d.nanos := by
  rw [hkey.get_eq, get_eq_some_iff, (commit_stored he h).2]
  simp only [find?_set, if_true, Option.some.injEq, exists_eq_left', Slot.isLive,
    Instant.isBefore_bind_add? hage]
  exact and_comm.trans (and_congr_left fun _ => eq_comm)

end Memory

/-- Once a response is stored, its policy and its age alone say how a later lookup is answered,
whatever happens to other keys in the meantime: from the entry as long as the policy serves at that
age, by a 304 exactly when the client has the entry's tag, and from the handler ever after. The
entry covers for that handler as long as the policy says so. -/
theorem decide_after_commit {n : Namespace} {e : Engine Memory} (he : e.backend = Memory.backend n)
    {r : Request} (hmethod : r.method ∈ e.methods) {response : Response} {hint : Option Declaration}
    {w stored later : World Memory} {ttl : Option Duration}
    (hcommit : e.commit (e.keyOf r) response hint w = (.stored ttl, stored)) {elapsed : Nat}
    (hclock : later.clock.millis.toNat = stored.clock.millis.toNat + elapsed)
    (hkey : Memory.Undisturbed (n.physical (e.keyOf r)) later.now stored.store later.store)
    {route : Declaration} (hroute : route.bypassesLookup = false) :
    let p := response.effectivePolicy hint
    let entry := response.entry p w.now
    let age := elapsed * 1000000
    let decision := (e.decide r route later).1
    (p.ServesAt age → decision.cached = some entry ∧
        decision.outcome =
          if r.ifNoneMatch?.any (EntityTag.matchesList · entry.etag) then .notModified
          else .serveCached) ∧
      (¬p.ServesAt age → decision.outcome = .miss) ∧
      (decision.stale = true ↔ p.ServesAt age ∧ ∃ ttl ∈ p.ttl, ttl.nanos ≤ age) ∧
      (∀ found, decision.staleIfError later.now = some found ↔ found = entry ∧ p.CoversAt age) := by
  intro p entry age decision
  have hclock' : stored.clock = w.clock := (Memory.commit_stored he hcommit).1
  have hage : later.now.nanos = w.now.nanos + (age : Nat) := by
    show later.clock.now.nanos = w.clock.now.nanos + (age : Nat)
    rw [Clock.now_nanos, Clock.now_nanos, hclock, hclock']
    omega
  have hp : p.InDeltas := response.effectivePolicy_inDeltas hint
  have hrange : ∀ d ∈ p.ttl, w.now.add? d ≠ none := fun d hd => w.clock.add?_ne_none (hp.ttl d hd)
  have hget := Memory.get_after_commit he hcommit hage hkey
  have hfresh : entry.isFresh later.now = true ↔ p.IsFreshAt age :=
    Response.isFresh_entry response hage
  have hserves : entry.isServable later.now = true ↔ p.ServesAt age :=
    Response.isServable_entry hage hrange
  have hcovers : entry.coversError later.now = true ↔ p.CoversAt age :=
    Response.coversError_entry hage hrange
  have hdecision : decision = e.decisionFor r later.now (later.store.get n later.now (e.keyOf r)) :=
    congrArg Prod.fst (Engine.decide_memory he hmethod hroute later)
  have hstale : ¬p.IsFreshAt age ↔ ∃ ttl ∈ p.ttl, ttl.nanos ≤ age := by
    simp only [Policy.IsFreshAt, Classical.not_forall, Nat.not_lt, exists_prop]
  clear_value decision
  subst hdecision
  cases hfound : later.store.get n later.now (e.keyOf r) with
  | some found =>
    obtain rfl : found = entry := ((hget found).mp hfound).1
    refine ⟨fun h => ⟨rfl, Decision.outcome_of_isServable (hserves.mpr h)⟩, ?_, ?_, ?_⟩
    · intro h
      exact Decision.outcome_of_not_isServable (mt hserves.mp h)
    · rw [← hstale, ← hfresh, ← hserves]
      exact Decision.stale_ofEntry
    · intro other
      rw [← hcovers]
      exact Decision.staleIfError_ofEntry
  | none =>
    have hgone : ¬∀ d ∈ p.storageTtl, age < d.nanos :=
      fun h => by simp [(hget entry).mpr ⟨rfl, h⟩] at hfound
    have hserve : ¬p.ServesAt age := fun h => hgone (Policy.lt_storageTtl_of_servesAt hp h)
    have hcover : ¬p.CoversAt age :=
      fun h => hgone (Policy.lt_storageTtl_of_isWithin hp h.1 (.inr rfl) h.2)
    simp [Engine.decisionFor, Decision.staleIfError, hserve, hcover]

/-- Past its lifetime and inside the window after it, with a sweep in between. -/
theorem decide_after_commit_in_window :
    let e : Engine Memory := { backend := Memory.backend .default }
    let r : Request := { host := "localhost", path := "/a" }
    let response : Response :=
      { headers :=
          ⟨[("Cache-Control", "max-age=60, stale-while-revalidate=30"), ("ETag", "\"v1\"")]⟩ }
    let stored := (e.commit (e.keyOf r) response none ⟨⟨1000⟩, {}⟩).2
    let later : World Memory := ⟨⟨76000⟩, (stored.store.sweep .default (Clock.now ⟨70000⟩)).2⟩
    (e.decide r {} later).1.outcome = .serveCached ∧ (e.decide r {} later).1.stale = true := by
  intro e r response stored later
  have hp : response.effectivePolicy none =
      { ttl := some (.ofSeconds 60), staleWhileRevalidate := some (.ofSeconds 30) } := by decide
  have hcommit : e.commit (e.keyOf r) response none ⟨⟨1000⟩, {}⟩ =
      (.stored (some (.ofSeconds 90)), stored) :=
    Prod.ext (by decide) rfl
  have hkey : Memory.Undisturbed (Namespace.default.physical (e.keyOf r)) later.now stored.store
      later.store :=
    (Memory.undisturbed_sweep _ stored.store).trans (.refl _ later.now _) (by decide)
  have hage : (response.effectivePolicy none).ServesAt (75000 * 1000000) := by
    rw [hp]
    exact ⟨by simp, .inr ⟨rfl, rfl, .ofSeconds 60, rfl, .ofSeconds 30, rfl, by decide⟩⟩
  have hclock : later.clock.millis.toNat = stored.clock.millis.toNat + 75000 := by decide
  have hroute : ({} : Declaration).bypassesLookup = false := rfl
  obtain ⟨hserves, -, hstale, -⟩ :=
    decide_after_commit (e := e) rfl (by decide) hcommit hclock hkey hroute
  refine ⟨(hserves hage).2, hstale.mpr ⟨hage, ?_⟩⟩
  rw [hp]
  exact ⟨.ofSeconds 60, rfl, by decide⟩

end ResponseCache
