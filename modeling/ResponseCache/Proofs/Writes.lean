import ResponseCache.Proofs.Session

/-!
# Writes of a session

Which event writes what, and which keys it removes. In memory an event that neither writes nor
removes a key leaves it undisturbed, so what is found under a key is the last write of it.
-/
namespace ResponseCache

/-- A response as it was stored, with the policy it was stored under and the clock's reading. -/
structure Write where
  key : Key
  response : Response
  policy : Policy
  clock : Clock

namespace Write

def of? (key : Key) (response : Response) (hint : Option Declaration) (clock : Clock) :
    Option Write :=
  match response.skipReason? (response.effectivePolicy hint) with
  | none => some { key, response, policy := response.effectivePolicy hint, clock }
  | some _ => none

def entry (u : Write) : Entry := u.response.entry u.policy u.clock.now

def slot (u : Write) : Slot := ⟨u.entry, u.policy.storageTtl.bind u.clock.now.add?⟩

def put (u : Write) (n : Namespace) (m : Memory) : Memory :=
  m.set n u.clock.now u.key u.entry u.policy.storageTtl

theorem of?_eq_some_iff {key : Key} {response : Response} {hint : Option Declaration}
    {clock : Clock} {u : Write} :
    of? key response hint clock = some u ↔
      response.skipReason? (response.effectivePolicy hint) = none ∧
        u = { key, response, policy := response.effectivePolicy hint, clock } := by
  rw [of?]
  cases response.skipReason? (response.effectivePolicy hint) with
  | none => simp [eq_comm]
  | some reason => simp

theorem find?_put (u : Write) (n : Namespace) (m : Memory) (k : Key) :
    (u.put n m).slots.find? (n.physical k) =
      if k = u.key then some u.slot else m.slots.find? (n.physical k) := by
  simp only [put, Memory.find?_set, Namespace.physical_inj, slot]

end Write

namespace Cache
variable {σ ε : Type} (x : Cache σ)

def written? (w : World σ) : Event ε → Option Write
  | .execute r route work =>
    match (x.engine.decide r route w).1.cachedResponse w.now, work.outcome with
    | none, .ok response =>
      if (x.engine.decide r route w).1.writesBack then
        Write.of? (x.engine.keyOf r) (response.stamp route) (some route)
          (x.pauses work.pauses w).clock
      else none
    | _, _ => none
  | .commit r response hint => Write.of? (x.engine.keyOf r) response hint w.clock
  | _ => none

theorem written?_execute {r : Request} {route : Declaration} {work : Work ε} {w : World σ}
    {u : Write} :
    x.written? w (.execute r route work) = some u ↔
      (x.engine.decide r route w).1.cachedResponse w.now = none ∧
        ∃ response, work.outcome = .ok response ∧
        (x.engine.decide r route w).1.writesBack = true ∧
        Write.of? (x.engine.keyOf r) (response.stamp route) (some route)
          (x.pauses work.pauses w).clock = some u := by
  simp only [written?]
  cases (x.engine.decide r route w).1.cachedResponse w.now with
  | some _ => simp
  | none =>
    cases work.outcome with
    | error _ => simp
    | ok response => simp

end Cache

def Event.removes {ε : Type} (n : Namespace) (k : Key) : Event ε → Prop
  | .delete k' => k' = k
  | .deletePath path => k.parts.path = path
  | .deletePattern pattern =>
    ∃ ts, PathPattern.read (n.relative pattern) = .ok ts ∧ PathPattern.isMatch ts k.text
  | .clear => True
  | _ => False

namespace Cache

def memory (n : Namespace) (methods : List Method) : Cache Memory where
  engine := { backend := Memory.backend n, methods }
  sweep now m := (m.sweep n now).2

end Cache

namespace Engine
variable {e : Engine Memory} {n : Namespace}

theorem decide_memory_world (he : e.backend = Memory.backend n) (r : Request) (route : Declaration)
    (w : World Memory) : (e.decide r route w).2 = w := by
  simp only [decide, he, Memory.backend]
  split
  · rfl
  · split
    · rfl
    · cases w.store.get n w.now (e.keyOf r) <;> rfl

theorem commit_memory_world (he : e.backend = Memory.backend n) (key : Key) (response : Response)
    (hint : Option Declaration) (w : World Memory) :
    (e.commit key response hint w).2 = match Write.of? key response hint w.clock with
      | some u => { w with store := u.put n w.store }
      | none => w := by
  simp only [commit, Write.of?, he, Memory.backend]
  cases response.skipReason? (response.effectivePolicy hint) <;> rfl

end Engine

namespace Cache
variable {ε : Type} {n : Namespace} {methods : List Method} {w : World Memory} {k : Key}

theorem pauses_undisturbed {ps : List Pause} {w : World Memory}
    (h : (w.clock :: Pause.readings w.clock ps).Pairwise fun a b => a.now ≤ b.now) :
    Memory.Undisturbed (n.physical k) ((memory n methods).pauses ps w).now w.store
      ((memory n methods).pauses ps w).store := by
  induction ps generalizing w with
  | nil => exact .refl ..
  | cons p ps ih =>
    have hps := (List.pairwise_cons.mp h).2
    rw [Pause.readings, ← (memory n methods).pause_clock w p] at hps
    have hone : Memory.Undisturbed (n.physical k) ((memory n methods).pause w p).now w.store
        ((memory n methods).pause w p).store := by
      cases p with
      | sweep => exact Memory.undisturbed_sweep w.now w.store
      | _ => exact .refl ..
    exact hone.trans (ih hps) (le_pauses _ hps)

/-- The world in which an event writes: after the handler, if one runs. -/
def handled (x : Cache Memory) (w : World Memory) : Event ε → World Memory
  | .execute r route work =>
    if (x.engine.execute r route (x.handler work) w).1.handlerRan then x.pauses work.pauses w else w
  | _ => w

theorem handled_undisturbed {ev : Event ε}
    (h : (w.clock :: (memory n methods).readingsOf w ev).Pairwise fun a b => a.now ≤ b.now) :
    Memory.Undisturbed (n.physical k) ((memory n methods).handled w ev).now w.store
      ((memory n methods).handled w ev).store := by
  cases ev with
  | execute r route work =>
    simp only [readingsOf, handled] at h ⊢
    split at h
    · rename_i hran
      rw [if_pos hran]
      exact pauses_undisturbed h
    · rename_i hran
      rw [if_neg hran]
      exact .refl ..
  | _ => exact .refl ..

theorem handled_execute (r : Request) (route : Declaration) (work : Work ε) (w : World Memory) :
    (memory n methods).handled w (.execute r route work) =
      if ((memory n methods).engine.decide r route w).1.cachedResponse w.now = none
        then (memory n methods).pauses work.pauses w else w := by
  have hran := (memory n methods).engine.handlerRan_iff r route ((memory n methods).handler work) w
  rw [Engine.decide_memory_world (n := n) rfl] at hran
  rw [handled]
  simp only [hran]

theorem next_execute (r : Request) (route : Declaration) (work : Work ε) (w : World Memory) :
    let v := (memory n methods).handled w (.execute r route work)
    (memory n methods).next w (.execute r route work) =
      match (memory n methods).written? w (.execute r route work) with
      | some u => { v with store := u.put n v.store }
      | none => v := by
  have hd : ((memory n methods).engine.decide r route w).2 = w := Engine.decide_memory_world rfl ..
  have hcases := (memory n methods).engine.execute_cases r route ((memory n methods).handler work) w
  rw [hd] at hcases
  show ((memory n methods).engine.execute r route ((memory n methods).handler work) w).2 = _
  rw [handled_execute]
  rw [written?]
  rcases hcases with ⟨_, hc, h⟩ | ⟨hc, ⟨_, ho, h⟩ | ⟨response, ho, h⟩⟩
  · simp [h, hc]
  · replace ho : work.outcome = _ := ho
    simp [h, hc, ho, handler]
  · replace ho : work.outcome = _ := ho
    simp only [h, hc, ho, handler, Engine.writeBack, if_true]
    split
    · rw [Engine.commit_memory_world (n := n) rfl, Engine.decide_key]
    · rfl

/-- An event that writes does nothing to the store after its handler but the write. -/
theorem next_of_written {ev : Event ε} {u : Write} (h : (memory n methods).written? w ev = some u) :
    let v := (memory n methods).handled w ev
    (memory n methods).next w ev = { v with store := u.put n v.store } ∧ u.clock = v.clock := by
  cases ev with
  | execute r route work =>
    obtain ⟨hc, response, -, -, hu⟩ := (written?_execute _).mp h
    rw [next_execute, h]
    refine ⟨rfl, ?_⟩
    rw [handled_execute, if_pos hc, (Write.of?_eq_some_iff.mp hu).2]
  | commit r response hint =>
    replace h : Write.of? _ response hint w.clock = some u := h
    constructor
    · show ((memory n methods).engine.commit _ response hint w).2 = _
      rw [Engine.commit_memory_world (n := n) rfl, h]
      rfl
    · rw [(Write.of?_eq_some_iff.mp h).2]
      rfl
  | _ => cases h

theorem find?_next_of_written {ev : Event ε} {u : Write}
    (h : (memory n methods).written? w ev = some u) :
    ((memory n methods).next w ev).store.slots.find? (n.physical u.key) = some u.slot := by
  rw [(next_of_written h).1]
  exact (u.find?_put ..).trans (if_pos rfl)

/-- A removal of a key leaves no slot of it. -/
theorem find?_next_of_removes {ev : Event ε} (h : ev.removes n k) :
    ((memory n methods).next w ev).store.slots.find? (n.physical k) = none := by
  cases ev with
  | delete k' =>
    obtain rfl : k' = k := h
    exact (Memory.find?_delete ..).trans (if_pos rfl)
  | deletePath path =>
    refine (Memory.find?_removeWhere ..).trans ?_
    have hp : (k.parts.path == path) = true := beq_iff_eq.mpr h
    simp [hp]
  | deletePattern pattern =>
    obtain ⟨ts, hts, hm⟩ := h
    show (w.store.deletePattern n pattern).2.slots.find? _ = none
    rw [Memory.deletePattern, hts]
    refine (Memory.find?_removeWhere ..).trans ?_
    simp [hm]
  | clear =>
    refine (Memory.find?_removeWhere ..).trans ?_
    simp
  | _ => exact h.elim

/-- An event that neither writes nor removes a key leaves it undisturbed. -/
theorem next_undisturbed {ev : Event ε}
    (horder : (w.clock :: (memory n methods).readingsOf w ev).Pairwise fun a b => a.now ≤ b.now)
    (hwrites : ∀ u, (memory n methods).written? w ev = some u → u.key ≠ k)
    (hremoves : ¬ev.removes n k) :
    Memory.Undisturbed (n.physical k) ((memory n methods).next w ev).now w.store
      ((memory n methods).next w ev).store := by
  have hhandled := handled_undisturbed (k := k) horder
  cases hu : (memory n methods).written? w ev with
  | some u =>
    rw [(next_of_written hu).1]
    exact hhandled.trans (Memory.undisturbed_set (Ne.symm (hwrites u hu)) ..) (Int.le_refl _)
  | none =>
    cases ev with
    | pause p =>
      cases p with
      | sweep => exact Memory.undisturbed_sweep w.now w.store
      | _ => exact .refl ..
    | execute r route work =>
      rw [next_execute, hu]
      exact hhandled
    | decide r route =>
      have hd : (memory n methods).next w (.decide r route : Event ε) = w :=
        Engine.decide_memory_world rfl ..
      rw [hd]
      exact .refl ..
    | commit r response hint =>
      have hc : (memory n methods).next w (.commit r response hint : Event ε) = w := by
        show ((memory n methods).engine.commit _ response hint w).2 = w
        rw [Engine.commit_memory_world (n := n) rfl,
          show Write.of? _ response hint w.clock = none from hu]
      rw [hc]
      exact .refl ..
    | delete k' => exact Memory.undisturbed_delete (Ne.symm hremoves) ..
    | deletePath path =>
      refine Memory.undisturbed_removeWhere (fun s _ => ?_) w.store
      exact beq_eq_false_iff_ne.mpr hremoves
    | deletePattern pattern =>
      show Memory.Undisturbed _ _ w.store (w.store.deletePattern n pattern).2
      rw [Memory.deletePattern]
      split
      · exact .refl ..
      · rename_i ts hts
        refine Memory.undisturbed_removeWhere (fun s _ => ?_) w.store
        exact Bool.eq_false_iff.mpr fun hm => hremoves ⟨ts, hts, hm⟩
    | clear => exact absurd trivial hremoves
    | _ => exact .refl ..

def Quiet (x : Cache Memory) (n : Namespace) (k : Key) : List (Event ε) → World Memory → Prop
  | [], _ => True
  | ev :: events, w =>
    (∀ u, x.written? w ev = some u → u.key ≠ k) ∧ ¬ev.removes n k ∧ x.Quiet n k events (x.next w ev)

theorem quiet_append {x : Cache Memory} {events events' : List (Event ε)} :
    x.Quiet n k (events ++ events') w ↔ x.Quiet n k events w ∧
      x.Quiet n k events' (x.run events w) := by
  induction events generalizing w with
  | nil => simp [Quiet]
  | cons ev events ih => simp [Quiet, ih, and_assoc]

/-- The write is one of the session's, and its key was left alone ever after. -/
def LastWrite (x : Cache Memory) (n : Namespace) (events : List (Event ε)) (start : World Memory)
    (u : Write) : Prop :=
  ∃ earlier ev later, events = earlier ++ ev :: later ∧
    x.written? (x.run earlier start) ev = some u ∧
    x.Quiet n u.key later (x.run (earlier ++ [ev]) start)

theorem LastWrite.append {x : Cache Memory} {events : List (Event ε)} {start : World Memory}
    {ev : Event ε} {u : Write} (h : x.LastWrite n events start u)
    (hwrites : ∀ u', x.written? (x.run events start) ev = some u' → u'.key ≠ u.key)
    (hremoves : ¬ev.removes n u.key) : x.LastWrite n (events ++ [ev]) start u := by
  obtain ⟨earlier, ev', later, rfl, hu, hquiet⟩ := h
  refine ⟨earlier, ev', later ++ [ev], by simp, hu,
    quiet_append.mpr ⟨hquiet, ?_, hremoves, trivial⟩⟩
  rw [← run_append]
  simpa using hwrites

/-- Every slot comes from the last write of its key, at a time that is not ahead. -/
def Accounted (x : Cache Memory) (n : Namespace) (events : List (Event ε)) (start : World Memory) :
    Prop :=
  ∀ k s, (x.run events start).store.slots.find? (n.physical k) = some s →
    ∃ u, u.key = k ∧ u.slot = s ∧ u.clock.now ≤ (x.run events start).now ∧
      x.LastWrite n events start u

theorem accounted_next {events : List (Event ε)} {start : World Memory} {ev : Event ε}
    (h : (memory n methods).Accounted n events start)
    (horder : (memory n methods).InOrder [ev] ((memory n methods).run events start)) :
    (memory n methods).Accounted n (events ++ [ev]) start := by
  intro k s hs
  rw [run_append] at hs ⊢
  have hreadings := (memory n methods).readings_order horder
  by_cases hwrites : ∃ u, (memory n methods).written? ((memory n methods).run events start) ev =
    some u ∧ u.key = k
  · obtain ⟨u, hu, rfl⟩ := hwrites
    have hslot : u.slot = s := Option.some.inj ((find?_next_of_written hu).symm.trans hs)
    refine ⟨u, rfl, hslot, ?_, events, ev, [], rfl, hu, trivial⟩
    obtain ⟨hnext, hclock⟩ := next_of_written hu
    show u.clock.now ≤ ((memory n methods).next _ ev).clock.now
    rw [hnext, hclock]
    exact Int.le_refl _
  · have hwrites' : ∀ u, (memory n methods).written? ((memory n methods).run events start) ev =
        some u → u.key ≠ k :=
      fun u hu hk => hwrites ⟨u, hu, hk⟩
    have hremoves : ¬ev.removes n k := by
      intro hr
      exact absurd ((find?_next_of_removes hr).symm.trans hs) (by simp)
    obtain ⟨u, rfl, hslot, htime, hlast⟩ :=
      h k s ((next_undisturbed hreadings hwrites' hremoves).unwritten s hs)
    exact ⟨u, rfl, hslot, Int.le_trans htime ((memory n methods).le_next hreadings),
      hlast.append hwrites' hremoves⟩

theorem accounted_run {past events : List (Event ε)} {start : World Memory}
    (h : (memory n methods).Accounted n past start)
    (horder : (memory n methods).InOrder events ((memory n methods).run past start)) :
    (memory n methods).Accounted n (past ++ events) start := by
  induction events generalizing past with
  | nil => simpa using h
  | cons ev events ih =>
    have hone := accounted_next h ((memory n methods).inOrder_head horder)
    have hrest := (memory n methods).inOrder_next horder
    rw [List.append_cons]
    apply ih hone
    rwa [run_append]

theorem accounted_empty {start : World Memory} (h : start.store = {}) :
    (memory n methods).Accounted n ([] : List (Event ε)) start := by
  intro k s hs
  rw [run_nil, h] at hs
  cases hs.symm.trans (KeyMap.find?_empty (n.physical k))

end Cache
end ResponseCache
