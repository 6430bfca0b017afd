import ResponseCache.Inspection
import ResponseCache.Proofs.Slots
import ResponseCache.Engine.Basic

/-!
# A cache in use

Events are what can happen to a cache one after the other: requests, direct operations on its store,
and pauses, in which time passes and sweeps run. Pauses also fill the time that a handler takes. A
session runs a list of events and keeps the answers and the clock's readings.
-/
namespace ResponseCache

/-- A cache with what a sweep does to its store. -/
structure Cache (σ : Type) where
  engine : Engine σ
  sweep : Instant → σ → σ := fun _ s => s

inductive Pause
  | advance (d : Duration)
  | set (t : Instant)
  | sweep

structure Work (ε : Type) where
  pauses : List Pause := []
  outcome : Except ε Response

inductive Event (ε : Type)
  | pause (p : Pause)
  | execute (r : Request) (route : Declaration) (work : Work ε)
  | decide (r : Request) (route : Declaration)
  /-- The key is the one that the request is looked up by. -/
  | commit (r : Request) (response : Response) (hint : Option Declaration)
  | get (k : Key)
  | delete (k : Key)
  | deletePath (path : String)
  | deletePattern (pattern : String)
  | clear
  | entries
  | report

/-- Removals tell whether they succeeded and not how much they found: a store may hold items that it
does not show any more. -/
inductive Answer (ε : Type)
  | none
  | exchange (x : Exchange ε)
  | decision (d : Decision)
  | write (w : WriteResult)
  | entry (found : Except StoreError (Option Entry))
  | removal (done : Except StoreError Unit)
  | listing (found : Except StoreError (List (Key × Entry)))
  | report (found : Except StoreError Inspection.Report)

def Pause.reading (c : Clock) : Pause → Clock
  | advance d => c.advance d
  | set t => Clock.set t
  | sweep => c

def Pause.readings (c : Clock) : List Pause → List Clock
  | [] => []
  | p :: ps => p.reading c :: readings (p.reading c) ps

namespace World
variable {σ α : Type}

def perform (w : World σ) (act : Instant → Action σ α) : Except StoreError α × World σ :=
  ((act w.now w.store).1, { w with store := (act w.now w.store).2 })

def remove (w : World σ) (act : Instant → Action σ α) : Except StoreError Unit × World σ :=
  ((w.perform act).1.map fun _ => (), (w.perform act).2)

end World

namespace Cache
variable {σ ε : Type} (x : Cache σ)

def pause (w : World σ) : Pause → World σ
  | .sweep => { w with store := x.sweep w.now w.store }
  | p => { w with clock := p.reading w.clock }

def pauses (ps : List Pause) (w : World σ) : World σ := ps.foldl x.pause w

def handler (work : Work ε) : Handler σ ε := fun w => (work.outcome, x.pauses work.pauses w)

def step (w : World σ) : Event ε → Answer ε × World σ
  | .pause p => (.none, x.pause w p)
  | .execute r route work => (x.engine.execute r route (x.handler work) w).map .exchange id
  | .decide r route => (x.engine.decide r route w).map .decision id
  | .commit r response hint => (x.engine.commit (x.engine.keyOf r) response hint w).map .write id
  | .get k => (w.perform fun now => x.engine.backend.get now k).map .entry id
  | .delete k => (w.remove fun now => x.engine.backend.delete now k).map .removal id
  | .deletePath path => (w.remove fun now => x.engine.backend.deletePath now path).map .removal id
  | .deletePattern pattern =>
    (w.remove fun now => x.engine.backend.deletePattern now pattern).map .removal id
  | .clear => (w.remove x.engine.backend.clear).map .removal id
  | .entries => (w.perform x.engine.backend.entries).map .listing id
  | .report => (w.perform (Inspection.collect x.engine.backend)).map .report id

def next (w : World σ) (ev : Event ε) : World σ := (x.step w ev).2

def run (events : List (Event ε)) (w : World σ) : World σ := events.foldl x.next w

def answers : List (Event ε) → World σ → List (Answer ε)
  | [], _ => []
  | ev :: events, w => (x.step w ev).1 :: answers events (x.next w ev)

/-- What the clock shows during an event, one reading for each pause. -/
def readingsOf (w : World σ) : Event ε → List Clock
  | .pause p => [p.reading w.clock]
  | .execute r route work =>
    if (x.engine.execute r route (x.handler work) w).1.handlerRan then
      Pause.readings w.clock work.pauses else []
  | _ => []

def readings : List (Event ε) → World σ → List Clock
  | [], _ => []
  | ev :: events, w => x.readingsOf w ev ++ readings events (x.next w ev)

def InOrder (events : List (Event ε)) (w : World σ) : Prop :=
  (w.clock :: x.readings events w).Pairwise fun a b => a.now ≤ b.now

instance (events : List (Event ε)) (w : World σ) : Decidable (x.InOrder events w) :=
  inferInstanceAs (Decidable (List.Pairwise _ _))

@[simp] theorem run_nil (w : World σ) : x.run ([] : List (Event ε)) w = w := rfl

@[simp] theorem run_cons (ev : Event ε) (events : List (Event ε)) (w : World σ) :
    x.run (ev :: events) w = x.run events (x.next w ev) := rfl

theorem run_append (events events' : List (Event ε)) (w : World σ) :
    x.run (events ++ events') w = x.run events' (x.run events w) := List.foldl_append

theorem readings_append (events events' : List (Event ε)) (w : World σ) :
    x.readings (events ++ events') w = x.readings events w ++
      x.readings events' (x.run events w) := by
  induction events generalizing w with
  | nil => rfl
  | cons ev events ih => simp [readings, ih]

@[simp] theorem pauses_cons (p : Pause) (ps : List Pause) (w : World σ) :
    x.pauses (p :: ps) w = x.pauses ps (x.pause w p) := rfl

@[simp] theorem pause_clock (w : World σ) (p : Pause) :
    (x.pause w p).clock = p.reading w.clock := by
  cases p <;> rfl

theorem pauses_clock (ps : List Pause) (w : World σ) :
    (x.pauses ps w).clock = (Pause.readings w.clock ps).getLastD w.clock := by
  induction ps generalizing w with
  | nil => rfl
  | cons p ps ih => rw [pauses_cons, ih, pause_clock, Pause.readings, List.getLastD_cons]

private theorem pairwise_from_last {α : Type} {R : α → α → Prop} {c : α} {as bs : List α}
    (h : (c :: (as ++ bs)).Pairwise R) : (as.getLastD c :: bs).Pairwise R := by
  induction as generalizing c with
  | nil => exact h
  | cons a as ih =>
    rw [List.getLastD_cons]
    exact ih (List.pairwise_cons.mp h).2

private theorem le_last {c : Clock} {cs : List Clock}
    (h : (c :: cs).Pairwise fun a b => a.now ≤ b.now) : c.now ≤ (cs.getLastD c).now := by
  cases cs with
  | nil => exact Int.le_refl _
  | cons a cs =>
    apply (List.pairwise_cons.mp h).1 _
    rw [List.getLastD_cons]
    exact List.getLastD_mem_cons ..

theorem le_pauses {ps : List Pause} {w : World σ}
    (h : (w.clock :: Pause.readings w.clock ps).Pairwise fun a b => a.now ≤ b.now) :
    w.now ≤ (x.pauses ps w).now := by
  show w.clock.now ≤ (x.pauses ps w).clock.now
  rw [pauses_clock]
  exact le_last h

end Cache

namespace Engine
variable {σ ε : Type} (e : Engine σ) (r : Request) (route : Declaration) (handler : Handler σ ε)
  (w : World σ)

/-- An execution is answered from the store, or its handler fails, or its handler's response is
written back. -/
theorem execute_cases :
    (∃ response, (e.decide r route w).1.cachedResponse (e.decide r route w).2.now = some response ∧
      e.execute r route handler w = (⟨.ok response, false⟩, (e.decide r route w).2)) ∨
    (e.decide r route w).1.cachedResponse (e.decide r route w).2.now = none ∧
      ((∃ failure, (handler (e.decide r route w).2).1 = .error failure ∧
        e.execute r route handler w =
          (⟨recover (e.decide r route w).1 failure (handler (e.decide r route w).2).2.now, true⟩,
            (handler (e.decide r route w).2).2)) ∨
      ∃ response, (handler (e.decide r route w).2).1 = .ok response ∧
        e.execute r route handler w = (⟨.ok (deliver r (response.stamp route)), true⟩,
          e.writeBack (e.decide r route w).1 (response.stamp route) route
            (handler (e.decide r route w).2).2)) := by
  rw [execute]
  generalize e.decide r route w = found
  obtain ⟨d, w⟩ := found
  cases hc : d.cachedResponse w.now with
  | some response => exact .inl ⟨response, rfl, by simp [hc]⟩
  | none =>
    refine .inr ⟨rfl, ?_⟩
    generalize hh : handler w = result
    obtain ⟨outcome, w'⟩ := result
    cases outcome with
    | error failure => exact .inl ⟨failure, rfl, by simp [hc, hh]⟩
    | ok response => exact .inr ⟨response, rfl, by simp [hc, hh]⟩

theorem handlerRan_iff : (e.execute r route handler w).1.handlerRan = true ↔
    (e.decide r route w).1.cachedResponse (e.decide r route w).2.now = none := by
  rcases e.execute_cases r route handler w with ⟨_, hc, h⟩ | ⟨hc, ⟨_, -, h⟩ | ⟨_, -, h⟩⟩
  · simp [h, hc]
  · simp [h, hc]
  · simp [h, hc]

@[simp] theorem decide_key : (e.decide r route w).1.key = e.keyOf r := by
  simp only [decide]
  split
  · rfl
  · split
    · rfl
    · split <;> rfl

@[simp] theorem decide_clock : (e.decide r route w).2.clock = w.clock := by
  simp only [decide]
  split
  · rfl
  · split
    · rfl
    · split <;> rfl

@[simp] theorem commit_clock (key : Key) (response : Response) (hint : Option Declaration) :
    (e.commit key response hint w).2.clock = w.clock := by
  simp only [commit]
  split
  · rfl
  · split <;> rfl

@[simp] theorem writeBack_clock (d : Decision) (response : Response) :
    (e.writeBack d response route w).clock = w.clock := by
  rw [writeBack]
  split
  · exact commit_clock ..
  · rfl

end Engine

namespace Cache
variable {σ ε : Type} (x : Cache σ)

theorem next_clock (w : World σ) (ev : Event ε) :
    (x.next w ev).clock = (x.readingsOf w ev).getLastD w.clock := by
  cases ev with
  | pause p => exact x.pause_clock w p
  | execute r route work =>
    show (x.engine.execute r route (x.handler work) w).2.clock = _
    rw [readingsOf]
    rcases x.engine.execute_cases r route (x.handler work) w
      with ⟨_, -, h⟩ | ⟨-, ⟨_, -, h⟩ | ⟨_, -, h⟩⟩
    · simp [h]
    · simp [h, handler, pauses_clock]
    · simp [h, handler, pauses_clock]
  | decide r route => exact x.engine.decide_clock r route w
  | commit r response hint => exact x.engine.commit_clock w _ response hint
  | _ => rfl

theorem readings_order {events : List (Event ε)} {ev : Event ε} {w : World σ}
    (h : x.InOrder (ev :: events) w) :
    (w.clock :: x.readingsOf w ev).Pairwise fun a b => a.now ≤ b.now :=
  List.Pairwise.sublist ((List.sublist_append_left _ _).cons_cons _) h

theorem inOrder_head {events : List (Event ε)} {ev : Event ε} {w : World σ}
    (h : x.InOrder (ev :: events) w) : x.InOrder [ev] w := by
  have hreadings := x.readings_order h
  simpa [InOrder, readings] using hreadings

theorem inOrder_of_append {events events' : List (Event ε)} {w : World σ}
    (h : x.InOrder (events ++ events') w) : x.InOrder events w := by
  unfold InOrder at *
  rw [readings_append] at h
  exact List.Pairwise.sublist ((List.sublist_append_left _ _).cons_cons _) h

theorem le_next {w : World σ} {ev : Event ε}
    (h : (w.clock :: x.readingsOf w ev).Pairwise fun a b => a.now ≤ b.now) :
    w.now ≤ (x.next w ev).now := by
  show w.clock.now ≤ (x.next w ev).clock.now
  rw [next_clock]
  exact le_last h

theorem inOrder_next {events : List (Event ε)} {ev : Event ε} {w : World σ}
    (h : x.InOrder (ev :: events) w) : x.InOrder events (x.next w ev) := by
  rw [InOrder]
  rw [next_clock]
  exact pairwise_from_last h

theorem inOrder_run {events events' : List (Event ε)} {w : World σ}
    (h : x.InOrder (events ++ events') w) : x.InOrder events' (x.run events w) := by
  induction events generalizing w with
  | nil => exact h
  | cons ev events ih => exact ih (x.inOrder_next h)

end Cache
end ResponseCache
