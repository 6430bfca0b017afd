import Mathlib.Logic.Function.Basic
import ResponseCache.Memory.Sweep
import ResponseCache.Proofs.Coupling

/-!
# Sweeps cannot be seen

Caches share one memory, each through a namespace and with an engine of its own, and their
executions overlap. A sweep drops slots that cannot be read any more and that no later time makes
readable. So runs that differ in their sweeps alone keep the same readable slots, and tell the same.
-/
namespace ResponseCache

namespace Memory

def SameLive (now : Instant) (m m' : Memory) : Prop :=
  ∀ name, (m.slots.find? name).filter (·.isLive now) = (m'.slots.find? name).filter (·.isLive now)

namespace SameLive
variable {now : Instant} {m m' m'' : Memory}

theorem refl (now : Instant) (m : Memory) : SameLive now m m := fun _ => rfl

theorem symm (h : SameLive now m m') : SameLive now m' m := fun name => (h name).symm

theorem trans (h : SameLive now m m') (h' : SameLive now m' m'') : SameLive now m m'' :=
  fun name => (h name).trans (h' name)

theorem find?_iff (h : SameLive now m m') {name : String} {slot : Slot}
    (hlive : slot.isLive now = true) :
    m.slots.find? name = some slot ↔ m'.slots.find? name = some slot := by
  have hfilter := congrArg (· = some slot) (h name)
  simpa [Option.filter_eq_some_iff, hlive] using hfilter

/-- What has expired does not come back. -/
theorem later {later : Instant} (h : SameLive now m m') (hle : now ≤ later) :
    SameLive later m m' := by
  intro name
  have htwice : ∀ slot? : Option Slot,
      slot?.filter (·.isLive later) = (slot?.filter (·.isLive now)).filter (·.isLive later) := by
    intro slot?
    rw [Option.filter_filter]
    apply congrArg (Option.filter · slot?)
    funext slot
    cases hlive : slot.isLive later with
    | true => simp [Slot.isLive_mono hle hlive]
    | false => simp
  rw [htwice, h name, ← htwice]

theorem filter (h : SameLive now m m') (keep : String → Slot → Bool) :
    SameLive now ⟨m.slots.filter keep⟩ ⟨m'.slots.filter keep⟩ := by
  intro name
  have hswap : ∀ slot? : Option Slot,
      (slot?.filter (keep name)).filter (·.isLive now) =
        (slot?.filter (·.isLive now)).filter (keep name) := by
    intro slot?
    rw [Option.filter_filter, Option.filter_filter]
    apply congrArg (Option.filter · slot?)
    funext slot
    exact Bool.and_comm ..
  rw [KeyMap.find?_filter, KeyMap.find?_filter, hswap, hswap, h name]

theorem set (h : SameLive now m m') (n : Namespace) (written : Instant) (k : Key) (e : Entry)
    (ttl : Option Duration) :
    SameLive now (m.set n written k e ttl) (m'.set n written k e ttl) := by
  intro name
  rw [find?_set, find?_set]
  split
  · rfl
  · exact h name

theorem get_eq (h : SameLive now m m') (n : Namespace) (k : Key) : m.get n now k = m'.get n now k :=
  congrArg (Option.map Slot.entry) (h (n.physical k))

theorem entries_eq (h : SameLive now m m') (n : Namespace) :
    m.entries n now = m'.entries n now := by
  apply Ascending.eq_of_mem_iff (entries_ascending n now m) (entries_ascending n now m')
  rintro ⟨k, e⟩
  rw [mem_entries, mem_entries, h.get_eq]

end SameLive

/-- A sweep through any handle keeps what can be read. -/
theorem sweep_sameLive (n : Namespace) (now : Instant) (m : Memory) :
    SameLive now (m.sweep n now).2 m := by
  intro name
  rw [sweep, removeWhere, KeyMap.find?_filter, Option.filter_filter]
  apply congrArg (Option.filter · (m.slots.find? name))
  funext slot
  cases hlive : slot.isLive now with
  | false => simp
  | true => cases n.logical? name with
    | none => rfl
    | some k => simp

/-- A sweep in the background, by a task in any state while any task time passes, keeps what can be
read. -/
theorem pass_sameLive (t : SweepTask) (d : Duration) (now : Instant) (m : Memory) :
    SameLive now (t.pass d now m).2 m := by
  rw [SweepTask.pass]
  split
  · exact .refl now m
  · dsimp only
    split
    · exact .refl now m
    · exact sweep_sameLive t.space now m

end Memory

/-- A handle on a memory and the engine that works through it. -/
structure Tenant where
  space : Namespace
  keyOf : Request → Key := Key.ofRequest
  methods : List Method := [.get]

def Tenant.engine (t : Tenant) : Engine Memory where
  backend := Memory.backend t.space
  keyOf := t.keyOf
  methods := t.methods

/-- An engine cannot tell apart memories with the same readable slots. -/
theorem Tenant.engine_coupled (t : Tenant) :
    t.engine.Coupled t.engine (fun _ => True) (fun _ => True) Memory.SameLive where
  keyOf := rfl
  methods := rfl
  get {_ _ _ k} h _ := ⟨congrArg Except.ok (h.get_eq t.space k), h⟩
  set {u _ _} h _ := ⟨rfl, h.set t.space u.clock.now u.key u.entry u.policy.storageTtl⟩

namespace Sharing

/-- Through any handle, or by a task in the background while some of its time passes. -/
inductive Sweep
  | through (n : Namespace)
  | task (t : SweepTask) (passed : Duration)

def Sweep.run (now : Instant) (m : Memory) : Sweep → Memory
  | through n => (m.sweep n now).2
  | task t passed => (t.pass passed now m).2

/-- An execution is two events, so that anything may happen while its handler runs. Its number tells
it from others that overlap with it. -/
inductive Event (ε : Type)
  | advance (d : Duration)
  | setClock (t : Instant)
  | sweep (s : Sweep)
  | set (n : Namespace) (k : Key) (e : Entry) (ttl : Option Duration)
  | get (n : Namespace) (k : Key)
  | delete (n : Namespace) (k : Key)
  | deletePath (n : Namespace) (path : String)
  | deletePattern (n : Namespace) (pattern : String)
  | clear (n : Namespace)
  | entries (n : Namespace)
  | report (n : Namespace)
  | decide (t : Tenant) (r : Request) (route : Declaration)
  | commit (t : Tenant) (key : Key) (response : Response) (hint : Option Declaration)
  | start (number : Nat) (t : Tenant) (r : Request) (route : Declaration)
  | finish (number : Nat) (outcome : Except ε Response)

structure Running where
  tenant : Tenant
  request : Request
  route : Declaration
  decision : Decision

structure State where
  world : World Memory
  running : Nat → Option Running := fun _ => none

def State.now (s : State) : Instant := s.world.now

variable {ε α : Type}

def State.via (s : State) (x : α × World Memory) (answer : α → Answer ε) : Answer ε × State :=
  (answer x.1, { s with world := x.2 })

/-- The first half of an execution: it is answered from the store, or its handler begins to run. -/
def State.start (s : State) (number : Nat) (t : Tenant) (r : Request) (route : Declaration) :
    Answer ε × State :=
  let (d, world) := t.engine.decide r route s.world
  match d.cachedResponse world.now with
  | some response => (.exchange ⟨.ok response, false⟩, { s with world })
  | none => (.none, { world, running := Function.update s.running number (some ⟨t, r, route, d⟩) })

def State.finish (s : State) (number : Nat) (outcome : Except ε Response) : Answer ε × State :=
  match s.running number with
  | none => (.none, s)
  | some x =>
    let (exchange, world) := x.tenant.engine.finish x.request x.route x.decision outcome s.world
    (.exchange exchange, { world, running := Function.update s.running number none })

def step (s : State) : Event ε → Answer ε × State
  | .advance d => (.none, { s with world := { s.world with clock := s.world.clock.advance d } })
  | .setClock t => (.none, { s with world := { s.world with clock := .set t } })
  | .sweep how => (.none, { s with world := { s.world with store := how.run s.now s.world.store } })
  | .set n k e ttl =>
    s.via (s.world.perform fun now => (Memory.backend n).set now k e ttl) fun _ => .none
  | .get n k => s.via (s.world.perform fun now => (Memory.backend n).get now k) .entry
  | .delete n k => s.via (s.world.remove fun now => (Memory.backend n).delete now k) .removal
  | .deletePath n path =>
    s.via (s.world.remove fun now => (Memory.backend n).deletePath now path) .removal
  | .deletePattern n pattern =>
    s.via (s.world.remove fun now => (Memory.backend n).deletePattern now pattern) .removal
  | .clear n => s.via (s.world.remove (Memory.backend n).clear) .removal
  | .entries n => s.via (s.world.perform (Memory.backend n).entries) .listing
  | .report n => s.via (s.world.perform (Inspection.collect (Memory.backend n))) .report
  | .decide t r route => s.via (t.engine.decide r route s.world) .decision
  | .commit t key response hint => s.via (t.engine.commit key response hint s.world) .write
  | .start number t r route => s.start number t r route
  | .finish number outcome => s.finish number outcome

def next (s : State) (ev : Event ε) : State := (step s ev).2

def run (events : List (Event ε)) (s : State) : State := events.foldl next s

def Event.isSweep : Event ε → Bool
  | .sweep _ => true
  | _ => false

def unswept (events : List (Event ε)) : List (Event ε) := events.filter fun ev => !ev.isSweep

/-- What the events tell, one after the other. Sweeps tell nothing. -/
def answers : List (Event ε) → State → List (Answer ε)
  | [], _ => []
  | ev :: events, s =>
    if ev.isSweep then answers events (next s ev) else (step s ev).1 :: answers events (next s ev)

def readings (c : Clock) : List (Event ε) → List Clock
  | [] => []
  | .advance d :: events => c.advance d :: readings (c.advance d) events
  | .setClock t :: events => .set t :: readings (.set t) events
  | _ :: events => readings c events

def InOrder (events : List (Event ε)) (c : Clock) : Prop :=
  (c :: readings c events).Pairwise fun a b => a.now ≤ b.now

instance (events : List (Event ε)) (c : Clock) : Decidable (InOrder events c) :=
  inferInstanceAs (Decidable (List.Pairwise _ _))

/-- An execution in one call is its two halves, with the work of its handler between them: the
handler may do anything to the world, and others may start and finish meanwhile. -/
theorem execute_halves (s : State) (number : Nat) (t : Tenant) (r : Request) (route : Declaration)
    (handler : Handler Memory ε) :
    let started : Answer ε × State := s.start number t r route
    (∃ x, started =
      (.exchange x, { s with world := (t.engine.execute r route handler s.world).2 }) ∧
      x = (t.engine.execute r route handler s.world).1) ∨
    started.1 = .none ∧ ∀ running, running number = started.2.running number →
      (State.finish ⟨(handler started.2.world).2, running⟩ number (handler started.2.world).1 :
        Answer ε × State) = (.exchange (t.engine.execute r route handler s.world).1,
          ⟨(t.engine.execute r route handler s.world).2, Function.update running number none⟩) := by
  intro started
  simp only [started, State.start, Engine.execute_eq_finish]
  cases hc : (t.engine.decide r route s.world).1.cachedResponse
    (t.engine.decide r route s.world).2.now with
  | some response => exact .inl ⟨_, rfl, rfl⟩
  | none =>
    refine .inr ⟨rfl, ?_⟩
    intro running hrunning
    dsimp only at hrunning ⊢
    rw [Function.update_self] at hrunning
    simp only [State.finish, hrunning]

theorem readings_unswept (events : List (Event ε)) (c : Clock) :
    readings c (unswept events) = readings c events := by
  induction events generalizing c with
  | nil => rfl
  | cons ev events ih =>
    cases ev with
    | advance d => exact congrArg (c.advance d :: ·) (ih _)
    | setClock t => exact congrArg (Clock.set t :: ·) (ih _)
    | _ => exact ih c

theorem start_clock (s : State) (number : Nat) (t : Tenant) (r : Request) (route : Declaration) :
    (s.start number t r route : Answer ε × State).2.world.clock = s.world.clock := by
  rw [State.start]
  dsimp only
  split
  · exact t.engine.decide_clock r route s.world
  · exact t.engine.decide_clock r route s.world

theorem finish_clock (s : State) (number : Nat) (outcome : Except ε Response) :
    (s.finish number outcome).2.world.clock = s.world.clock := by
  rw [State.finish]
  split
  · rfl
  · cases outcome with
    | error failure => rfl
    | ok response => exact Engine.writeBack_clock ..

theorem inOrder_next {ev : Event ε} {events : List (Event ε)} {s : State}
    (h : InOrder (ev :: events) s.world.clock) : InOrder events (next s ev).world.clock := by
  cases ev with
  | advance d => exact (List.pairwise_cons.mp h).2
  | setClock t => exact (List.pairwise_cons.mp h).2
  | decide t r route =>
    show InOrder events (t.engine.decide r route s.world).2.clock
    rw [Engine.decide_clock]
    exact h
  | commit t key response hint =>
    show InOrder events (t.engine.commit key response hint s.world).2.clock
    rw [Engine.commit_clock]
    exact h
  | start number t r route =>
    show InOrder events (s.start number t r route : Answer ε × State).2.world.clock
    rw [start_clock]
    exact h
  | finish number outcome =>
    show InOrder events (s.finish number outcome).2.world.clock
    rw [finish_clock]
    exact h
  | _ => exact h

structure Alike (s s' : State) : Prop where
  world : World.Related Memory.SameLive s.world s'.world
  running : s.running = s'.running

namespace Alike
variable {s s' s'' : State}

theorem refl (s : State) : Alike s s := ⟨⟨rfl, .refl _ _⟩, rfl⟩

theorem symm (h : Alike s s') : Alike s' s := by
  refine ⟨⟨h.world.clock.symm, ?_⟩, h.running.symm⟩
  rw [h.world.now_eq]
  exact h.world.stores.symm

theorem trans (h : Alike s s') (h' : Alike s' s'') : Alike s s'' := by
  refine ⟨⟨h.world.clock.trans h'.world.clock, ?_⟩, h.running.trans h'.running⟩
  have hstores := h'.world.stores
  rw [h.world.now_eq] at hstores
  exact h.world.stores.trans hstores

theorem via {α : Type} (h : Alike s s') {x y : α × World Memory}
    (hxy : Matched (World.Related Memory.SameLive) x y) (answer : α → Answer ε) :
    Matched Alike (s.via x answer) (s'.via y answer) :=
  ⟨congrArg answer hxy.answer, hxy.state, h.running⟩

/-- Sweeps lead to a state that cannot be told apart from the one before. -/
theorem sweep (s : State) (how : Sweep) : Alike (next s (.sweep how : Event ε)) s := by
  refine ⟨⟨rfl, ?_⟩, rfl⟩
  cases how with
  | through n => exact Memory.sweep_sameLive n s.now s.world.store
  | task t passed => exact Memory.pass_sameLive t passed s.now s.world.store

theorem moved (h : Alike s s') {c : Clock} (hle : s.now ≤ c.now) :
    Alike { s with world := { s.world with clock := c } }
      { s' with world := { s'.world with clock := c } } :=
  ⟨⟨rfl, h.world.stores.later hle⟩, h.running⟩

theorem start (h : Alike s s') (number : Nat) (t : Tenant) (r : Request) (route : Declaration) :
    Matched Alike (s.start number t r route : Answer ε × State) (s'.start number t r route) := by
  obtain ⟨d, w, w', hd, hd', hsame⟩ :=
    (t.engine_coupled.decide h.world (r := r) route trivial).exists_eq
  simp only [State.start, hd, hd', hsame.now_eq]
  cases d.cachedResponse w.now with
  | some response => exact ⟨rfl, hsame, h.running⟩
  | none =>
    refine ⟨rfl, hsame, ?_⟩
    rw [h.running]

theorem finish (h : Alike s s') (number : Nat) (outcome : Except ε Response) :
    Matched Alike (s.finish number outcome) (s'.finish number outcome) := by
  rw [State.finish, State.finish, ← h.running]
  cases s.running number with
  | none => exact ⟨rfl, h⟩
  | some x =>
    have hmatched : Matched (World.Related Memory.SameLive)
        (x.tenant.engine.finish x.request x.route x.decision outcome s.world)
        (x.tenant.engine.finish x.request x.route x.decision outcome s'.world) :=
      x.tenant.engine_coupled.finish h.world x.request x.route fun _ _ _ _ _ => trivial
    refine ⟨congrArg Answer.exchange hmatched.answer, hmatched.state, ?_⟩
    rfl

/-- What is no sweep tells the same. -/
theorem step (h : Alike s s') {ev : Event ε} (hev : ev.isSweep = false) {events : List (Event ε)}
    (horder : InOrder (ev :: events) s.world.clock) :
    Matched Alike (Sharing.step s ev) (Sharing.step s' ev) := by
  have hstores := h.world.stores
  cases ev with
  | sweep how => cases hev
  | advance d =>
    have hle := (List.pairwise_cons.mp horder).1 _ List.mem_cons_self
    refine ⟨rfl, ?_⟩
    show Alike { s with world := { s.world with clock := s.world.clock.advance d } }
      { s' with world := { s'.world with clock := s'.world.clock.advance d } }
    rw [← h.world.clock]
    exact h.moved hle
  | setClock t => exact ⟨rfl, h.moved ((List.pairwise_cons.mp horder).1 _ List.mem_cons_self)⟩
  | set n k e ttl =>
    refine h.via ?_ fun _ => Answer.none
    apply h.world.perform
    exact ⟨rfl, hstores.set n s.now k e ttl⟩
  | get n k =>
    apply h.via
    apply h.world.perform
    exact ⟨congrArg Except.ok (hstores.get_eq n k), hstores⟩
  | delete n k =>
    apply h.via
    apply h.world.remove
    exact ⟨rfl, hstores.filter _⟩
  | deletePath n path =>
    apply h.via
    apply h.world.remove
    exact ⟨rfl, hstores.filter _⟩
  | deletePattern n pattern =>
    apply h.via
    apply h.world.remove
    show Matched _ (uncounted (Memory.deletePattern n pattern _))
      (uncounted (Memory.deletePattern n pattern _))
    rw [Memory.deletePattern, Memory.deletePattern]
    split
    · exact ⟨rfl, hstores⟩
    · exact ⟨rfl, hstores.filter _⟩
  | clear n =>
    apply h.via
    apply h.world.remove
    exact ⟨rfl, hstores.filter _⟩
  | entries n =>
    apply h.via
    apply h.world.perform
    exact ⟨congrArg Except.ok (hstores.entries_eq n), hstores⟩
  | report n =>
    apply h.via
    apply h.world.perform
    apply Inspection.collect_matched
    exact ⟨congrArg Except.ok (hstores.entries_eq n), hstores⟩
  | decide t r route => exact h.via (t.engine_coupled.decide h.world route trivial) _
  | commit t key response hint => exact h.via (t.engine_coupled.commit h.world fun _ _ => trivial) _
  | start number t r route => exact h.start number t r route
  | finish number outcome => exact h.finish number outcome

end Alike

/-- A run tells what it tells without its sweeps, and ends in a state like it. -/
theorem answers_unswept {events : List (Event ε)} {s s' : State} (h : Alike s s')
    (horder : InOrder events s.world.clock) :
    answers events s = answers (unswept events) s' ∧
      Alike (run events s) (run (unswept events) s') := by
  induction events generalizing s s' with
  | nil => exact ⟨rfl, h⟩
  | cons ev events ih =>
    have hnext := inOrder_next horder
    cases hev : ev.isSweep with
    | true =>
      have hsame : Alike (next s ev) s' := by
        cases ev with
        | sweep how => exact (Alike.sweep s how).trans h
        | _ => cases hev
      rw [answers, if_pos hev, unswept, List.filter_cons_of_neg (by simp [hev])]
      exact ih hsame hnext
    | false =>
      have hstep := h.step hev horder
      obtain ⟨hanswers, hrun⟩ := ih hstep.state hnext
      rw [unswept, List.filter_cons_of_pos (by simp [hev]), answers, answers,
        if_neg (by simp [hev]), if_neg (by simp [hev]), hstep.answer]
      exact ⟨congrArg _ hanswers, hrun⟩

/-- Two runs from one state that differ in their sweeps alone, wherever these are and whoever does
them, tell the same. The clock shows the same in the end, and the memories differ in slots that have
expired by then and in no others. -/
theorem sweeps_unseen {events events' : List (Event ε)} (hsame : unswept events = unswept events')
    (s : State) (horder : InOrder events s.world.clock) :
    answers events s = answers events' s ∧ (run events s).now = (run events' s).now ∧
      ∀ name slot, slot.isLive (run events s).now = true →
        ((run events s).world.store.slots.find? name = some slot ↔
          (run events' s).world.store.slots.find? name = some slot) := by
  have horder' : InOrder events' s.world.clock := by
    rwa [InOrder, ← readings_unswept, ← hsame, readings_unswept]
  obtain ⟨hanswers, hrun⟩ := answers_unswept (.refl s) horder
  obtain ⟨hanswers', hrun'⟩ := answers_unswept (.refl s) horder'
  rw [← hsame] at hanswers' hrun'
  have hend := hrun.trans hrun'.symm
  exact ⟨hanswers.trans hanswers'.symm, hend.world.now_eq.symm,
    fun name slot hlive => hend.world.stores.find?_iff hlive⟩

/-- Entries of two tenants expire. In one run a handle and, while a handler runs, a task in the
background take them; in the other nobody does. -/
theorem sweeps_unseen_two_tenants :
    let a : Namespace := ⟨"a:"⟩
    let b : Namespace := ⟨"b:"⟩
    let e : Entry :=
      { etag := "", content := [], status := .ok, headers := {}, storedAt := .epoch,
        expiresAt := none, policy := {} }
    let r : Request := { host := "localhost", path := "/" }
    let response : Response := { headers := ⟨[("Cache-Control", "max-age=60")]⟩ }
    let before : List (Event Unit) :=
      [.set a ⟨"k"⟩ e (some (.ofSeconds 1)), .set b ⟨"k"⟩ e (some (.ofSeconds 1)),
        .advance (.ofSeconds 5)]
    let after : List (Event Unit) := [.finish 0 (.ok response), .entries a, .get b ⟨"k"⟩]
    let swept := before ++ [.sweep (.through a), .start 0 { space := a } r {},
      .sweep (.task { space := b, period := .ofSeconds 2 } (.ofSeconds 2))] ++ after
    let unswept := before ++ [.start 0 { space := a } r {}] ++ after
    let s : State := { world := ⟨⟨0⟩, {}⟩ }
    answers swept s = answers unswept s ∧
      (run swept s).world.store.slots.keys = ["a:GET|||localhost|||/|||"] ∧
      (run unswept s).world.store.slots.keys = ["a:GET|||localhost|||/|||", "a:k", "b:k"] := by
  intro a b e r response before after swept unswept s
  obtain ⟨hanswers, -, -⟩ :=
    sweeps_unseen (show Sharing.unswept swept = Sharing.unswept unswept from rfl) s
      (by decide +kernel)
  exact ⟨hanswers, by decide +kernel, by decide +kernel⟩

end Sharing
end ResponseCache
