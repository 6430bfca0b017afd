import ResponseCache.Proofs.Writes

/-!
# Engines side by side

Two engines over related stores answer alike as long as their lookups are of keys that the relation
knows and their writes are ones that fit it. What is known and what fits is left open: it may be
everything, or no more than one session uses.
-/
namespace ResponseCache

variable {σ τ : Type}

structure Matched {α : Type} (R : σ → τ → Prop) (x : α × σ) (y : α × τ) : Prop where
  answer : x.1 = y.1
  state : R x.2 y.2

theorem Matched.exists_eq {α : Type} {R : σ → τ → Prop} {x : α × σ} {y : α × τ}
    (h : Matched R x y) : ∃ a s t, x = (a, s) ∧ y = (a, t) ∧ R s t :=
  ⟨x.1, x.2, y.2, rfl, Prod.ext h.answer.symm rfl, h.state⟩

theorem Matched.map {α β : Type} {R : σ → τ → Prop} {x : α × σ} {y : α × τ} (h : Matched R x y)
    (f : α → β) : Matched R (x.map f id) (y.map f id) :=
  ⟨congrArg f h.answer, h.state⟩

def uncounted {α : Type} (x : Except StoreError α × σ) : Except StoreError Unit × σ :=
  (x.1.map fun _ => (), x.2)

/-- Listings that match make reports that match. -/
theorem Inspection.collect_matched {b : Backend σ} {b' : Backend τ} {now : Instant} {s : σ} {t : τ}
    {R : σ → τ → Prop} (h : Matched R (b.entries now s) (b'.entries now t)) :
    Matched R (collect b now s) (collect b' now t) := by
  obtain ⟨answer, s', t', hs, ht, hstores⟩ := h.exists_eq
  rw [collect, collect, hs, ht]
  cases answer with
  | error => exact ⟨rfl, hstores⟩
  | ok => exact ⟨rfl, hstores⟩

structure World.Related (R : Instant → σ → τ → Prop) (w : World σ) (v : World τ) : Prop where
  clock : w.clock = v.clock
  stores : R w.now w.store v.store

namespace World.Related
variable {R : Instant → σ → τ → Prop} {w : World σ} {v : World τ} {α : Type}

theorem now_eq (h : Related R w v) : v.now = w.now := congrArg Clock.now h.clock.symm

theorem perform (h : Related R w v) {act : Instant → Action σ α} {act' : Instant → Action τ α}
    (hact : Matched (R w.now) (act w.now w.store) (act' w.now v.store)) :
    Matched (Related R) (w.perform act) (v.perform act') := by
  unfold World.perform
  rw [h.now_eq]
  exact ⟨hact.answer, h.clock, hact.state⟩

theorem remove (h : Related R w v) {act : Instant → Action σ α} {act' : Instant → Action τ α}
    (hact : Matched (R w.now) (uncounted (act w.now w.store)) (uncounted (act' w.now v.store))) :
    Matched (Related R) (w.remove act) (v.remove act') := by
  unfold World.remove World.perform
  rw [h.now_eq]
  exact ⟨hact.answer, h.clock, hact.state⟩

end World.Related

namespace Engine
variable {ε : Type}

/-- What is left of an execution once its handler has come to an outcome. -/
def finish (e : Engine σ) (r : Request) (route : Declaration) (d : Decision)
    (outcome : Except ε Response) (w : World σ) : Exchange ε × World σ :=
  match outcome with
  | .error failure => (⟨recover d failure w.now, true⟩, w)
  | .ok response =>
    (⟨.ok (deliver r (response.stamp route)), true⟩, e.writeBack d (response.stamp route) route w)

/-- An execution is a decision, and if that has no answer, a run of the handler with what is left to
do after it. -/
theorem execute_eq_finish (e : Engine σ) (r : Request) (route : Declaration) (handler : Handler σ ε)
    (w : World σ) :
    e.execute r route handler w =
      match (e.decide r route w).1.cachedResponse (e.decide r route w).2.now with
      | some response => (⟨.ok response, false⟩, (e.decide r route w).2)
      | none => e.finish r route (e.decide r route w).1 (handler (e.decide r route w).2).1
        (handler (e.decide r route w).2).2 := by
  rw [execute]
  generalize e.decide r route w = found
  obtain ⟨d, w⟩ := found
  cases hc : d.cachedResponse w.now with
  | some response => simp [hc]
  | none =>
    generalize hh : handler w = result
    obtain ⟨_ | _, w'⟩ := result
    · simp [hc, hh, finish]
    · simp [hc, hh, finish]

/-- Two engines with the same settings, over stores with a relation that lookups of known keys and
fitting writes keep, and that they cannot tell apart by them. -/
structure Coupled (e : Engine σ) (f : Engine τ) (known : Key → Prop) (fits : Write → Prop)
    (R : Instant → σ → τ → Prop) : Prop where
  keyOf : e.keyOf = f.keyOf
  methods : e.methods = f.methods
  get : ∀ {now s t k}, R now s t → known k →
    Matched (R now) (e.backend.get now k s) (f.backend.get now k t)
  set : ∀ {u : Write} {s t}, R u.clock.now s t → fits u → Matched (R u.clock.now)
    (e.backend.set u.clock.now u.key u.entry u.policy.storageTtl s)
    (f.backend.set u.clock.now u.key u.entry u.policy.storageTtl t)

namespace Coupled
variable {e : Engine σ} {f : Engine τ} {known : Key → Prop} {fits : Write → Prop}
  {R : Instant → σ → τ → Prop} {w : World σ} {v : World τ}

theorem decide (hef : e.Coupled f known fits R) (h : World.Related R w v) {r : Request}
    (route : Declaration) (hknown : known (e.keyOf r)) :
    Matched (World.Related R) (e.decide r route w) (f.decide r route v) := by
  obtain ⟨answer, s, t, he, hf, hstores⟩ := (hef.get h.stores hknown).exists_eq
  simp only [Engine.decide, ← hef.keyOf, ← hef.methods, h.now_eq, he, hf]
  have hsame : World.Related R { w with store := s } { v with store := t } := ⟨h.clock, hstores⟩
  split
  · exact ⟨rfl, h⟩
  · split
    · exact ⟨rfl, h⟩
    · rcases answer with _ | _ | e
      · exact ⟨rfl, hsame⟩
      · exact ⟨rfl, hsame⟩
      · exact ⟨rfl, hsame⟩

theorem commit (hef : e.Coupled f known fits R) (h : World.Related R w v) {key : Key}
    {response : Response} {hint : Option Declaration}
    (hfits : ∀ u, Write.of? key response hint w.clock = some u → fits u) :
    Matched (World.Related R) (e.commit key response hint w) (f.commit key response hint v) := by
  rw [Engine.commit, Engine.commit]
  split
  · exact ⟨rfl, h⟩
  · rename_i hskip
    obtain ⟨answer, s, t, he, hf, hstores⟩ :=
      (hef.set (u := ⟨key, response, response.effectivePolicy hint, w.clock⟩) h.stores
        (hfits _ (Write.of?_eq_some_iff.mpr ⟨hskip, rfl⟩))).exists_eq
    replace he : e.backend.set w.now key (response.entry (response.effectivePolicy hint) w.now)
        (response.effectivePolicy hint).storageTtl w.store = (answer, s) := he
    replace hf : f.backend.set w.now key (response.entry (response.effectivePolicy hint) w.now)
        (response.effectivePolicy hint).storageTtl v.store = (answer, t) := hf
    simp only [h.now_eq, he, hf]
    have hsame : World.Related R { w with store := s } { v with store := t } := ⟨h.clock, hstores⟩
    cases answer with
    | error => exact ⟨rfl, hsame⟩
    | ok => exact ⟨rfl, hsame⟩

theorem finish (hef : e.Coupled f known fits R) (h : World.Related R w v) (r : Request)
    (route : Declaration) {d : Decision} {outcome : Except ε Response}
    (hfits : ∀ response u, outcome = .ok response → d.writesBack = true →
      Write.of? d.key (response.stamp route) (some route) w.clock = some u → fits u) :
    Matched (World.Related R) (e.finish r route d outcome w) (f.finish r route d outcome v) := by
  cases outcome with
  | error failure =>
    simp only [Engine.finish, h.now_eq]
    exact ⟨rfl, h⟩
  | ok response =>
    refine ⟨rfl, ?_⟩
    simp only [Engine.finish, writeBack]
    split
    · rename_i hback
      exact (hef.commit h fun u => hfits response u rfl hback).state
    · exact h

theorem execute (hef : e.Coupled f known fits R) (h : World.Related R w v) {r : Request}
    {route : Declaration} {handler : Handler σ ε} {handler' : Handler τ ε}
    (hknown : known (e.keyOf r))
    (hhandler : ∀ {w' v'}, World.Related R w' v' → w'.clock = w.clock →
      (e.decide r route w).1.cachedResponse w.now = none →
      Matched (World.Related R) (handler w') (handler' v'))
    (hfits : ∀ {w' response w'' u}, w'.clock = w.clock → handler w' = (.ok response, w'') →
      (e.decide r route w).1.cachedResponse w.now = none →
      (e.decide r route w).1.writesBack = true →
      Write.of? (e.keyOf r) (response.stamp route) (some route) w''.clock = some u → fits u) :
    Matched (World.Related R) (e.execute r route handler w) (f.execute r route handler' v) := by
  have hclock := e.decide_clock r route w
  have hnow : (e.decide r route w).2.now = w.now := congrArg Clock.now hclock
  have hkey := e.decide_key r route w
  obtain ⟨d, w', v', he, hf, hsame⟩ := (hef.decide h route hknown).exists_eq
  rw [execute_eq_finish, execute_eq_finish]
  rw [he] at hclock hnow hkey hhandler hfits
  simp only [he, hf, hsame.now_eq]
  rw [← hnow] at hhandler hfits
  cases hc : d.cachedResponse w'.now with
  | some response => exact ⟨rfl, hsame⟩
  | none =>
    obtain ⟨outcome, w'', v'', hw, hv, hhandled⟩ := (hhandler hsame hclock hc).exists_eq
    simp only [hw, hv]
    apply hef.finish hhandled
    rintro response u rfl hback hu
    rw [hkey] at hu
    exact hfits hclock hw hc hback hu

end Coupled
end Engine

namespace Cache

/-- Coupled engines, with a relation that also outlasts sweeps and the time that passes while the
clock is valid. -/
structure Coupled (x : Cache σ) (y : Cache τ) (known : Key → Prop) (fits : Write → Prop)
    (valid : Instant → Prop) (R : Instant → σ → τ → Prop) : Prop where
  engine : x.engine.Coupled y.engine known fits R
  later : ∀ {now later s t}, R now s t → now ≤ later → valid later → R later s t
  sweep : ∀ {now s t}, R now s t → R now (x.sweep now s) (y.sweep now t)

namespace Coupled
variable {ε : Type} {x : Cache σ} {y : Cache τ} {known : Key → Prop} {fits : Write → Prop}
  {valid : Instant → Prop} {R : Instant → σ → τ → Prop} {w : World σ} {v : World τ}

theorem pause (hxy : x.Coupled y known fits valid R) (h : World.Related R w v) {p : Pause}
    (horder : w.now ≤ (p.reading w.clock).now) (hvalid : valid (p.reading w.clock).now) :
    World.Related R (x.pause w p) (y.pause v p) := by
  have hclock : (x.pause w p).clock = (y.pause v p).clock := by
    rw [pause_clock, pause_clock, h.clock]
  cases p with
  | sweep =>
    refine ⟨hclock, ?_⟩
    show R w.now (x.sweep w.now w.store) (y.sweep v.now v.store)
    rw [h.now_eq]
    exact hxy.sweep h.stores
  | advance d => exact ⟨hclock, hxy.later h.stores horder hvalid⟩
  | set t => exact ⟨hclock, hxy.later h.stores horder hvalid⟩

theorem pauses (hxy : x.Coupled y known fits valid R) (h : World.Related R w v) {ps : List Pause}
    (horder : (w.clock :: Pause.readings w.clock ps).Pairwise fun a b => a.now ≤ b.now)
    (hvalid : ∀ c ∈ Pause.readings w.clock ps, valid c.now) :
    World.Related R (x.pauses ps w) (y.pauses ps v) := by
  induction ps generalizing w v with
  | nil => exact h
  | cons p ps ih =>
    obtain ⟨hfirst, hrest⟩ := List.pairwise_cons.mp horder
    have hone := hxy.pause h (hfirst _ List.mem_cons_self) (hvalid _ List.mem_cons_self)
    rw [Pause.readings, ← x.pause_clock w p] at hrest
    apply ih hone hrest
    intro c hc
    rw [x.pause_clock] at hc
    exact hvalid c (List.mem_cons_of_mem _ hc)

/-- An execution of which the lookup is known and the write fits, if there is one. -/
theorem execute (hxy : x.Coupled y known fits valid R) (h : World.Related R w v) {r : Request}
    {route : Declaration} {work : Work ε} (hknown : known (x.engine.keyOf r))
    (hfits : ∀ u, x.written? w (.execute r route work) = some u → fits u)
    (horder : (w.clock :: x.readingsOf w (.execute r route work)).Pairwise fun a b => a.now ≤ b.now)
    (hvalid : ∀ c ∈ x.readingsOf w (.execute r route work), valid c.now) :
    Matched (World.Related R) (x.engine.execute r route (x.handler work) w)
      (y.engine.execute r route (y.handler work) v) := by
  have hnow : (x.engine.decide r route w).2.now = w.now :=
    congrArg Clock.now (x.engine.decide_clock r route w)
  simp only [readingsOf, Engine.handlerRan_iff, hnow] at horder hvalid
  apply hxy.engine.execute h hknown
  · intro w' v' hsame hclock hc
    rw [if_pos hc, ← hclock] at horder hvalid
    exact ⟨rfl, hxy.pauses hsame horder hvalid⟩
  · intro w' response w'' u hclock hhandler hc hback hu
    obtain ⟨houtcome, rfl⟩ := Prod.mk.inj hhandler
    rw [pauses_clock, hclock, ← pauses_clock] at hu
    exact hfits u (x.written?_execute.mpr ⟨hc, response, houtcome, hback, hu⟩)

end Coupled
end Cache
end ResponseCache
