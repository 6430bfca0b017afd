import ResponseCache.Proofs.Coupling
import ResponseCache.Proofs.Freshness

/-!
# Caches that answer alike

Two caches with the same settings answer every session alike if their stores can be related so that
no single operation of the store tells them apart and none breaks the relation. Removals by pattern
are left out, since stores differ in their pattern dialects, and so are the counts of removals.
-/
namespace ResponseCache

variable {σ τ : Type}

/-- Times at which the clock may stand, and a relation between two stores at such a time that every
operation of two caches keeps, with the same answers. -/
structure Simulation (x : Cache σ) (y : Cache τ) (valid : Instant → Prop)
    (R : Instant → σ → τ → Prop) : Prop where
  keyOf : x.engine.keyOf = y.engine.keyOf
  methods : x.engine.methods = y.engine.methods
  later : ∀ {now later s t}, R now s t → now ≤ later → valid later → R later s t
  sweep : ∀ {now s t}, R now s t → R now (x.sweep now s) (y.sweep now t)
  get : ∀ {now s t} k, R now s t →
    Matched (R now) (x.engine.backend.get now k s) (y.engine.backend.get now k t)
  /-- Only what the engine writes has to be written alike. -/
  set : ∀ {now s t} r (response : Response) (p : Policy), R now s t → p.InDeltas → Matched (R now)
    (x.engine.backend.set now (x.engine.keyOf r) (response.entry p now) p.storageTtl s)
    (y.engine.backend.set now (x.engine.keyOf r) (response.entry p now) p.storageTtl t)
  delete : ∀ {now s t} k, R now s t → Matched (R now)
    (uncounted (x.engine.backend.delete now k s)) (uncounted (y.engine.backend.delete now k t))
  deletePath : ∀ {now s t} path, R now s t → Matched (R now)
    (uncounted (x.engine.backend.deletePath now path s))
    (uncounted (y.engine.backend.deletePath now path t))
  clear : ∀ {now s t}, R now s t → Matched (R now)
    (uncounted (x.engine.backend.clear now s)) (uncounted (y.engine.backend.clear now t))
  entries : ∀ {now s t}, R now s t →
    Matched (R now) (x.engine.backend.entries now s) (y.engine.backend.entries now t)

def Event.IsPatternless {ε : Type} : Event ε → Prop
  | .deletePattern _ => False
  | _ => True

instance {ε : Type} : (ev : Event ε) → Decidable ev.IsPatternless
  | .deletePattern _ => .isFalse id
  | .pause _ | .execute .. | .decide .. | .commit .. | .get _ | .delete _ | .deletePath _ | .clear
  | .entries | .report => .isTrue trivial

namespace Simulation
variable {ε : Type} {x : Cache σ} {y : Cache τ} {valid : Instant → Prop}
  {R : Instant → σ → τ → Prop} {w : World σ} {v : World τ}

/-- Every key is known, and what the engine writes fits. -/
theorem coupled (sim : Simulation x y valid R) :
    x.Coupled y (fun _ => True) (fun u => (∃ r, u.key = x.engine.keyOf r) ∧ u.policy.InDeltas)
      valid R where
  engine :=
    { keyOf := sim.keyOf
      methods := sim.methods
      get := fun {_ _ _ k} h _ => sim.get k h
      set := by
        rintro ⟨_, response, policy, clock⟩ s t h ⟨⟨r, rfl⟩, hpolicy⟩
        exact sim.set r response policy h hpolicy }
  later := sim.later
  sweep := sim.sweep

theorem fits_of_of? {r : Request} {response : Response} {hint : Option Declaration} {c : Clock}
    {u : Write} (h : Write.of? (x.engine.keyOf r) response hint c = some u) :
    (∃ r, u.key = x.engine.keyOf r) ∧ u.policy.InDeltas := by
  obtain ⟨-, rfl⟩ := Write.of?_eq_some_iff.mp h
  exact ⟨⟨r, rfl⟩, response.effectivePolicy_inDeltas hint⟩

/-- One event: the answers are the same and the stores stay related. -/
theorem step (sim : Simulation x y valid R) (h : World.Related R w v) {ev : Event ε}
    (hev : ev.IsPatternless)
    (horder : (w.clock :: x.readingsOf w ev).Pairwise fun a b => a.now ≤ b.now)
    (hvalid : ∀ c ∈ x.readingsOf w ev, valid c.now) :
    Matched (World.Related R) (x.step w ev) (y.step v ev) := by
  cases ev with
  | pause p =>
    have hle := (List.pairwise_cons.mp horder).1 _ List.mem_cons_self
    exact ⟨rfl, sim.coupled.pause h hle (hvalid _ List.mem_cons_self)⟩
  | execute r route work =>
    apply Matched.map
    apply sim.coupled.execute h trivial _ horder hvalid
    intro u hu
    obtain ⟨-, _, -, -, hu⟩ := x.written?_execute.mp hu
    exact fits_of_of? hu
  | decide r route => exact Matched.map (sim.coupled.engine.decide h route trivial) Answer.decision
  | commit r response hint =>
    unfold Cache.step
    rw [← sim.keyOf]
    exact Matched.map (sim.coupled.engine.commit h fun _ hu => fits_of_of? hu) Answer.write
  | get k =>
    unfold Cache.step
    apply Matched.map
    apply h.perform
    exact sim.get k h.stores
  | delete k =>
    unfold Cache.step
    apply Matched.map
    apply h.remove
    exact sim.delete k h.stores
  | deletePath path =>
    unfold Cache.step
    apply Matched.map
    apply h.remove
    exact sim.deletePath path h.stores
  | deletePattern pattern => exact hev.elim
  | clear =>
    unfold Cache.step
    apply Matched.map
    apply h.remove
    exact sim.clear h.stores
  | entries =>
    unfold Cache.step
    apply Matched.map
    apply h.perform
    exact sim.entries h.stores
  | report =>
    unfold Cache.step
    apply Matched.map
    apply h.perform
    exact Inspection.collect_matched (sim.entries h.stores)

/-- A whole session: related caches answer alike. -/
theorem answers_eq (sim : Simulation x y valid R) (h : World.Related R w v)
    {events : List (Event ε)} (hevents : ∀ ev ∈ events, ev.IsPatternless)
    (horder : x.InOrder events w) (hvalid : ∀ c ∈ x.readings events w, valid c.now) :
    x.answers events w = y.answers events v := by
  induction events generalizing w v with
  | nil => rfl
  | cons ev events ih =>
    have hone := sim.step h (hevents ev List.mem_cons_self) (x.readings_order horder)
      fun c hc => hvalid c (List.mem_append_left _ hc)
    have hrest := ih hone.state (fun ev' hev => hevents ev' (List.mem_cons_of_mem _ hev))
      (x.inOrder_next horder) fun c hc => hvalid c (List.mem_append_right _ hc)
    rw [Cache.answers, Cache.answers, hone.answer]
    exact congrArg _ hrest

end Simulation
end ResponseCache
