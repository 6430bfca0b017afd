import ResponseCache.Proofs.Handles
import ResponseCache.Proofs.Session

/-!
# Sessions made of operations

All that an engine does to its store are lookups and writes, and all that a session does are
operations through one handle. So what every such operation does to a state, an execution and a
whole session do.
-/
namespace ResponseCache

variable {σ ε : Type} {R : σ → σ → Prop} {allowed : Key → Entry → Prop}

/-- Lookups, and writes of what is allowed under a key, lead from a state to a related one, and so
do chains of related states. -/
structure Engine.Follows (e : Engine σ) (allowed : Key → Entry → Prop) (R : σ → σ → Prop) :
    Prop where
  refl : ∀ s, R s s
  trans : ∀ {s s' s''}, R s s' → R s' s'' → R s s''
  get : ∀ now k s, R s (e.backend.get now k s).2
  set : ∀ {k entry} now ttl s, allowed k entry → R s (e.backend.set now k entry ttl s).2

namespace Engine
variable {e : Engine σ}

theorem decide_follows (he : e.Follows allowed R) (r : Request) (route : Declaration)
    (w : World σ) : R w.store (e.decide r route w).2.store := by
  have hget := he.get w.now (e.keyOf r) w.store
  rw [decide]
  split
  · exact he.refl w.store
  · split
    · exact he.refl w.store
    · split
      · rename_i h
        rw [h] at hget
        exact hget
      · rename_i h
        rw [h] at hget
        exact hget

theorem commit_follows (he : e.Follows allowed R) {key : Key} {response : Response}
    {hint : Option Declaration} {w : World σ}
    (hallowed : ∀ p, response.skipReason? p = none → allowed key (response.entry p w.now)) :
    R w.store (e.commit key response hint w).2.store := by
  rw [commit]
  split
  · exact he.refl w.store
  · rename_i hskip
    have hset := he.set w.now (response.effectivePolicy hint).storageTtl w.store (hallowed _ hskip)
    split
    · rename_i h
      rw [h] at hset
      exact hset
    · rename_i h
      rw [h] at hset
      exact hset

theorem execute_follows (he : e.Follows allowed R) {r : Request} {route : Declaration}
    {handler : Handler σ ε} (hhandler : ∀ u, R u.store (handler u).2.store) (w : World σ)
    (hallowed : ∀ (response : Response) p now, response.skipReason? p = none →
      allowed (e.keyOf r) (response.entry p now)) :
    R w.store (e.execute r route handler w).2.store := by
  have hdecided := decide_follows he r route w
  have hhandled := he.trans hdecided (hhandler _)
  rcases e.execute_cases r route handler w with ⟨_, -, h⟩ | ⟨-, ⟨_, -, h⟩ | ⟨response, -, h⟩⟩
  · rw [h]
    exact hdecided
  · rw [h]
    exact hhandled
  · rw [h, writeBack, decide_key]
    split
    · exact he.trans hhandled (commit_follows he fun p => hallowed _ p _)
    · exact hhandled

end Engine

def Operation.Is (allowed : Key → Entry → Prop) : Operation → Prop
  | .set k e _ => allowed k e
  | _ => True

def Cache.handle (x : Cache σ) : Handle σ where
  backend := x.engine.backend
  sweep := x.sweep

structure Cache.Follows (x : Cache σ) (allowed : Key → Entry → Prop) (R : σ → σ → Prop) : Prop where
  refl : ∀ s, R s s
  trans : ∀ {s s' s''}, R s s' → R s' s'' → R s s''
  after : ∀ (op : Operation) now s, op.Is allowed → R s (x.handle.after now s op)
  allows : ∀ r e, allowed (x.engine.keyOf r) e

namespace Cache
variable {x : Cache σ}

theorem Follows.engine (hx : x.Follows allowed R) : x.engine.Follows allowed R where
  refl := hx.refl
  trans := hx.trans
  get now k s := hx.after (.get k) now s trivial
  set {k entry} now ttl s h := hx.after (.set k entry ttl) now s h

theorem pauses_follows (hx : x.Follows allowed R) (ps : List Pause) (w : World σ) :
    R w.store (x.pauses ps w).store := by
  induction ps generalizing w with
  | nil => exact hx.refl w.store
  | cons p ps ih =>
    have hone : R w.store (x.pause w p).store := by
      cases p with
      | sweep => exact hx.after .sweep w.now w.store trivial
      | _ => exact hx.refl w.store
    exact hx.trans hone (ih _)

theorem next_follows (hx : x.Follows allowed R) (w : World σ) (ev : Event ε) :
    R w.store (x.next w ev).store := by
  cases ev with
  | pause p => exact pauses_follows hx [p] w
  | execute r route work =>
    exact Engine.execute_follows hx.engine (fun u => pauses_follows hx work.pauses u) w
      fun _ _ _ _ => hx.allows r _
  | decide r route => exact Engine.decide_follows hx.engine r route w
  | commit r response hint => exact Engine.commit_follows hx.engine fun _ _ => hx.allows r _
  | get k => exact hx.after (.get k) w.now w.store trivial
  | delete k => exact hx.after (.delete k) w.now w.store trivial
  | deletePath path => exact hx.after (.deletePath path) w.now w.store trivial
  | deletePattern pattern => exact hx.after (.deletePattern pattern) w.now w.store trivial
  | clear => exact hx.after .clear w.now w.store trivial
  | entries => exact hx.after .entries w.now w.store trivial
  | report =>
    show R w.store (Inspection.collect x.engine.backend w.now w.store).2
    rw [Inspection.collect_state]
    exact hx.after .entries w.now w.store trivial

/-- A whole session. -/
theorem run_follows (hx : x.Follows allowed R) (events : List (Event ε)) (w : World σ) :
    R w.store (x.run events w).store := by
  induction events generalizing w with
  | nil => exact hx.refl w.store
  | cons ev events ih => exact hx.trans (next_follows hx w ev) (ih _)

end Cache
end ResponseCache
