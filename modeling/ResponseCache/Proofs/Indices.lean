import ResponseCache.Proofs.Contract
import ResponseCache.Proofs.Handles
import ResponseCache.Proofs.Holdings

/-!
# Indices of written keys

All keys that a handle remembers are of its namespace, whatever happens to its calls and whoever
else works on the store. So a handle can be cleared without harm to items of others.
-/
namespace ResponseCache.Memcached

variable {σ α : Type} {client : Client σ} {item? : Instant → String → σ → α} {n : Namespace}
  {now t : Instant}

def handle (client : Client σ) (n : Namespace) : Handle (State σ) where
  backend := backend client n

@[simp] theorem owns_wireKey (n : Namespace) (k : Key) : n.owns (wireKey n k) = true := by
  rw [wireKey]
  split
  · exact Namespace.owns_physical n k
  · exact Namespace.owns_physical n ⟨_⟩

def Written.All (P : String → Prop) (w : Written) : Prop :=
  ∀ key deadline, w.deadlines.find? key = some deadline → P key

def Written.IsWithin (w : Written) (n : Namespace) : Prop :=
  ∀ key deadline, w.deadlines.find? key = some deadline → n.owns key = true

variable {P : String → Prop}

namespace Written.All
variable {w : Written}

theorem of_empty (P : String → Prop) (pruneAt : Nat) : Written.All P ⟨.empty, pruneAt⟩ := by
  intro key deadline hkey
  cases hkey

theorem of_filter {keep : String → Option Instant → Bool} {pruneAt : Nat} (h : w.All P) :
    Written.All P ⟨w.deadlines.filter keep, pruneAt⟩ := by
  intro key deadline hkey
  rw [KeyMap.find?_filter, Option.filter_eq_some_iff] at hkey
  exact h key deadline hkey.1

theorem of_put {key : String} (h : w.All P) (hkey : P key) (deadline : Option Instant)
    (pruneAt : Nat) : Written.All P ⟨w.deadlines.insert key deadline, pruneAt⟩ := by
  intro key' deadline' hfound
  replace hfound : (w.deadlines.insert key deadline).find? key' = some deadline' := hfound
  rw [KeyMap.find?_insert] at hfound
  split at hfound
  · rename_i heq
    rw [heq]
    exact hkey
  · exact h key' deadline' hfound

theorem insert {key : String} (h : w.All P) (hkey : P key) (deadline : Option Instant)
    (now : Instant) : (w.insert key deadline now).All P := by
  have hput := h.of_put hkey deadline w.pruneAt
  rw [Written.insert]
  split
  · exact hput
  · exact hput.of_filter

theorem restore {keys : List (String × Option Instant)} (h : w.All P) (hkeys : ∀ e ∈ keys, P e.1) :
    (w.restore keys).All P := by
  induction keys generalizing w with
  | nil => exact h
  | cons e keys ih =>
    have hput := h.of_put (hkeys e List.mem_cons_self) e.2 w.pruneAt
    exact ih hput fun e' he' => hkeys e' (List.mem_cons_of_mem e he')

theorem of_mem_prune (h : w.All P) {e : String × Option Instant}
    (he : e ∈ (w.prune now).deadlines.entries) : P e.1 :=
  h.of_filter e.1 e.2 (KeyMap.find?_eq_some_iff.mpr he)

end Written.All

variable {s : State σ}

theorem deleteAll_all (removed : Nat) {es : List (String × Option Instant)} (hes : ∀ e ∈ es, P e.1)
    (hs : s.written.All P) : (deleteAll client now removed es s).2.written.All P := by
  induction es generalizing removed s with
  | nil => exact hs
  | cons e es ih =>
    rw [deleteAll]
    split
    · exact hs.restore hes
    · exact ih _ (fun e' he' => hes e' (List.mem_cons_of_mem e he')) hs

/-- What is true of everything that keys are sent as stays true of an index. -/
theorem after_all (hP : ∀ k, P (wireKey n k)) (now : Instant) (hs : s.written.All P)
    (op : Operation) : ((handle client n).after now s op).written.All P := by
  cases op with
  | get k =>
    show (get client n now k s).2.written.All P
    rw [get_eq]
    exact hs
  | set k e ttl =>
    show (set client n now k e ttl s).2.written.All P
    rw [set]
    split
    · exact hs
    · exact hs.insert (hP k) _ now
  | delete k =>
    show (delete client n now k s).2.written.All P
    rw [delete]
    split
    · exact hs
    · exact hs.of_filter
  | clear => exact deleteAll_all 0 (fun e he => hs.of_mem_prune he) (.of_empty P _)
  | deletePath path => exact hs
  | deletePattern pattern => exact hs
  | entries => exact hs
  | sweep => exact hs

/-- The indices that a handle comes to have, operation by operation. In between others may work on
the store. -/
inductive Indexed (client : Client σ) (n : Namespace) : Written → Prop
  | fresh : Indexed client n {}
  | after {index : Written} (now : Instant) (store : σ) (op : Operation) :
      Indexed client n index →
        Indexed client n ((handle client n).after now ⟨store, index⟩ op).written

theorem Indexed.all {index : Written} (hP : ∀ k, P (wireKey n k)) (h : Indexed client n index) :
    index.All P := by
  induction h with
  | fresh => exact .of_empty P pruneFloor
  | after now store op _ ih => exact after_all hP now ih op

theorem Indexed.within {index : Written} (h : Indexed client n index) : index.IsWithin n :=
  h.all (owns_wireKey n)

variable {T : Instant → Prop} {R : σ → σ → Prop}

structure Client.Follows (client : Client σ) (T : Instant → Prop) (P : String → Prop)
    (R : σ → σ → Prop) : Prop where
  refl : ∀ s, R s s
  trans : ∀ {s s' s''}, R s s' → R s' s'' → R s s''
  get : ∀ {now key} s, T now → P key → R s (client.get now key s).2
  set : ∀ {now key} value expiry s, T now → P key → R s (client.set now key value expiry s).2
  delete : ∀ {now key} s, T now → P key → R s (client.delete now key s).2

theorem deleteAll_follows (hr : client.Follows T P R) (hnow : T now) (removed : Nat)
    {es : List (String × Option Instant)} (hes : ∀ e ∈ es, P e.1) (s : State σ) :
    R s.store (deleteAll client now removed es s).2.store := by
  induction es generalizing removed s with
  | nil => exact hr.refl s.store
  | cons e es ih =>
    have hone := hr.delete s.store hnow (hes e List.mem_cons_self)
    rw [deleteAll]
    split
    · rename_i h
      rw [h] at hone
      exact hone
    · rename_i existed store h
      rw [h] at hone
      exact hr.trans hone
        (ih _ (fun e' he' => hes e' (List.mem_cons_of_mem e he')) { s with store })

theorem after_follows (hr : client.Follows T P R) (hP : ∀ k, P (wireKey n k)) (hnow : T now)
    (hs : s.written.All P) (op : Operation) :
    R s.store ((handle client n).after now s op).store := by
  cases op with
  | get k =>
    show R s.store (get client n now k s).2.store
    rw [get_eq]
    exact hr.get s.store hnow (hP k)
  | set k e ttl =>
    show R s.store (set client n now k e ttl s).2.store
    rw [set_store]
    exact hr.set _ _ s.store hnow (hP k)
  | delete k =>
    show R s.store (delete client n now k s).2.store
    rw [delete_store]
    exact hr.delete s.store hnow (hP k)
  | clear =>
    let pruned := s.written.prune now
    have hes : ∀ e ∈ pruned.deadlines.entries, P e.1 := fun e he => hs.of_mem_prune he
    exact deleteAll_follows hr hnow 0 hes { s with written := { pruned with deadlines := .empty } }
  | deletePath path => exact hr.refl s.store
  | deletePattern pattern => exact hr.refl s.store
  | entries => exact hr.refl s.store
  | sweep => exact hr.refl s.store

theorem run_follows (hr : client.Follows T P R) (hP : ∀ k, P (wireKey n k))
    {ops : List (Instant × Operation)} (hops : ∀ x ∈ ops, T x.1) (hs : s.written.All P) :
    R s.store ((handle client n).run ops s).store := by
  have hrun := (handle client n).run_related
    (R := fun s s' => s.written.All P → R s.store s'.store ∧ s'.written.All P)
    (fun s hs => ⟨hr.refl s.store, hs⟩)
    (fun h h' hs => ⟨hr.trans (h hs).1 (h' (h hs).2).1, (h' (h hs).2).2⟩)
    (fun x hx s hs => ⟨after_follows hr hP (hops x hx) hs x.2, after_all hP x.1 hs x.2⟩) s
  exact (hrun hs).1

/-- Calls with keys of a namespace spare the items of others. -/
theorem Client.IsLocal.follows (hlocal : client.IsLocal item?) (n : Namespace) (t : Instant) :
    client.Follows (· ≤ t) (n.owns · = true) (n.Spares (item? t)) where
  refl s := .refl n (item? t) s
  trans h h' := h.trans h'
  get s hle _ name _ := hlocal.get _ s name hle
  set value expiry s hle hkey name hname := by
    refine hlocal.set _ value expiry s name hle ?_
    rintro rfl
    rw [hkey] at hname
    cases hname
  delete s hle hkey name hname := by
    refine hlocal.delete _ s name hle ?_
    rintro rfl
    rw [hkey] at hname
    cases hname

theorem run_spares (hlocal : client.IsLocal item?) {ops : List (Instant × Operation)}
    (hops : ∀ x ∈ ops, x.1 ≤ t) (hs : s.written.IsWithin n) :
    n.Spares (item? t) s.store ((handle client n).run ops s).store :=
  run_follows (hlocal.follows n t) (owns_wireKey n) hops hs

def Client.Reads (client : Client σ) (v : KeyValue.View σ) : Prop :=
  ∀ {s} t key, v.ready s → (client.get t key s).1 = .ok (v.value? t key s)

theorem readsAlike_of_values (own : Written) {v : KeyValue.View σ} (hc : client.Reads v)
    {store store' : σ} (hs : v.ready store) (hs' : v.ready store')
    (h : ∀ k, v.value? t (wireKey n k) store' = v.value? t (wireKey n k) store) :
    (backend client n).ReadsAlike t ⟨store, own⟩ ⟨store', own⟩ := by
  refine Backend.readsAlike_of_entries ?_ rfl
  intro k
  show (get client n t k ⟨store', own⟩).1 = (get client n t k ⟨store, own⟩).1
  rw [get_eq, get_eq, hc t _ hs, hc t _ hs', h]

end ResponseCache.Memcached
