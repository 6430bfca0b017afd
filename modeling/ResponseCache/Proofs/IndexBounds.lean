import ResponseCache.Proofs.Clearing

/-!
# The size of an index

A write that finds the index full drops the keys whose deadlines have come, and sets the threshold
by what it leaves. No other operation moves the threshold, and none but writes adds keys to the
index: a clearing that is struck puts back no more than it took. So the index stays below its
threshold, and the threshold within twice of what was left last, whichever calls fail and however
the clock moves.
-/
namespace ResponseCache

namespace KeyMap
variable {α : Type}

theorem length_put_le (key : String) (value : α) (es : List (String × α)) :
    (put key value es).length ≤ es.length + 1 := by
  induction es with
  | nil => exact Nat.le_refl 1
  | cons e es ih =>
    rw [put]
    split
    · exact Nat.le_refl _
    · split
      · exact Nat.le_succ _
      · exact Nat.succ_le_succ ih

theorem size_insert_le (m : KeyMap α) (key : String) (value : α) :
    (m.insert key value).size ≤ m.size + 1 :=
  length_put_le key value m.entries

theorem size_filter_le (m : KeyMap α) (keep : String → α → Bool) : (m.filter keep).size ≤ m.size :=
  List.length_filter_le _ m.entries

end KeyMap

namespace Memcached

variable {σ : Type} {client : Client σ} {n : Namespace} {now : Instant} {order : Order σ}
  {s : State σ}

def IsDue (now : Instant) (deadline : Option Instant) : Prop := ∃ t, deadline = some t ∧ t ≤ now

theorem isBefore_iff_not_isDue {deadline : Option Instant} :
    now.isBefore deadline = true ↔ ¬IsDue now deadline := by
  cases deadline with
  | none => simp [IsDue]
  | some t => simp [IsDue, Instant.lt_iff, Instant.le_iff]

namespace Written
variable {w : Written}

def IsPruned (now : Instant) (w w' : Written) : Prop :=
  ∀ key deadline, w'.deadlines.find? key = some deadline ↔
    w.deadlines.find? key = some deadline ∧ ¬IsDue now deadline

/-- The index with a key, before anything is dropped. -/
def put (w : Written) (key : String) (deadline : Option Instant) : Written :=
  { w with deadlines := w.deadlines.insert key deadline }

theorem isPruned_prune (now : Instant) (w : Written) : w.IsPruned now (w.prune now) := by
  intro key deadline
  rw [prune, KeyMap.find?_filter, Option.filter_eq_some_iff, isBefore_iff_not_isDue]

theorem insert_of_lt {key : String} {deadline : Option Instant}
    (h : (w.put key deadline).size < w.pruneAt) (now : Instant) :
    w.insert key deadline now = w.put key deadline :=
  if_pos h

theorem insert_of_le {key : String} {deadline : Option Instant}
    (h : w.pruneAt ≤ (w.put key deadline).size) (now : Instant) :
    w.insert key deadline now =
      { (w.put key deadline).prune now with
        pruneAt := max (((w.put key deadline).prune now).size * 2) pruneFloor } :=
  if_neg (Nat.not_lt.mpr h)

theorem size_prune_le (now : Instant) (w : Written) : (w.prune now).size ≤ w.size :=
  w.deadlines.size_filter_le _

theorem size_restore_le (w : Written) (es : List (String × Option Instant)) :
    (w.restore es).size ≤ w.size + es.length := by
  induction es generalizing w with
  | nil => exact Nat.le_refl _
  | cons e es ih =>
    have hone : (w.put e.1 e.2).size ≤ w.size + 1 := w.deadlines.size_insert_le e.1 e.2
    have hrest := ih (w.put e.1 e.2)
    rw [List.length_cons]
    exact Nat.le_trans hrest (by omega)

theorem mem_of_mem_restore {es : List (String × Option Instant)} {x : String × Option Instant}
    (h : x ∈ (w.restore es).deadlines.entries) : x ∈ w.deadlines.entries ∨ x ∈ es := by
  induction es generalizing w with
  | nil => exact .inl h
  | cons e es ih =>
    rcases ih (w := w.put e.1 e.2) h with hput | hrest
    · rcases KeyMap.mem_put hput with rfl | hmem
      · exact .inr List.mem_cons_self
      · exact .inl hmem
    · exact .inr (List.mem_cons_of_mem e hrest)

/-- An empty index takes back what is given, if no key is given twice. -/
theorem find?_restore_empty {es : List (String × Option Instant)}
    (hes : es.Pairwise fun a b => a.1 ≠ b.1) (pruneAt : Nat) {key : String}
    {deadline : Option Instant} :
    ((⟨.empty, pruneAt⟩ : Written).restore es).deadlines.find? key = some deadline ↔
      (key, deadline) ∈ es := by
  rw [KeyMap.find?_eq_some_iff]
  constructor
  · intro h
    exact (mem_of_mem_restore h).resolve_left List.not_mem_nil
  · exact fun h => mem_restore hes _ h

end Written

def recorded (n : Namespace) (now : Instant) (s : State σ) (k : Key) (ttl : Option Duration) :
    Written :=
  s.written.put (wireKey n k) (ttl.bind now.add?)

/-- A write that the store takes and that fills the index up to its threshold. -/
def prunes (client : Client σ) (n : Namespace) (now : Instant) (s : State σ) : Operation → Bool
  | .set k e ttl =>
    (set client n now k e ttl s).1.isOk && s.written.pruneAt ≤ (recorded n now s k ttl).size
  | _ => false

theorem set_written (client : Client σ) (n : Namespace) (now : Instant) (k : Key) (e : Entry)
    (ttl : Option Duration) (s : State σ) :
    (set client n now k e ttl s).2.written =
      if (set client n now k e ttl s).1.isOk then
        s.written.insert (wireKey n k) (ttl.bind now.add?) now else s.written := by
  rw [set]
  split
  · rfl
  · rfl

/-- Deletions in turn come to some point, and what lies behind it goes back into the index. -/
theorem deleteAll_written (client : Client σ) (now : Instant) (removed : Nat)
    (es : List (String × Option Instant)) (s : State σ) : ∃ asked left, es = asked ++ left ∧
      (deleteAll client now removed es s).2.written = s.written.restore left ∧
      ((deleteAll client now removed es s).1.isOk = true → left = []) := by
  induction es generalizing removed s with
  | nil => exact ⟨[], [], rfl, rfl, fun _ => rfl⟩
  | cons e es ih =>
    rw [deleteAll]
    split
    · exact ⟨[], e :: es, rfl, rfl, fun h => by cases h⟩
    · rename_i existed store hdelete
      obtain ⟨asked, left, rfl, hwritten, hok⟩ :=
        ih (if existed then removed + 1 else removed) { s with store }
      exact ⟨e :: asked, left, rfl, hwritten, hok⟩

/-- After a clearing the index has the keys from some point of the order on, and with a clearing
that succeeds none. -/
theorem clearBy_written (order : Order σ) (client : Client σ) (now : Instant) (s : State σ) :
    ∃ asked left, order now s = asked ++ left ∧
      (clearBy order client now s).2.written =
        (⟨.empty, s.written.pruneAt⟩ : Written).restore left ∧
      ((clearBy order client now s).1.isOk = true → left = []) :=
  deleteAll_written client now 0 (order now s) _

theorem mem_order_iff (ho : order.IsExact) {key : String} {deadline : Option Instant} :
    (key, deadline) ∈ order now s ↔
      s.written.deadlines.find? key = some deadline ∧ ¬IsDue now deadline := by
  rw [(ho now s).mem_iff, ← KeyMap.find?_eq_some_iff]
  exact s.written.isPruned_prune now key deadline

theorem pairwise_order (ho : order.IsExact) (now : Instant) (s : State σ) :
    (order now s).Pairwise fun a b => a.1 ≠ b.1 := by
  apply ((ho now s).pairwise_iff fun hne => hne.symm).mpr
  exact (s.written.prune now).deadlines.ascending.imp text_ne_of_lt

theorem after_of_prunes (order : Order σ) {op : Operation} (h : prunes client n now s op = true) :
    ∃ w : Written,
      ((handleBy order client n).after now s op).written =
        { w.prune now with pruneAt := max ((w.prune now).size * 2) pruneFloor } := by
  cases op with
  | set k e ttl =>
    obtain ⟨hok, hfull⟩ : (set client n now k e ttl s).1.isOk = true ∧
        s.written.pruneAt ≤ (recorded n now s k ttl).size := by
      simpa [prunes] using h
    refine ⟨recorded n now s k ttl, ?_⟩
    show (set client n now k e ttl s).2.written = _
    rw [set_written, if_pos hok, Written.insert_of_le hfull]
    rfl
  | _ => cases h

/-- Without pruning the threshold stays, and the index grows below the threshold only. -/
theorem after_of_not_prunes (ho : order.IsExact) {op : Operation}
    (h : prunes client n now s op = false) (hs : s.written.size < s.written.pruneAt) :
    ((handleBy order client n).after now s op).written.pruneAt = s.written.pruneAt ∧
      ((handleBy order client n).after now s op).written.size < s.written.pruneAt := by
  cases op with
  | get k =>
    show (get client n now k s).2.written.pruneAt = _ ∧ (get client n now k s).2.written.size < _
    rw [get_eq]
    exact ⟨rfl, hs⟩
  | set k e ttl =>
    show (set client n now k e ttl s).2.written.pruneAt = _ ∧
      (set client n now k e ttl s).2.written.size < _
    rw [set_written]
    split
    · rename_i hok
      have hroom : (recorded n now s k ttl).size < s.written.pruneAt := by
        simpa [prunes, hok] using h
      rw [Written.insert_of_lt hroom]
      exact ⟨rfl, hroom⟩
    · exact ⟨rfl, hs⟩
  | delete k =>
    show (delete client n now k s).2.written.pruneAt = _ ∧
      (delete client n now k s).2.written.size < _
    rw [delete]
    split
    · exact ⟨rfl, hs⟩
    · exact ⟨rfl, Nat.lt_of_le_of_lt (s.written.deadlines.size_filter_le _) hs⟩
  | clear =>
    show (clearBy order client now s).2.written.pruneAt = _ ∧
      (clearBy order client now s).2.written.size < _
    obtain ⟨asked, left, horder, hwritten, -⟩ := clearBy_written order client now s
    have hlength : left.length ≤ s.written.size := by
      have hsplit : (order now s).length = (s.written.prune now).size := (ho now s).length_eq
      have hpruned := s.written.size_prune_le now
      rw [horder, List.length_append] at hsplit
      omega
    have hsize := (⟨.empty, s.written.pruneAt⟩ : Written).size_restore_le left
    rw [hwritten]
    refine ⟨rfl, Nat.lt_of_le_of_lt (Nat.le_trans hsize ?_) hs⟩
    rwa [show (⟨.empty, s.written.pruneAt⟩ : Written).size = 0 from rfl, Nat.zero_add]
  | deletePath path => exact ⟨rfl, hs⟩
  | deletePattern pattern => exact ⟨rfl, hs⟩
  | entries => exact ⟨rfl, hs⟩
  | sweep => exact ⟨rfl, hs⟩

/-- How many keys the latest pruning by a write left, if a write has pruned at all. -/
def lastLeft? (order : Order σ) (client : Client σ) (n : Namespace) :
    List (Instant × Operation) → State σ → Option Nat
  | [], _ => none
  | x :: ops, s =>
    let next := (handleBy order client n).after x.1 s x.2
    (lastLeft? order client n ops next).or
      (if prunes client n x.1 s x.2 then some next.written.size else none)

structure Written.IsBounded (w : Written) (left : Option Nat) : Prop where
  size_lt : w.size < w.pruneAt
  pruneAt_eq : w.pruneAt = max 64 (2 * left.getD 0)

theorem after_bounded (ho : order.IsExact) (now : Instant) (op : Operation) {left : Option Nat}
    (h : s.written.IsBounded left) :
    ((handleBy order client n).after now s op).written.IsBounded
      ((if prunes client n now s op then
        some ((handleBy order client n).after now s op).written.size else none).or left) := by
  cases hprunes : prunes client n now s op with
  | true =>
    obtain ⟨w, hw⟩ := after_of_prunes order hprunes
    rw [hw]
    refine ⟨?_, ?_⟩
    · show (w.prune now).size < max ((w.prune now).size * 2) pruneFloor
      rw [pruneFloor]
      omega
    · show max ((w.prune now).size * 2) pruneFloor = max 64 (2 * (w.prune now).size)
      rw [Nat.max_comm, Nat.mul_comm]
      rfl
  | false =>
    obtain ⟨hsame, hsize⟩ := after_of_not_prunes ho hprunes h.size_lt
    exact ⟨by rwa [hsame], hsame.trans h.pruneAt_eq⟩

theorem run_bounded (ho : order.IsExact) (ops : List (Instant × Operation)) {left : Option Nat}
    (h : s.written.IsBounded left) :
    ((handleBy order client n).run ops s).written.IsBounded
    ((lastLeft? order client n ops s).or left) := by
  induction ops generalizing s left with
  | nil => exact h
  | cons x ops ih =>
    rw [lastLeft?, Option.or_assoc]
    exact ih (after_bounded ho x.1 x.2 h)

/-- Whatever calls fail, however the clock moves and in whatever order keys are cleared: after every
operation the index of a handle has fewer keys than its threshold, and this is twice as many as the
latest pruning by a write left, or 64 if that is more. A write that is taken prunes if and only if
it fills the index up. What pruning drops are exactly the keys whose deadlines have come, also at
the beginning of a clearing: it asks for the others in turn, and the index keeps those that are
still to be asked for. -/
theorem index_stays_bounded (client : Client σ) (n : Namespace) (ho : order.IsExact) (store : σ)
    (ops : List (Instant × Operation)) :
    let h := handleBy order client n
    let s := h.run ops ⟨store, {}⟩
    s.written.size < s.written.pruneAt ∧ 64 ≤ s.written.pruneAt ∧
      s.written.pruneAt = max 64 (2 * (lastLeft? order client n ops ⟨store, {}⟩).getD 0) ∧
      (∀ now k e ttl, let w := (h.after now s (.set k e ttl)).written
        if (h.backend.set now k e ttl s).1.isOk then
          if (recorded n now s k ttl).size < s.written.pruneAt then w = recorded n now s k ttl
          else (recorded n now s k ttl).IsPruned now w
        else w = s.written) ∧
      ∀ now, ∃ asked left,
        (∀ key deadline, (key, deadline) ∈ asked ++ left ↔
          s.written.deadlines.find? key = some deadline ∧ ¬IsDue now deadline) ∧
        (∀ key deadline, (h.after now s .clear).written.deadlines.find? key = some deadline ↔
          (key, deadline) ∈ left) ∧
        ((h.backend.clear now s).1.isOk = true → left = []) := by
  intro h s
  have hstart : ({} : Written).IsBounded none := ⟨by decide, rfl⟩
  have hbounded : s.written.IsBounded ((lastLeft? order client n ops ⟨store, {}⟩).or none) :=
    run_bounded ho ops hstart
  rw [Option.or_none] at hbounded
  refine ⟨hbounded.size_lt, ?_, hbounded.pruneAt_eq, ?_, ?_⟩
  · rw [hbounded.pruneAt_eq]
    exact Nat.le_max_left ..
  · intro now k e ttl w
    have hset : w = _ := set_written client n now k e ttl s
    rw [hset]
    by_cases hok : (set client n now k e ttl s).1.isOk = true
    · rw [if_pos hok, if_pos (show (h.backend.set now k e ttl s).1.isOk = true from hok)]
      split
      · rename_i hroom
        exact Written.insert_of_lt hroom now
      · rename_i hfull
        rw [Written.insert_of_le (Nat.not_lt.mp hfull)]
        exact Written.isPruned_prune now _
    · rw [if_neg hok, if_neg (show ¬(h.backend.set now k e ttl s).1.isOk = true from hok)]
  · intro now
    obtain ⟨asked, left, horder, hwritten, hok⟩ := clearBy_written order client now s
    refine ⟨asked, left, ?_, ?_, hok⟩
    · intro key deadline
      rw [← horder]
      exact mem_order_iff ho
    · intro key deadline
      show (clearBy order client now s).2.written.deadlines.find? key = _ ↔ _
      rw [hwritten]
      refine Written.find?_restore_empty ?_ _
      have hpairs := pairwise_order ho now s
      rw [horder] at hpairs
      exact (List.pairwise_append.mp hpairs).2.1

/-- Sixty-three writes, of which twenty-three last a second, and two seconds later one more:
forty-one keys are left. A clearing is struck after sixteen of them, and the rest is put back below
a threshold of eighty-two. The next clearing takes it all. -/
theorem index_stays_bounded_struck :
    let client : Client Unit := {
      get := fun _ _ s => (.ok none, s)
      set := fun _ _ _ _ s => (.ok (), s)
      delete :=
        fun now key => lostIf (now == Clock.now ⟨3000⟩ && key == "@") fun s => (.ok true, s) }
    let h := handleBy keyOrder client ⟨""⟩
    let e : Entry :=
      { etag := "", content := [], status := .ok, headers := {}, storedAt := .epoch,
        expiresAt := none, policy := {} }
    let write (ttl : Option Duration) (i : Nat) : Operation :=
      .set ⟨String.ofList [Char.ofNat (0x30 + i)]⟩ e ttl
    let ops : List (Instant × Operation) :=
      (List.range 40).map (fun i => (Clock.now ⟨0⟩, write none i)) ++
        (List.range' 40 23).map (fun i => (Clock.now ⟨0⟩, write (some (.ofSeconds 1)) i)) ++
        [(Clock.now ⟨2000⟩, write none 63), (Clock.now ⟨3000⟩, .clear)]
    let s := h.run ops ⟨(), {}⟩
    (keyOrder : Order Unit).IsExact ∧ lastLeft? keyOrder client ⟨""⟩ ops ⟨(), {}⟩ = some 41 ∧
      s.written.pruneAt = 82 ∧
      s.written.size = 25 ∧ s.written.size < s.written.pruneAt ∧
      ∀ key deadline, (h.after (Clock.now ⟨4000⟩) s .clear).written.deadlines.find? key ≠
        some deadline := by
  intro client h e write ops s
  obtain ⟨hsize, -, hthreshold, -, hclear⟩ :=
    index_stays_bounded client ⟨""⟩ keyOrder_isExact () ops
  obtain ⟨hleft, hcount, hok⟩ : lastLeft? keyOrder client ⟨""⟩ ops ⟨(), {}⟩ = some 41 ∧
      s.written.size = 25 ∧
      (h.backend.clear (Clock.now ⟨4000⟩) s).1.isOk = true := by decide +kernel
  have hhandle : handleBy keyOrder client ⟨""⟩ = h := rfl
  have hrun : h.run ops ⟨(), {}⟩ = s := rfl
  rw [hhandle, hrun] at hsize hthreshold hclear
  rw [hleft] at hthreshold
  obtain ⟨asked, left, -, hindex, hnone⟩ := hclear (Clock.now ⟨4000⟩)
  obtain rfl := hnone hok
  refine ⟨keyOrder_isExact, hleft, hthreshold, hcount, hsize, ?_⟩
  intro key deadline hfound
  exact absurd ((hindex key deadline).mp hfound) List.not_mem_nil

end Memcached
end ResponseCache
