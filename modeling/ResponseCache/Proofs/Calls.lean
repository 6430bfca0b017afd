import ResponseCache.Proofs.Contract
import ResponseCache.Proofs.Handles
import ResponseCache.Proofs.Holdings

/-!
# Operations made of calls

Scans, removals and listings of a key-value store are calls one after the other, and removals only
touch names that the namespace owns. So what every such call does to a state, the operations do,
whether they succeed or fail.
-/
namespace ResponseCache.KeyValue

variable {σ : Type} {client : Client σ} {now : Instant} {R : σ → σ → Prop} {c : Scope}

/-- Reads and the pages of scans lead from a state to a related one, and so do chains of related
states. -/
structure Client.Follows (client : Client σ) (now : Instant) (R : σ → σ → Prop) : Prop where
  refl : ∀ s, R s s
  trans : ∀ {s s' s''}, R s s' → R s' s'' → R s s''
  get : ∀ key s, R s (client.get now key s).2
  scan : ∀ cursor pattern count s, R s (client.scan now cursor pattern count s).2

theorem scanFrom_follows (hr : client.Follows now R) {pattern : String} {count : Nat}
    (keep : String → Bool) {fuel cursor : Nat} (found : List String) {s : σ}
    (hfuel : client.pagesLeft now pattern count cursor s < fuel) :
    R s (scanFrom client now pattern count keep fuel cursor found s hfuel).2 := by
  induction fuel generalizing cursor found s with
  | zero => exact absurd hfuel (Nat.not_lt_zero _)
  | succ fuel ih =>
    have hpage := hr.scan cursor pattern count s
    rw [scanFrom]
    split
    · rename_i h
      rw [h] at hpage
      exact hpage
    · rename_i h
      rw [h] at hpage
      split
      · exact hpage
      · exact hr.trans hpage (ih _ _)

theorem Scope.scanKeys_follows (hr : client.Follows now R) (pattern : String) (keep : Key → Bool)
    (s : σ) : R s (c.scanKeys client now pattern keep s).2 := by
  have hscan := scanFrom_follows hr (fun physical => (c.space.logical? physical).any keep) []
    (Nat.lt_succ_self (client.pagesLeft now pattern c.batchSize 0 s))
  rw [scanKeys]
  split
  · rename_i h
    rw [h] at hscan
    exact hscan
  · rename_i h
    rw [h] at hscan
    exact hscan

/-- Names that a scan should not have given are dropped. -/
theorem Scope.scanKeys_owned {pattern : String} {keep : Key → Bool} {s s' : σ} {names : List String}
    (h : c.scanKeys client now pattern keep s = (.ok names, s')) :
    ∀ x ∈ names, c.space.owns x = true := by
  intro x hx
  obtain ⟨_, -, -, hnames⟩ := pages_of_scanKeys h
  obtain ⟨k, hk, -⟩ := (Option.any_eq_true _ _).mp ((hnames x).mp hx).2
  exact Namespace.owns_iff.mpr ⟨k, hk⟩

theorem removeBatches_follows (hr : client.Follows now R) (removed : Nat)
    {batches : List (List String)} (hdel : ∀ batch ∈ batches, ∀ s, R s (client.del now batch s).2)
    (s : σ) : R s (removeBatches client now removed batches s).2 := by
  induction batches generalizing removed s with
  | nil => exact hr.refl s
  | cons batch batches ih =>
    have hone := hdel batch List.mem_cons_self s
    rw [removeBatches]
    split
    · rename_i h
      rw [h] at hone
      exact hone
    · rename_i h
      rw [h] at hone
      exact hr.trans hone
        (ih _ (fun batch' hbatch => hdel batch' (List.mem_cons_of_mem batch hbatch)) _)

/-- Only removals of names that the namespace owns have to be known of. -/
theorem Scope.removeMatching_follows (hr : client.Follows now R)
    (hdel : ∀ keys s, (∀ x ∈ keys, c.space.owns x = true) → R s (client.del now keys s).2)
    (pattern : String) (keep : Key → Bool) (s : σ) :
    R s (c.removeMatching client now pattern keep s).2 := by
  have hscan := scanKeys_follows (c := c) hr pattern keep s
  rw [removeMatching]
  split
  · rename_i h
    rw [h] at hscan
    exact hscan
  · rename_i names s' h
    rw [h] at hscan
    apply hr.trans hscan
    apply removeBatches_follows hr 0
    intro batch hbatch t
    apply hdel
    intro x hx
    -- The names to remove were checked after the scan, whatever its pages held.
    have hmem : x ∈ (cut c.batchSize names.length names).flatten :=
      List.mem_flatten_of_mem hbatch hx
    rw [cut_flatten c.batchSize_pos (Nat.le_refl _)] at hmem
    exact scanKeys_owned h x hmem

theorem Scope.readAll_follows (hr : client.Follows now R) (names : List String) (s : σ) :
    R s (c.readAll client now names s).2 := by
  induction names generalizing s with
  | nil => exact hr.refl s
  | cons physical names ih =>
    have hget := hr.get physical s
    rw [readAll]
    split
    · rename_i h
      rw [h] at hget
      exact hget
    · rename_i record s' h
      rw [h] at hget
      have hrest := hr.trans hget (ih s')
      split
      · rename_i h'
        rw [h'] at hrest
        exact hrest
      · rename_i h'
        rw [h'] at hrest
        split
        · exact hrest
        · exact hrest

theorem Scope.entries_follows (hr : client.Follows now R) (s : σ) :
    R s (c.entries client now s).2 := by
  have hscan := scanKeys_follows (c := c) hr (c.storePattern "*") (fun _ => true) s
  rw [entries]
  split
  · rename_i h
    rw [h] at hscan
    exact hscan
  · rename_i names s' h
    rw [h] at hscan
    exact hr.trans hscan (readAll_follows hr names s')

/-- While the store can be reached, a lookup comes to what the record under the key stands for. -/
theorem Scope.get_answer {v : View σ} (hc : Contract client v) (now : Instant) (k : Key) {s : σ}
    (hs : v.ready s) :
    (c.get client now k s).1 = entryOf (v.value? now (c.space.physical k) s) := by
  obtain ⟨_, hget, -⟩ := hc.get now (c.space.physical k) hs
  rw [get_eq, hget]
  rfl

def Scope.handle (c : Scope) (client : Client σ) : Handle σ where
  backend := c.backend client

theorem Scope.after_follows (hr : client.Follows now R)
    (hdel : ∀ keys s, (∀ x ∈ keys, c.space.owns x = true) → R s (client.del now keys s).2) (s : σ)
    {op : Operation}
    (hset : ∀ k e ttl, op = .set k e ttl →
      R s (client.set now (c.space.physical k) (Record.encode e) ttl s).2) :
    R s ((c.handle client).after now s op) := by
  cases op with
  | get k =>
    show R s (c.get client now k s).2
    rw [get_eq]
    exact hr.get _ s
  | set k e ttl => exact hset k e ttl rfl
  | delete k =>
    show R s ((c.backend client).delete now k s).2
    rw [delete_state]
    apply hdel
    intro x hx
    rw [List.mem_singleton.mp hx]
    exact Namespace.owns_physical c.space k
  | deletePath path => exact removeMatching_follows hr hdel _ _ s
  | deletePattern pattern => exact removeMatching_follows hr hdel _ _ s
  | clear => exact removeMatching_follows hr hdel _ _ s
  | entries => exact entries_follows hr s
  | sweep => exact hr.refl s

end ResponseCache.KeyValue
