import ResponseCache.Proofs.BulkRemovals
import ResponseCache.Proofs.Calls
import ResponseCache.Proofs.PathSpellings
import ResponseCache.Proofs.Server

/-!
# Removals that break off and are tried again

A removal ends with the first call that fails. Until then it has removed nothing, or some of its
batches from the first one on, so what is left to take are the names of the other batches. A second
attempt scans anew, finds just these, and comes to the store that the first one would have left.
-/
namespace ResponseCache.KeyValue

variable {σ α : Type}

structure Counted (σ : Type) where
  store : σ
  made : Nat := 0

/-- The number of a call that is to fail and the error that it is to fail with, if any call is to
fail. -/
abbrev Fault := Option (Nat × StoreError)

def Fault.error? (fault : Fault) (number : Nat) : Option StoreError :=
  (fault.filter (·.1 == number)).map (·.2)

/-- A call that fails does nothing to the store. -/
def Counted.call (fault : Fault) (act : Action σ α) : Action (Counted σ) α := fun t =>
  match fault.error? t.made with
  | some e => (.error e, { t with made := t.made + 1 })
  | none => ((act t.store).1, { store := (act t.store).2, made := t.made + 1 })

theorem Fault.error?_eq_some_iff {fault : Fault} {number : Nat} {e : StoreError} :
    fault.error? number = some e ↔ fault = some (number, e) := by
  simp only [error?, Option.map_eq_some_iff, Option.filter_eq_some_iff, beq_iff_eq]
  constructor
  · rintro ⟨⟨_, _⟩, ⟨rfl, rfl⟩, rfl⟩
    rfl
  · rintro rfl
    exact ⟨(number, e), ⟨rfl, rfl⟩, rfl⟩

theorem Counted.of_call {fault : Fault} {act : Action σ α} {t t' : Counted σ} {a : α}
    (h : call fault act t = (.ok a, t')) : act t.store = (.ok a, t'.store) := by
  rw [call] at h
  split at h
  · cases h
  · obtain ⟨hanswer, rfl⟩ := Prod.mk.inj h
    exact Prod.ext hanswer rfl

def Client.failing (client : Client σ) (fault : Fault) : Client (Counted σ) where
  get now key := Counted.call fault (client.get now key)
  set now key value ttl := Counted.call fault (client.set now key value ttl)
  del now keys := Counted.call fault (client.del now keys)
  scan now cursor pattern count := Counted.call fault (client.scan now cursor pattern count)
  pagesLeft now pattern count cursor t := client.pagesLeft now pattern count cursor t.store
  pagesLeft_lt := by
    intro now cursor pattern count t next keys t' h hn
    exact client.pagesLeft_lt (Counted.of_call h) hn

/-- A removal of which a call may fail. The calls are noted with their answers, the latest first. -/
def Scope.attempt (c : Scope) (client : Client σ) (now : Instant) (removal : Removal)
    (fault : Fault) (s : σ) : Except StoreError Nat × Recorded Reply (Counted σ) :=
  removal.run (c.backend (client.failing fault).logged) now { store := { store := s } }

def Reply.removed : Reply → List String
  | del keys (.ok _) => keys
  | _ => []

/-- What calls come to: the one that is to fail does, and no other, and what they did not remove is
left. -/
structure Trace (v : View σ) (now : Instant) (fault : Fault) (r : Recorded Reply (Counted σ))
    (log : List Reply) (r' : Recorded Reply (Counted σ)) : Prop where
  calls : r'.calls = log.reverse ++ r.calls
  made : r'.store.made = r.store.made + log.length
  failures : log.map Reply.failure? = (List.range' r.store.made log.length).map fault.error?
  leaves : v.Leaves now r'.store.store fun later name =>
    if name ∈ log.flatMap Reply.removed then none else v.value? later name r.store.store

variable {client : Client σ} {v : View σ} {now : Instant} {fault : Fault}

namespace Trace
variable {r r' r'' : Recorded Reply (Counted σ)} {log log' : List Reply}

theorem refl (hs : v.ready r.store.store) : Trace v now fault r [] r := by
  refine ⟨rfl, rfl, rfl, ?_⟩
  simpa using View.Leaves.refl hs

theorem append (h : Trace v now fault r log r') (h' : Trace v now fault r' log' r'') :
    Trace v now fault r (log ++ log') r'' := by
  constructor
  · rw [h'.calls, h.calls, List.reverse_append, List.append_assoc]
  · rw [h'.made, h.made, List.length_append, Nat.add_assoc]
  · rw [List.map_append, h.failures, h'.failures, h.made, ← List.map_append, List.range'_append_1,
      List.length_append]
  · refine ⟨h'.leaves.ready, ?_⟩
    intro later hlater name
    rw [h'.leaves.value? later hlater, h.leaves.value? later hlater]
    by_cases hname : name ∈ log.flatMap Reply.removed
    · simp [hname]
    · simp [hname]

/-- One call that would succeed, and leave what it does not remove. -/
theorem single {reply : Except StoreError α → Reply} {act : Action σ α} (hs : v.ready r.store.store)
    (herror : ∀ e, (reply (.error e)).failure? = some e ∧ (reply (.error e)).removed = [])
    (hok : ∃ a s', act r.store.store = (.ok a, s') ∧ (reply (.ok a)).failure? = none ∧
      v.Leaves now s' fun later name =>
        if name ∈ (reply (.ok a)).removed then none else v.value? later name r.store.store) :
    ∃ log, Trace v now fault r log (noteReply reply (Counted.call fault act) r).2 := by
  obtain ⟨a, s', hact, hsucceeds, hleaves⟩ := hok
  cases hfault : fault.error? r.store.made with
  | some e =>
    refine ⟨[reply (.error e)], ?_, ?_, ?_, ?_⟩
    · simp [noteReply, Counted.call, hfault]
    · simp [noteReply, Counted.call, hfault]
    · simp [hfault, herror]
    · simpa [noteReply, Counted.call, hfault, herror] using View.Leaves.refl hs
  | none =>
    refine ⟨[reply (.ok a)], ?_, ?_, ?_, ?_⟩
    · simp [noteReply, Counted.call, hfault, hact]
    · simp [noteReply, Counted.call, hfault]
    · simp [hfault, hsucceeds]
    · simpa [noteReply, Counted.call, hfault, hact] using hleaves

theorem failure?_getElem (h : Trace v now fault r log r') {i : Nat} (hi : i < log.length) :
    log[i].failure? = fault.error? (r.store.made + i) := by
  have hmap := congrArg (·[i]?) h.failures
  simpa [hi] using hmap

theorem not_succeeds {n : Nat} {e : StoreError} (h : Trace v now (some (n, e)) r log r')
    (hmade : r.store.made ≤ n) (hn : n < r.store.made + log.length) : ¬Succeeds log := by
  intro hsucceeds
  have hi : n - r.store.made < log.length := by omega
  have hnone := hsucceeds _ (List.getElem_mem hi)
  rw [h.failure?_getElem hi, Nat.add_sub_cancel' hmade, Fault.error?_eq_some_iff.mpr rfl] at hnone
  cases hnone

theorem of_failsLast {e : StoreError} (h : Trace v now fault r log r') (hfails : FailsLast log e) :
    ∃ n, fault = some (n, e) ∧ n < r.store.made + log.length := by
  obtain ⟨before, last, rfl, -, hlast⟩ := hfails
  have hi : before.length < (before ++ [last]).length := by simp
  have hfault := h.failure?_getElem hi
  rw [List.getElem_concat_length rfl, hlast, eq_comm, Fault.error?_eq_some_iff] at hfault
  exact ⟨_, hfault, Nat.add_lt_add_left hi _⟩

end Trace

/-- A store that keeps its word goes through any calls with a trace, whichever of them is to
fail. -/
theorem Contract.follows_trace (hc : Contract client v) (now : Instant) (fault : Fault) :
    (client.failing fault).logged.Follows now fun r r' =>
      v.ready r.store.store → ∃ log, Trace v now fault r log r' where
  refl r hs := ⟨[], Trace.refl hs⟩
  trans := by
    intro r r' r'' h h' hs
    obtain ⟨log, htrace⟩ := h hs
    obtain ⟨log', htrace'⟩ := h' htrace.leaves.ready
    exact ⟨log ++ log', htrace.append htrace'⟩
  get := by
    intro key r hs
    obtain ⟨s', hget, hleaves⟩ := hc.get now key hs
    exact Trace.single hs (fun _ => ⟨rfl, rfl⟩)
      ⟨_, s', hget, rfl, by simpa [Reply.removed] using hleaves⟩
  scan := by
    intro cursor pattern count r hs
    obtain ⟨next, keys, s', hscan, hleaves⟩ := hc.page now cursor pattern count hs
    exact Trace.single hs (fun _ => ⟨rfl, rfl⟩)
      ⟨_, s', hscan, rfl, by simpa [Reply.removed] using hleaves⟩

theorem Scope.attempt_trace (c : Scope) (hc : Contract client v) (now : Instant) (removal : Removal)
    (fault : Fault) {s : σ} (hs : v.ready s) :
    Trace v now fault { store := { store := s } }
      (c.attempt client now removal fault s).2.calls.reverse
      (c.attempt client now removal fault s).2 := by
  have hremoval : ∃ log, Trace v now fault { store := { store := s } } log
      (c.attempt client now removal fault s).2 := by
    rw [attempt, run_removal]
    apply removeMatching_follows (hc.follows_trace now fault) _ _ _ _ hs
    intro keys r _ hs
    obtain ⟨n, s', hdel, hleaves⟩ := hc.del now keys hs
    exact Trace.single hs (fun _ => ⟨rfl, rfl⟩) ⟨n, s', hdel, rfl, hleaves⟩
  obtain ⟨log, htrace⟩ := hremoval
  have hlog : (c.attempt client now removal fault s).2.calls.reverse = log := by
    rw [htrace.calls, List.append_nil, List.reverse_reverse]
  rw [hlog]
  exact htrace

/-- The scans of a store that can be reached name what can be read, if a rule says so of the name,
and nothing else. -/
def Client.ScansBy (client : Client σ) (v : View σ) (named : String → String → Prop) : Prop :=
  ∀ {now s pattern count keys s'}, v.ready s → 0 < count →
    Pages client now pattern count 0 s keys s' →
    ∀ name, name ∈ keys ↔ v.value? now name s ≠ none ∧ named pattern name

structure Scope.Dooms (c : Scope) (v : View σ) (named : String → String → Prop) (now : Instant)
    (removal : Removal) (s : σ) (doomed : List String) : Prop where
  ascending : doomed.Pairwise (· < ·)
  mem_iff : ∀ name, name ∈ doomed ↔ v.value? now name s ≠ none ∧
    named (c.scannedPattern removal) name ∧
    ∃ k, name = c.space.physical k ∧ removal.checks k = true

variable {named : String → String → Prop} {c : Scope} {removal : Removal} {s : σ}
  {doomed : List String}

namespace Scope.Dooms

theorem eq {doomed' : List String} (h : c.Dooms v named now removal s doomed)
    (h' : c.Dooms v named now removal s doomed') : doomed' = doomed := by
  apply Ascending.eq_of_mem_iff (f := id) h'.ascending h.ascending
  intro name
  rw [h'.mem_iff, h.mem_iff]

theorem nodup (h : c.Dooms v named now removal s doomed) : doomed.Nodup :=
  h.ascending.imp text_ne_of_lt

/-- When the first names to take are gone, the others are left to take. -/
theorem rest {done rest : List String} {s' : σ} (h : c.Dooms v named now removal s (done ++ rest))
    (hleaves : v.Leaves now s' fun later name =>
      if name ∈ done then none else v.value? later name s) :
    c.Dooms v named now removal s' rest := by
  refine ⟨(List.pairwise_append.mp h.ascending).2.1, ?_⟩
  intro name
  rw [hleaves.value? now (Int.le_refl _)]
  by_cases hname : name ∈ done
  · have hnot : name ∉ rest :=
      fun hrest => (List.nodup_append.mp h.nodup).2.2 name hname name hrest rfl
    simp [hname, hnot]
  · rw [if_neg hname, ← h.mem_iff, List.mem_append, or_iff_right hname]

end Scope.Dooms

/-- What a removal takes from the pages of a scan is what it is to take from the store. -/
theorem Scope.dooms_of_pages (hscans : client.ScansBy v named) (hs : v.ready s)
    {keys names : List String} {s' : σ}
    (hpages : Pages client now (c.scannedPattern removal) c.batchSize 0 s keys s')
    (hascending : names.Pairwise (· < ·))
    (hnames : ∀ x, x ∈ names ↔ x ∈ keys ∧ (c.space.logical? x).any removal.checks = true) :
    c.Dooms v named now removal s names := by
  refine ⟨hascending, ?_⟩
  intro name
  simp only [hnames, hscans hs c.batchSize_pos hpages, Option.any_eq_true,
    Namespace.logical?_eq_some_iff, and_assoc]

theorem Scope.exists_dooms (c : Scope) (hc : Contract client v) (hscans : client.ScansBy v named)
    (now : Instant) (removal : Removal) (hs : v.ready s) :
    ∃ doomed, c.Dooms v named now removal s doomed := by
  obtain ⟨_, names, _, hpages, -, -, hascending, hnames⟩ :=
    c.scanKeys_pages now hc (c.scannedPattern removal) removal.checks hs
  exact ⟨names, dooms_of_pages hscans hs hpages hascending hnames⟩

namespace Server

def scanView (loose : Bool) : View Server :=
  { view with ready := fun s => view.ready s ∧ s.listing.loose = loose }

theorem scanView_contract (loose : Bool) : Contract Server.client (scanView loose) :=
  contract.restrict (fun _ _ _ hs => hs) (fun _ _ _ _ _ hs => hs) (fun _ _ _ hs => hs)
    (fun _ _ _ _ _ hs => hs)

theorem client_scansBy (loose : Bool) : Server.client.ScansBy (scanView loose) fun pattern name =>
    loose = true ∨ Wildcard.isMatch pattern name = true := by
  rintro now s pattern count keys s' ⟨hs, rfl⟩ hcount hpages name
  rw [mem_pages_iff hs hcount hpages, List.drop_zero, mem_keys_iff]
  rfl

end Server

theorem pages_of_failing {pattern : String} {count cursor : Nat} {r r' : Recorded Reply (Counted σ)}
    {keys : List String}
    (h : Pages (client.failing fault).logged now pattern count cursor r keys r') :
    Pages client now pattern count cursor r.store.store keys r'.store.store := by
  have hpage : ∀ {cursor r next keys r'},
      (client.failing fault).logged.scan now cursor pattern count r = (.ok (next, keys), r') →
      client.scan now cursor pattern count r.store.store = (.ok (next, keys), r'.store.store) := by
    intro cursor r next keys r' h
    obtain ⟨hanswer, rfl⟩ := Prod.mk.inj h
    exact Counted.of_call (Prod.ext hanswer rfl)
  induction h with
  | last h => exact .last (hpage h)
  | more h hnext _ ih => exact .more (hpage h) hnext ih

theorem Walk.eq_scan {pattern : String} {count cursor : Nat} {scans : List Reply}
    (h : Walk pattern count cursor scans) :
    ∀ reply ∈ scans, ∃ cursor answer, reply = .scan cursor pattern count answer := by
  induction h with
  | last cursor keys => simp
  | failed cursor e => simp
  | more cursor keys _ _ ih => simpa using ih

theorem Walk.removes_nothing {pattern : String} {count cursor : Nat} {scans : List Reply}
    (h : Walk pattern count cursor scans) : scans.flatMap Reply.removed = [] := by
  apply List.flatMap_eq_nil_iff.mpr
  intro reply hreply
  obtain ⟨_, _, rfl⟩ := h.eq_scan reply hreply
  rfl

theorem Reply.removed_of_isDel {r : Reply} (hdel : r.IsDel) (h : r.failure? = none) :
    r.removed = r.keys := by
  match r, hdel with
  | del _ (.ok _), _ => rfl
  | del _ (.error _), _ => cases h

theorem Reply.eq_del_of_failure {r : Reply} {e : StoreError} (hdel : r.IsDel)
    (h : r.failure? = some e) : r = .del r.keys (.error e) := by
  match r, hdel with
  | del _ (.ok _), _ => cases h
  | del _ (.error _), _ =>
    cases h
    rfl

theorem Succeeds.removed {dels : List Reply} (h : Succeeds dels)
    (hdels : ∀ reply ∈ dels, reply.IsDel) :
    dels.flatMap Reply.removed = (dels.map Reply.keys).flatten := by
  rw [List.flatMap_def]
  apply congrArg List.flatten
  apply List.map_congr_left
  intro reply hreply
  exact Reply.removed_of_isDel (hdels reply hreply) (h reply hreply)

/-- The call that a removal broke off at, the last one in its log, and what was removed until
then. -/
inductive BreaksAt (e : StoreError) (batches : List (List String)) : List Reply → List String → Prop
  | scan (before : List Reply) (cursor : Nat) (pattern : String) (count : Nat) :
    BreaksAt e batches (before ++ [.scan cursor pattern count (.error e)]) []
  | del (before : List Reply) {removed : List (List String)} {batch : List String} :
    removed ++ [batch] <+: batches →
    BreaksAt e batches (before ++ [.del batch (.error e)]) removed.flatten

theorem BreaksAt.isPrefix {e : StoreError} {batches : List (List String)} {log : List Reply}
    {done : List String} (h : BreaksAt e batches log done) : done <+: batches.flatten := by
  cases h with
  | scan => exact List.nil_prefix
  | del _ hbatches =>
    obtain ⟨others, rfl⟩ := hbatches
    rw [List.append_assoc, List.flatten_append]
    exact List.prefix_append _ _

/-- A scan that fails breaks off a removal before it takes anything. -/
theorem Walk.breaksAt {pattern : String} {count cursor : Nat} {scans : List Reply} {e : StoreError}
    {batches : List (List String)} (h : Walk pattern count cursor scans)
    (hfails : FailsLast scans e) : BreaksAt e batches scans [] := by
  obtain ⟨before, last, rfl, -, hlast⟩ := hfails
  obtain ⟨cursor, answer, rfl⟩ := h.eq_scan last List.mem_concat_self
  cases answer with
  | ok page => cases hlast
  | error e' =>
    cases hlast
    exact .scan before cursor pattern count

theorem FailsLast.breaksAt {scans dels : List Reply} {e : StoreError} {batches : List (List String)}
    (hfails : FailsLast dels e) (hdels : ∀ reply ∈ dels, reply.IsDel)
    (hkeys : dels.map Reply.keys <+: batches) :
    BreaksAt e batches (scans ++ dels) (dels.flatMap Reply.removed) := by
  obtain ⟨before, last, rfl, hbefore, hlast⟩ := hfails
  obtain ⟨hdels, hdel⟩ := List.forall_mem_append.mp hdels
  rw [List.map_append] at hkeys
  rw [Reply.eq_del_of_failure (hdel last List.mem_cons_self) hlast, List.flatMap_append,
    hbefore.removed hdels]
  simpa [Reply.removed] using BreaksAt.del (scans ++ before) hkeys

/-- An attempt takes all that it is to take, or breaks off at the first call that fails. -/
theorem Scope.attempt_ends (hscans : client.ScansBy v named) (hs : v.ready s)
    (hdooms : c.Dooms v named now removal s doomed) (fault : Fault) :
    ∃ log, (c.attempt client now removal fault s).2.calls = log.reverse ∧
      Outcome log (fun _ => log.flatMap Reply.removed = doomed)
        (c.attempt client now removal fault s).1 ∧
      ∀ e, (c.attempt client now removal fault s).1 = .error e →
        BreaksAt e (cut c.batchSize doomed.length doomed) log (log.flatMap Reply.removed) := by
  obtain ⟨scans, hcalls, hwalk, hfound⟩ :=
    c.scanKeys_logged (client.failing fault) now (c.scannedPattern removal) removal.checks
      { store := { store := s } }
  rw [attempt, run_removal, removeMatching]
  split
  · rename_i e r' hscan
    rw [hscan] at hcalls hfound
    refine ⟨scans, hcalls.trans (List.append_nil _), hfound, ?_⟩
    intro e' he
    cases he
    rw [hwalk.removes_nothing]
    exact hwalk.breaksAt hfound
  · rename_i names r' hscan
    rw [hscan] at hcalls hfound
    obtain ⟨keys, hpages, hascending, hnames⟩ := pages_of_scanKeys hscan
    obtain rfl := hdooms.eq (dooms_of_pages hscans hs (pages_of_failing hpages) hascending hnames)
    obtain ⟨dels, hcalls', hdels, hkeys, houtcome⟩ :=
      removeBatches_logged (client.failing fault) now 0 (cut c.batchSize names.length names) r'
    have hremoved : (scans ++ dels).flatMap Reply.removed = dels.flatMap Reply.removed := by
      rw [List.flatMap_append, hwalk.removes_nothing, List.nil_append]
    refine ⟨scans ++ dels, ?_, ?_, ?_⟩
    · rw [hcalls', hcalls, List.append_nil, List.reverse_append]
    · generalize (removeBatches (client.failing fault).logged now 0 _ r').1 = answer at houtcome
      cases answer with
      | error e => exact FailsLast.append hfound.1 houtcome
      | ok total =>
        refine ⟨hfound.1.append houtcome.1, ?_⟩
        rw [hremoved, houtcome.1.removed hdels, houtcome.2.2,
          cut_flatten c.batchSize_pos (Nat.le_refl _)]
    · intro e he
      rw [he] at houtcome
      rw [hremoved]
      exact FailsLast.breaksAt houtcome hdels hkeys

/-- The names that an attempt removed from a store, one after the other. It changed nothing else. -/
structure Took (v : View σ) (now : Instant) (s : σ) (names : List String)
    (attempt : Except StoreError Nat × Recorded Reply (Counted σ)) : Prop where
  removed : attempt.2.calls.reverse.flatMap Reply.removed = names
  leaves : v.Leaves now attempt.2.store.store fun later name =>
    if name ∈ names then none else v.value? later name s

structure Completes (v : View σ) (now : Instant) (s : σ) (doomed : List String)
    (attempt : Except StoreError Nat × Recorded Reply (Counted σ)) :
    Prop extends Took v now s doomed attempt where
  answer : ∃ total, attempt.1 = .ok total

structure BreaksOff (v : View σ) (now : Instant) (s : σ) (e : StoreError)
    (batches : List (List String)) (done : List String)
    (attempt : Except StoreError Nat × Recorded Reply (Counted σ)) :
    Prop extends Took v now s done attempt where
  answer : attempt.1 = .error e
  point : BreaksAt e batches attempt.2.calls.reverse done

theorem Scope.attempt_cases (hc : Contract client v) (hscans : client.ScansBy v named)
    (hs : v.ready s) (hdooms : c.Dooms v named now removal s doomed) (fault : Fault) :
    (Succeeds (c.attempt client now removal fault s).2.calls.reverse ∧
      Completes v now s doomed (c.attempt client now removal fault s)) ∨
    ∃ e done, FailsLast (c.attempt client now removal fault s).2.calls.reverse e ∧ done <+: doomed ∧
      BreaksOff v now s e (cut c.batchSize doomed.length doomed) done
        (c.attempt client now removal fault s) := by
  have hleaves := (c.attempt_trace hc now removal fault hs).leaves
  obtain ⟨log, hcalls, hends, hpoint⟩ := attempt_ends hscans hs hdooms fault
  have hlog : (c.attempt client now removal fault s).2.calls.reverse = log := by
    rw [hcalls, List.reverse_reverse]
  rw [hlog] at hleaves ⊢
  cases hanswer : (c.attempt client now removal fault s).1 with
  | ok total =>
    rw [hanswer] at hends
    obtain ⟨hsucceeds, rfl⟩ := hends
    exact .inl ⟨hsucceeds, ⟨congrArg _ hlog, hleaves⟩, total, hanswer⟩
  | error e =>
    rw [hanswer] at hends
    have hbroken := hpoint e hanswer
    have hprefix := hbroken.isPrefix
    rw [cut_flatten c.batchSize_pos (Nat.le_refl _)] at hprefix
    exact .inr ⟨e, _, hends, hprefix, ⟨congrArg _ hlog, hleaves⟩, hanswer, hlog.symm ▸ hbroken⟩

/-- An attempt completes if the call that is to fail would come after its last one. -/
theorem Scope.attempt_completes (hc : Contract client v) (hscans : client.ScansBy v named)
    (hs : v.ready s) (hdooms : c.Dooms v named now removal s doomed)
    (hfault : ∀ n e, fault = some (n, e) →
      (c.attempt client now removal fault s).2.calls.length ≤ n) :
    Completes v now s doomed (c.attempt client now removal fault s) := by
  rcases attempt_cases hc hscans hs hdooms fault with ⟨-, h⟩ | ⟨e, done, hfails, -, -⟩
  · exact h
  · obtain ⟨n, hn, hlt⟩ := (c.attempt_trace hc now removal fault hs).of_failsLast hfails
    have hle := hfault n e hn
    rw [Nat.zero_add, List.length_reverse] at hlt
    omega

theorem Scope.attempt_breaksOff (hc : Contract client v) (hscans : client.ScansBy v named)
    (hs : v.ready s) (hdooms : c.Dooms v named now removal s doomed) {n : Nat} {e : StoreError}
    (hn : n < (c.attempt client now removal (some (n, e)) s).2.calls.length) :
    ∃ done, done <+: doomed ∧
      BreaksOff v now s e (cut c.batchSize doomed.length doomed) done
        (c.attempt client now removal (some (n, e)) s) := by
  have htrace := c.attempt_trace hc now removal (some (n, e)) hs
  rcases attempt_cases hc hscans hs hdooms (some (n, e)) with ⟨hsucceeds, -⟩ | ⟨e', done, hfails, h⟩
  · refine absurd hsucceeds (htrace.not_succeeds (Nat.zero_le n) ?_)
    rwa [Nat.zero_add, List.length_reverse]
  · obtain ⟨_, hfault, -⟩ := htrace.of_failsLast hfails
    cases hfault
    exact ⟨done, h⟩

/-- In a store that keeps its word, and names in scans what can be read by some rule, a removal
takes all that it is to take if no call fails. If a call fails, the removal fails with the same
error. Then either it was a page of the scan that failed, and nothing has been removed, or it was a
batch, and just the batches before it have been. A second attempt removes the other names, each
once, and leaves the values that one attempt leaves of which no call fails. -/
theorem Scope.removal_retried (c : Scope) (hc : Contract client v) (hscans : client.ScansBy v named)
    (now : Instant) (removal : Removal) (hs : v.ready s) (n : Nat) (e : StoreError) :
    let once := c.attempt client now removal none s
    let first := c.attempt client now removal (some (n, e)) s
    let again := c.attempt client now removal none first.2.store.store
    ∃ doomed, c.Dooms v named now removal s doomed ∧ Completes v now s doomed once ∧
      (first.2.calls.length ≤ n → Completes v now s doomed first) ∧
      (n < first.2.calls.length → ∃ done rest, done ++ rest = doomed ∧
        BreaksOff v now s e (cut c.batchSize doomed.length doomed) done first ∧
        Completes v now first.2.store.store rest again ∧
        v.Leaves now again.2.store.store fun later name =>
          v.value? later name once.2.store.store) := by
  intro once first again
  obtain ⟨doomed, hdooms⟩ := c.exists_dooms hc hscans now removal hs
  have honce : Completes v now s doomed once := attempt_completes hc hscans hs hdooms nofun
  refine ⟨doomed, hdooms, honce, ?_, ?_⟩
  · intro hn
    apply attempt_completes hc hscans hs hdooms
    rintro _ _ ⟨⟩
    exact hn
  · intro hn
    obtain ⟨done, ⟨rest, rfl⟩, hfirst⟩ := attempt_breaksOff hc hscans hs hdooms hn
    have hagain : Completes v now first.2.store.store rest again :=
      attempt_completes hc hscans hfirst.leaves.ready (hdooms.rest hfirst.leaves) nofun
    refine ⟨done, rest, rfl, hfirst, hagain, hagain.leaves.ready, ?_⟩
    intro later hlater name
    rw [hagain.leaves.value? later hlater, hfirst.leaves.value? later hlater,
      honce.leaves.value? later hlater]
    by_cases hdone : name ∈ done
    · simp [hdone]
    · simp [hdone]

/-- Three keys have the path to remove, a fourth has another one, and a fifth is in another
namespace. The scan takes three pages and names all five keys twice, so the call of number four is
the removal of the second batch. The second attempt has fewer pages, with other keys in them. -/
theorem Scope.removal_retried_at_second_batch :
    let e : Entry :=
      { etag := "", content := [], status := .ok, headers := {}, storedAt := .epoch,
        expiresAt := none, policy := {} }
    let c : Scope := { batch := 2 }
    let c' : Scope := { c with space := ⟨"cache:"⟩ }
    let keys : List Key :=
      [.derive .get "a" "/é" [], .derive .get "b" "/é" [], .derive .get "c" "/é" [],
        .derive .get "a" "/" []]
    let filled := (c.backend Server.client).fill .epoch e keys
        { listing := { loose := true, twice := true, page := some 2 } }
    let s := (c'.backend Server.client).fill .epoch e [.derive .get "a" "/é" []] filled
    let failure := StoreError.unavailable "connection reset"
    let once := c.attempt Server.client .epoch (.path "/é") none s
    let first := c.attempt Server.client .epoch (.path "/é") (some (4, failure)) s
    let again := c.attempt Server.client .epoch (.path "/é") none first.2.store.store
    (Server.scanView true).ready s ∧ 4 < first.2.calls.length ∧ first.1 = .error failure ∧
      first.2.calls.reverse.flatMap Reply.removed =
        ["cachex:GET|||a|||/%C3%A9|||", "cachex:GET|||b|||/%C3%A9|||"] ∧
      again.2.calls.reverse.flatMap Reply.removed =
        ["cachex:GET|||c|||/%C3%A9|||"] ∧
      (∃ total, again.1 = .ok total) ∧
      again.2.store.store.base.items.keys =
        ["cache:GET|||a|||/%C3%A9|||", "cachex:GET|||a|||/|||"] ∧
      (Server.scanView true).Leaves .epoch again.2.store.store fun later name =>
        (Server.scanView true).value? later name once.2.store.store := by
  intro e c c' keys filled s failure
  dsimp only
  have hs : (Server.scanView true).ready s :=
    ⟨⟨by decide +kernel, by decide +kernel, by decide +kernel⟩, by decide +kernel⟩
  have hcalls : 4 <
      (c.attempt Server.client .epoch (.path "/é") (some (4, failure)) s).2.calls.length := by
    decide +kernel
  obtain ⟨_, -, -, -, hbroken⟩ :=
    c.removal_retried (Server.scanView_contract true) (Server.client_scansBy true) .epoch
      (.path "/é") hs 4 failure
  obtain ⟨_, _, -, hfirst, hagain, hleaves⟩ := hbroken hcalls
  refine ⟨hs, hcalls, hfirst.answer, ?_, ?_, hagain.answer, ?_, hleaves⟩
  · decide +kernel
  · decide +kernel
  · decide +kernel

end ResponseCache.KeyValue
