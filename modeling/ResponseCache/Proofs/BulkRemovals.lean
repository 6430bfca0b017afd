import Mathlib.Algebra.GroupWithZero.Nat
import ResponseCache.Proofs.Contract

/-!
# Removals of many entries, call by call

A removal goes through all the pages of a scan before it removes anything. Whatever the pages name,
it then asks the store to remove exactly those names of its namespace that it is to take: each once,
in ascending order, in batches of limited size. The store is any that comes to the end of its scans;
nothing is assumed of what it names or counts.
-/
namespace ResponseCache

inductive Removal
  | path (path : String)
  | pattern (pattern : String)
  | everything
deriving DecidableEq

namespace Removal

def run {σ : Type} (b : Backend σ) (now : Instant) : Removal → Action σ Nat
  | path p => b.deletePath now p
  | pattern p => b.deletePattern now p
  | everything => b.clear now

/-- What is checked of a key that a scan names. Patterns are left to the store. -/
def checks : Removal → Key → Bool
  | path p, k => k.parts.path == p
  | pattern _, _ | everything, _ => true

end Removal

namespace KeyValue

variable {σ α : Type}

inductive Reply
  | get (key : String) (answer : Except StoreError (Option Bytes))
  | set (key : String) (ttl : Option Duration) (answer : Except StoreError Unit)
  | del (keys : List String) (answer : Except StoreError Nat)
  | scan (cursor : Nat) (pattern : String) (count : Nat)
    (answer : Except StoreError (Nat × List String))

namespace Reply

def IsDel : Reply → Prop
  | del .. => True
  | _ => False

def keys : Reply → List String
  | del keys _ | scan _ _ _ (.ok (_, keys)) => keys
  | _ => []

def count : Reply → Nat
  | del _ (.ok n) => n
  | _ => 0

def failure? : Reply → Option StoreError
  | get _ (.error e) | set _ _ (.error e) | del _ (.error e) | scan _ _ _ (.error e) => some e
  | _ => none

end Reply

def noteReply (reply : Except StoreError α → Reply) (act : Action σ α) :
    Action (Recorded Reply σ) α := fun r =>
  let (answer, store) := act r.store
  (answer, { store, calls := reply answer :: r.calls })

def Client.logged (client : Client σ) : Client (Recorded Reply σ) where
  get now key := noteReply (.get key) (client.get now key)
  set now key value ttl := noteReply (.set key ttl) (client.set now key value ttl)
  del now keys := noteReply (.del keys) (client.del now keys)
  scan now cursor pattern count :=
    noteReply (.scan cursor pattern count) (client.scan now cursor pattern count)
  pagesLeft now pattern count cursor r := client.pagesLeft now pattern count cursor r.store
  pagesLeft_lt := by
    intro now cursor pattern count s next keys s' h hn
    obtain ⟨hanswer, rfl⟩ := Prod.mk.inj h
    exact client.pagesLeft_lt (Prod.ext hanswer rfl) hn

def Succeeds (log : List Reply) : Prop := ∀ r ∈ log, r.failure? = none

def FailsLast (log : List Reply) (e : StoreError) : Prop :=
  ∃ before last, log = before ++ [last] ∧ Succeeds before ∧ last.failure? = some e

/-- An operation comes to a good value if all its calls succeed. The first call that fails ends it,
with the same error. -/
def Outcome (log : List Reply) (good : α → Prop) : Except StoreError α → Prop
  | .ok a => Succeeds log ∧ good a
  | .error e => FailsLast log e

theorem Succeeds.append {log log' : List Reply} (h : Succeeds log) (h' : Succeeds log') :
    Succeeds (log ++ log') := by
  intro r hr
  rcases List.mem_append.mp hr with hr | hr
  · exact h r hr
  · exact h' r hr

theorem FailsLast.append {log log' : List Reply} {e : StoreError} (h : Succeeds log)
    (h' : FailsLast log' e) : FailsLast (log ++ log') e := by
  obtain ⟨before, last, rfl, hbefore, hlast⟩ := h'
  exact ⟨log ++ before, last, (List.append_assoc ..).symm, h.append hbefore, hlast⟩

/-- Calls that succeed before the others leave the end as it is. -/
theorem Outcome.after {log log' : List Reply} {good good' : α → Prop} {answer : Except StoreError α}
    (h' : Outcome log' good answer) (h : Succeeds log) (hgood : ∀ a, good a → good' a) :
    Outcome (log ++ log') good' answer := by
  cases answer with
  | error e => exact FailsLast.append h h'
  | ok a => exact ⟨h.append h'.1, hgood a h'.2⟩

theorem failsLast_single {r : Reply} {e : StoreError} (h : r.failure? = some e) : FailsLast [r] e :=
  ⟨[], r, rfl, fun _ hr => absurd hr List.not_mem_nil, h⟩

theorem succeeds_single {r : Reply} (h : r.failure? = none) : Succeeds [r] := by
  intro r' hr
  rw [List.mem_singleton.mp hr]
  exact h

/-- Pages asked for one after the other, each by the cursor that the page before it gave, until the
store gives cursor zero or a call fails. -/
inductive Walk (pattern : String) (count : Nat) : Nat → List Reply → Prop
  | last (cursor : Nat) (keys : List String) :
    Walk pattern count cursor [.scan cursor pattern count (.ok (0, keys))]
  | failed (cursor : Nat) (e : StoreError) :
    Walk pattern count cursor [.scan cursor pattern count (.error e)]
  | more (cursor : Nat) {next : Nat} (keys : List String) {rest : List Reply} : next ≠ 0 →
    Walk pattern count next rest →
    Walk pattern count cursor (.scan cursor pattern count (.ok (next, keys)) :: rest)

variable (client : Client σ) (now : Instant)

theorem scanFrom_logged {pattern : String} {count : Nat} (keep : String → Bool) {fuel cursor : Nat}
    (found : List String) {r : Recorded Reply σ}
    (hfuel : client.logged.pagesLeft now pattern count cursor r < fuel) :
    ∃ scans, (scanFrom client.logged now pattern count keep fuel cursor found r hfuel).2.calls =
      scans.reverse ++ r.calls ∧
      Walk pattern count cursor scans ∧
      Outcome scans
        (fun names => ∀ x, x ∈ names ↔ x ∈ scans.flatMap Reply.keys ∧ keep x = true ∨ x ∈ found)
        (scanFrom client.logged now pattern count keep fuel cursor found r hfuel).1 := by
  induction fuel generalizing cursor found r with
  | zero => exact absurd hfuel (Nat.not_lt_zero _)
  | succ fuel ih =>
    rw [scanFrom]
    split
    · rename_i e r' hpage
      obtain ⟨hanswer, rfl⟩ := Prod.mk.inj hpage
      refine ⟨[.scan cursor pattern count (.error e)], ?_, .failed cursor e, failsLast_single rfl⟩
      rw [hanswer]
      rfl
    · rename_i next keys r' hpage
      obtain ⟨hanswer, rfl⟩ := Prod.mk.inj hpage
      split
      · rename_i hlast
        subst hlast
        refine ⟨[.scan cursor pattern count (.ok (0, keys))], ?_, .last cursor keys,
          succeeds_single rfl, ?_⟩
        · rw [hanswer]
          rfl
        · intro x
          simp [Reply.keys]
      · rename_i hnext
        obtain ⟨scans, hcalls, hwalk, houtcome⟩ := ih (keys.filter keep ++ found) _
        refine ⟨.scan cursor pattern count (.ok (next, keys)) :: scans, ?_,
          .more cursor keys hnext hwalk, ?_⟩
        · rw [hcalls, hanswer, List.reverse_cons, List.append_assoc]
          rfl
        · apply houtcome.after
            (succeeds_single (r := .scan cursor pattern count (.ok (next, keys))) rfl)
          intro names hnames x
          rw [hnames, List.flatMap_cons, List.mem_append, List.mem_append, List.mem_filter,
            Reply.keys, or_and_right, or_assoc, or_left_comm]

/-- The names that pages name and a removal is to take, each once, in ascending order. -/
def Scope.namesIn (c : Scope) (keep : Key → Bool) (scans : List Reply) : List String :=
  Ascending.ofList ((scans.flatMap Reply.keys).filter fun name => (c.space.logical? name).any keep)

theorem Scope.mem_namesIn {c : Scope} {keep : Key → Bool} {scans : List Reply} {name : String} :
    name ∈ c.namesIn keep scans ↔
      name ∈ scans.flatMap Reply.keys ∧ ∃ k, name = c.space.physical k ∧ keep k = true := by
  simp only [namesIn, Ascending.mem_ofList, List.mem_filter, Option.any_eq_true,
    Namespace.logical?_eq_some_iff]

theorem Scope.scanKeys_logged (c : Scope) (pattern : String) (keep : Key → Bool)
    (r : Recorded Reply σ) :
    ∃ scans, (c.scanKeys client.logged now pattern keep r).2.calls = scans.reverse ++ r.calls ∧
      Walk pattern c.batchSize 0 scans ∧
      Outcome scans (· = c.namesIn keep scans) (c.scanKeys client.logged now pattern keep r).1 := by
  have hfuel := Nat.lt_succ_self (client.logged.pagesLeft now pattern c.batchSize 0 r)
  obtain ⟨scans, hcalls, hwalk, hfound⟩ :=
    scanFrom_logged client now (fun physical => (c.space.logical? physical).any keep) [] hfuel
  rw [scanKeys]
  split
  · rename_i e r' hscan
    rw [hscan] at hcalls hfound
    exact ⟨scans, hcalls, hwalk, hfound⟩
  · rename_i names r' hscan
    rw [hscan] at hcalls hfound
    refine ⟨scans, hcalls, hwalk, hfound.1, Ascending.ofList_congr ?_⟩
    intro name
    rw [hfound.2, List.mem_filter]
    simp

theorem length_of_mem_cut {size : Nat} (hsize : 0 < size) {fuel : Nat} {names piece : List String}
    (h : piece ∈ cut size fuel names) : 0 < piece.length ∧ piece.length ≤ size := by
  induction fuel generalizing names with
  | zero => cases h
  | succ fuel ih =>
    rw [cut] at h
    split at h
    · cases h
    · rename_i hnames
      rcases List.mem_cons.mp h with rfl | h
      · rw [List.isEmpty_iff, ← List.length_eq_zero_iff] at hnames
        rw [List.length_take]
        omega
      · exact ih h

theorem removeBatches_logged (removed : Nat) (batches : List (List String)) (r : Recorded Reply σ) :
    ∃ dels, (removeBatches client.logged now removed batches r).2.calls = dels.reverse ++ r.calls ∧
      (∀ reply ∈ dels, reply.IsDel) ∧ dels.map Reply.keys <+: batches ∧
      Outcome dels
        (fun total => total = removed + (dels.map Reply.count).sum ∧ dels.map Reply.keys = batches)
        (removeBatches client.logged now removed batches r).1 := by
  induction batches generalizing removed r with
  | nil =>
    exact ⟨[], rfl, fun _ h => absurd h List.not_mem_nil, List.nil_prefix,
      fun _ h => absurd h List.not_mem_nil, rfl, rfl⟩
  | cons batch batches ih =>
    rw [removeBatches]
    split
    · rename_i e r' hdel
      obtain ⟨hanswer, rfl⟩ := Prod.mk.inj hdel
      refine ⟨[.del batch (.error e)], ?_, ?_, ?_, failsLast_single rfl⟩
      · rw [hanswer]
        rfl
      · rintro reply hreply
        rw [List.mem_singleton.mp hreply]
        trivial
      · exact List.prefix_append [batch] batches
    · rename_i n r' hdel
      obtain ⟨hanswer, rfl⟩ := Prod.mk.inj hdel
      obtain ⟨dels, hcalls, hdels, hkeys, houtcome⟩ := ih (removed + n) _
      refine ⟨.del batch (.ok n) :: dels, ?_, ?_, ?_, ?_⟩
      · rw [hcalls, hanswer, List.reverse_cons, List.append_assoc]
        rfl
      · intro reply hreply
        rcases List.mem_cons.mp hreply with rfl | hreply
        · trivial
        · exact hdels reply hreply
      · exact (List.cons_prefix_cons).mpr ⟨rfl, hkeys⟩
      · apply houtcome.after (succeeds_single (r := .del batch (.ok n)) rfl)
        rintro total ⟨htotal, hall⟩
        constructor
        · rw [htotal, List.map_cons, List.sum_cons, Nat.add_assoc]
          rfl
        · rw [List.map_cons, hall]
          rfl

def Scope.scannedPattern (c : Scope) : Removal → String
  | .path p => c.storePattern (pathPattern p)
  | .pattern p => c.storePattern (c.space.relative p)
  | .everything => c.storePattern "*"

theorem Scope.run_removal (c : Scope) (removal : Removal) :
    removal.run (c.backend client) now =
      c.removeMatching client now (c.scannedPattern removal) removal.checks := by
  cases removal <;> rfl

/-- What a removal asks of the store: first the pages of a scan, which give it names to take, then
removals of those. -/
structure Scope.Requests (c : Scope) (removal : Removal) (scans : List Reply) (names : List String)
    (dels : List Reply) : Prop where
  walk : Walk (c.scannedPattern removal) (max c.batch 1) 0 scans
  ascending : names.Pairwise (· < ·)
  /-- The names to take are those of the namespace, among all that the pages name, whose keys
  pass. -/
  taken : ∀ name, name ∈ names ↔
    name ∈ scans.flatMap Reply.keys ∧ ∃ k, name = c.space.physical k ∧ removal.checks k = true
  /-- They are asked for from the first one on, none twice and nothing else. -/
  asked : dels.flatMap Reply.keys <+: names
  batched : ∀ reply ∈ dels, reply.IsDel ∧ 0 < reply.keys.length ∧ reply.keys.length ≤ max c.batch 1

/-- Batches cut off the names that the pages name come to requests. -/
theorem Scope.requests_of_batches {c : Scope} {removal : Removal} {scans dels : List Reply}
    (hwalk : Walk (c.scannedPattern removal) c.batchSize 0 scans)
    (hdels : ∀ reply ∈ dels, reply.IsDel)
    (hkeys : dels.map Reply.keys <+: cut c.batchSize (c.namesIn removal.checks scans).length
      (c.namesIn removal.checks scans)) :
    c.Requests removal scans (c.namesIn removal.checks scans) dels := by
  constructor
  · exact hwalk
  · exact Ascending.pairwise_ofList _
  · intro name
    exact mem_namesIn
  · obtain ⟨rest, hrest⟩ := hkeys
    refine ⟨rest.flatten, ?_⟩
    rw [List.flatMap_def, ← List.flatten_append, hrest, cut_flatten c.batchSize_pos (Nat.le_refl _)]
  · intro reply hreply
    have hpiece : reply.keys ∈ cut c.batchSize (c.namesIn removal.checks scans).length
        (c.namesIn removal.checks scans) :=
      hkeys.subset (List.mem_map_of_mem hreply)
    exact ⟨hdels reply hreply, length_of_mem_cut c.batchSize_pos hpiece⟩

theorem Scope.Requests.eq_nil {c : Scope} {removal : Removal} {scans dels : List Reply}
    (h : c.Requests removal scans [] dels) : dels = [] := by
  apply List.eq_nil_iff_forall_not_mem.mpr
  intro reply hreply
  have hnone : dels.flatMap Reply.keys = [] := List.prefix_nil.mp h.asked
  have hkeys : reply.keys = [] := List.flatMap_eq_nil_iff.mp hnone reply hreply
  have hlength := (h.batched reply hreply).2.1
  rw [hkeys] at hlength
  exact Nat.lt_irrefl 0 hlength

/-- Whatever the store names and counts, and whenever it fails, a removal asks it to remove nothing
before the scan is over, then the names to take and no others. If no call fails, it asks for all of
them and answers with the sum of the counts that it gets. If there is nothing to take, it asks for
nothing. -/
theorem Scope.removal_requests (c : Scope) (client : Client σ) (now : Instant) (removal : Removal)
    (s : σ) :
    ∃ scans names dels,
      (removal.run (c.backend client.logged) now { store := s }).2.calls.reverse = scans ++ dels ∧
      c.Requests removal scans names dels ∧ (names = [] → dels = []) ∧
      Outcome (scans ++ dels)
        (fun total => dels.flatMap Reply.keys = names ∧ total = (dels.map Reply.count).sum)
        (removal.run (c.backend client.logged) now { store := s }).1 := by
  obtain ⟨scans, hcalls, hwalk, hfound⟩ :=
    c.scanKeys_logged client now (c.scannedPattern removal) removal.checks { store := s }
  rw [c.run_removal client.logged now removal, removeMatching]
  split
  · rename_i e r' hscan
    rw [hscan] at hcalls hfound
    have hrequests : c.Requests removal scans (c.namesIn removal.checks scans) [] :=
      requests_of_batches hwalk (fun _ h => absurd h List.not_mem_nil) List.nil_prefix
    refine ⟨scans, c.namesIn removal.checks scans, [], ?_, hrequests, fun _ => rfl, ?_⟩
    · rw [hcalls, List.append_nil, List.append_nil, List.reverse_reverse]
    · rw [List.append_nil]
      exact hfound
  · rename_i names r' hscan
    rw [hscan] at hcalls hfound
    obtain ⟨hsucceeds, rfl⟩ := hfound
    obtain ⟨dels, hcalls', hdels, hkeys, houtcome⟩ :=
      removeBatches_logged client now 0 (cut c.batchSize _ (c.namesIn removal.checks scans)) r'
    have hrequests : c.Requests removal scans (c.namesIn removal.checks scans) dels :=
      requests_of_batches hwalk hdels hkeys
    refine ⟨scans, c.namesIn removal.checks scans, dels, ?_, hrequests, ?_, ?_⟩
    · rw [hcalls', hcalls, List.append_nil, List.reverse_append, List.reverse_reverse,
        List.reverse_reverse]
    · intro hnone
      rw [hnone] at hrequests
      exact hrequests.eq_nil
    · apply houtcome.after hsucceeds
      rintro total ⟨htotal, hall⟩
      constructor
      · rw [List.flatMap_def, hall, cut_flatten c.batchSize_pos (Nat.le_refl _)]
      · rw [htotal, Nat.zero_add]

end KeyValue
end ResponseCache
