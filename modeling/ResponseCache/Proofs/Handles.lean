import ResponseCache.Inspection
import ResponseCache.KeyValue.Server
import ResponseCache.Memcached.Client
import ResponseCache.Proofs.Slots

/-!
# Handles on a shared store

Caches share a store through handles, each with a namespace. What a handle may do to the others is
said of the items that its namespace does not own, and of what is read through a handle of a
namespace apart from it.
-/
namespace ResponseCache

variable {σ α : Type}

inductive Operation
  | get (k : Key)
  | set (k : Key) (e : Entry) (ttl : Option Duration)
  | delete (k : Key)
  | deletePath (path : String)
  | deletePattern (pattern : String)
  | clear
  | entries
  | sweep

/-- A backend with what a sweep does to its store. -/
structure Handle (σ : Type) where
  backend : Backend σ
  sweep : Instant → σ → σ := fun _ s => s

namespace Handle
variable (h : Handle σ)

/-- The state that an operation leaves, whether it succeeds or fails. -/
def after (now : Instant) (s : σ) : Operation → σ
  | .get k => (h.backend.get now k s).2
  | .set k e ttl => (h.backend.set now k e ttl s).2
  | .delete k => (h.backend.delete now k s).2
  | .deletePath path => (h.backend.deletePath now path s).2
  | .deletePattern pattern => (h.backend.deletePattern now pattern s).2
  | .clear => (h.backend.clear now s).2
  | .entries => (h.backend.entries now s).2
  | .sweep => h.sweep now s

def run (ops : List (Instant × Operation)) (s : σ) : σ := ops.foldl (fun s x => h.after x.1 s x.2) s

/-- What every operation does to a state, a run of them does. -/
theorem run_related {R : σ → σ → Prop} (hrefl : ∀ s, R s s)
    (htrans : ∀ {s s' s''}, R s s' → R s' s'' → R s s'') {ops : List (Instant × Operation)}
    (hstep : ∀ x ∈ ops, ∀ s, R s (h.after x.1 s x.2)) (s : σ) : R s (h.run ops s) := by
  induction ops generalizing s with
  | nil => exact hrefl s
  | cons x ops ih =>
    have hrest := ih fun y hy => hstep y (List.mem_cons_of_mem x hy)
    exact htrans (hstep x List.mem_cons_self s) (hrest (h.after x.1 s x.2))

/-- What holds from a time on and is kept by every operation at its time, holds after a run in the
order of time. -/
theorem run_invariant {P : Instant → σ → Prop}
    (hlater : ∀ {now later s}, now ≤ later → P now s → P later s) {ops : List (Instant × Operation)}
    (hstep : ∀ x ∈ ops, ∀ s, P x.1 s → P x.1 (h.after x.1 s x.2)) {start t : Instant}
    (horder : (start :: ops.map (·.1)).Pairwise (· ≤ ·)) (ht : ∀ u ∈ start :: ops.map (·.1), u ≤ t)
    {s : σ} (hs : P start s) : P t (h.run ops s) := by
  induction ops generalizing start s with
  | nil => exact hlater (ht start List.mem_cons_self) hs
  | cons x ops ih =>
    obtain ⟨hstart, hrest⟩ := List.pairwise_cons.mp horder
    have hthen := hlater (hstart x.1 List.mem_cons_self) hs
    apply ih (fun y hy => hstep y (List.mem_cons_of_mem x hy)) hrest fun u hu =>
      ht u (List.mem_cons_of_mem start hu)
    exact hstep x List.mem_cons_self s hthen

end Handle

namespace Namespace

def Apart (a b : Namespace) : Prop := a.owns b.lead = false ∧ b.owns a.lead = false

instance (a b : Namespace) : Decidable (a.Apart b) := inferInstanceAs (Decidable (_ ∧ _))

def Spares (n : Namespace) (item? : String → σ → α) (s s' : σ) : Prop :=
  ∀ name, n.owns name = false → item? name s' = item? name s

@[simp] theorem owns_physical (n : Namespace) (k : Key) : n.owns (n.physical k) = true :=
  owns_iff.mpr ⟨k, logical?_physical n k⟩

theorem ne_physical {n : Namespace} {name : String} (h : n.owns name = false) (k : Key) :
    name ≠ n.physical k := by
  rintro rfl
  rw [owns_physical] at h
  cases h

theorem logical?_of_not_owns {n : Namespace} {name : String} (h : n.owns name = false) :
    n.logical? name = none := by
  apply Option.eq_none_iff_forall_ne_some.mpr
  intro k hk
  rw [owns_iff.mpr ⟨k, hk⟩] at h
  cases h

/-- Two namespaces that own one name are not apart. -/
theorem Apart.owns_eq_false {a b : Namespace} (h : a.Apart b) {name : String}
    (hb : b.owns name = true) : a.owns name = false := by
  apply Bool.eq_false_iff.mpr
  intro ha
  rw [owns, List.isPrefixOf_iff_prefix] at ha hb
  rcases List.prefix_or_prefix_of_prefix ha hb with hab | hba
  · exact Bool.eq_false_iff.mp h.1 (List.isPrefixOf_iff_prefix.mpr hab)
  · exact Bool.eq_false_iff.mp h.2 (List.isPrefixOf_iff_prefix.mpr hba)

namespace Spares
variable {n : Namespace} {item? : String → σ → α} {s s' s'' : σ}

theorem refl (n : Namespace) (item? : String → σ → α) (s : σ) : n.Spares item? s s := fun _ _ => rfl

theorem trans (h : n.Spares item? s s') (h' : n.Spares item? s' s'') : n.Spares item? s s'' :=
  fun name hname => (h' name hname).trans (h name hname)

end Spares
end Namespace

structure Backend.ReadsAlike (b : Backend σ) (t : Instant) (s s' : σ) : Prop where
  get : ∀ k, (b.get t k s').1 = (b.get t k s).1
  entries : (b.entries t s').1 = (b.entries t s).1
  report : (Inspection.collect b t s').1 = (Inspection.collect b t s).1

theorem Inspection.collect_answer (b : Backend σ) (t : Instant) (s : σ) :
    (collect b t s).1 = (b.entries t s).1.map fun es =>
      .ofHits (es.map fun x => .ofEntry t x.1 x.2) := by
  rw [collect]
  rcases b.entries t s with ⟨_ | _, s'⟩
  · rfl
  · rfl

theorem Inspection.collect_state (b : Backend σ) (t : Instant) (s : σ) :
    (collect b t s).2 = (b.entries t s).2 := by
  rw [collect]
  rcases b.entries t s with ⟨_ | _, s'⟩
  · rfl
  · rfl

/-- A report is made from a listing. -/
theorem Backend.readsAlike_of_entries {b : Backend σ} {t : Instant} {s s' : σ}
    (hget : ∀ k, (b.get t k s').1 = (b.get t k s).1)
    (hentries : (b.entries t s').1 = (b.entries t s).1) : b.ReadsAlike t s s' := by
  refine ⟨hget, hentries, ?_⟩
  rw [Inspection.collect_answer, Inspection.collect_answer, hentries]

/-- Calls touch the items that they name and no others, whether they succeed or fail. An item is
looked at from the time of the call on, so that what expires on the way does not count. -/
structure KeyValue.Client.IsLocal (client : KeyValue.Client σ) (item? : Instant → String → σ → α) :
    Prop where
  get : ∀ {now later} key s name, now ≤ later →
    item? later name (client.get now key s).2 = item? later name s
  set : ∀ {now later} key value ttl s name, now ≤ later → name ≠ key →
    item? later name (client.set now key value ttl s).2 = item? later name s
  del : ∀ {now later} keys s name, now ≤ later → name ∉ keys →
    item? later name (client.del now keys s).2 = item? later name s
  scan : ∀ {now later} cursor pattern count s name, now ≤ later →
    item? later name (client.scan now cursor pattern count s).2 = item? later name s

structure Memcached.Client.IsLocal (client : Memcached.Client σ)
    (item? : Instant → String → σ → α) : Prop where
  get : ∀ {now later} key s name, now ≤ later →
    item? later name (client.get now key s).2 = item? later name s
  set : ∀ {now later} key value expiry s name, now ≤ later → name ≠ key →
    item? later name (client.set now key value expiry s).2 = item? later name s
  delete : ∀ {now later} key s name, now ≤ later → name ≠ key →
    item? later name (client.delete now key s).2 = item? later name s

namespace ItemStore
variable {ε : Type} {now later : Instant} {name : String}

def item? (t : Instant) (name : String) (s : ItemStore ε) : Option (Item ε) :=
  (s.expire t).items.find? name

theorem item?_congr {s s' : ItemStore ε} (h : s'.items.find? name = s.items.find? name) :
    item? later name s' = item? later name s := by
  rw [item?, item?, find?_expire, find?_expire, h]

/-- A call touches no more than its body does. -/
theorem item?_call (hle : now ≤ later) {body : ItemStore ε → Except StoreError α × ItemStore ε}
    (hbody : ∀ s, (body s).2.items.find? name = s.items.find? name) (s : ItemStore ε) :
    item? later name (call now body s).2 = item? later name s := by
  obtain ⟨faults, ⟨e, hcall⟩ | hcall⟩ := call_cases now body s
  · rw [hcall]
    exact find?_expire_later hle s name
  · rw [hcall, item?_congr (hbody _)]
    exact find?_expire_later hle s name

theorem item?_put (hle : now ≤ later) {key : String} (hname : name ≠ key) (item : Item ε)
    (s : ItemStore ε) : item? later name (put now key item s).2 = item? later name s := by
  apply item?_call hle
  intro s
  split
  · rfl
  · exact (KeyMap.find?_insert ..).trans (if_neg hname)

theorem item?_remove (hle : now ≤ later) {keys : List String} (hname : name ∉ keys)
    (s : ItemStore ε) : item? later name (remove now keys s).2 = item? later name s := by
  apply item?_call hle
  intro s
  rw [KeyMap.find?_filter]
  cases s.items.find? name with
  | none => rfl
  | some item => simp [hname]

/-- What a call that fails and changes no items leaves. -/
theorem item?_call_error (hle : now ≤ later)
    {body : ItemStore ε → Except StoreError α × ItemStore ε}
    (hbody : ∀ {s e s'}, body s = (.error e, s') → s'.items = s.items) {s s' : ItemStore ε}
    {e : StoreError} (h : call now body s = (.error e, s')) :
    item? later name s' = item? later name s := by
  obtain ⟨faults, ⟨e', hcall⟩ | hcall⟩ := call_cases now body s
  · cases hcall.symm.trans h
    exact find?_expire_later hle s name
  · have hsame : s'.items.find? name = _ :=
      congrArg (KeyMap.find? · name) (hbody (hcall.symm.trans h))
    rw [item?_congr hsame]
    exact find?_expire_later hle s name

theorem item?_put_ok {key : String} {item : Item ε} {s s' : ItemStore ε}
    (h : put now key item s = (.ok (), s')) :
    item? later key s' = if later.isBefore item.dropAt then some item else none := by
  have hitem : s'.items.find? key = some item := by
    rw [put] at h
    obtain ⟨faults, ⟨e, hcall⟩ | hcall⟩ := call_cases now (fun b =>
      if b.faults.writesAbort then (.error .writeAborted, b)
      else (.ok (), { b with items := b.items.insert key item })) s
    · cases hcall.symm.trans h
    · replace h := hcall.symm.trans h
      split at h
      · cases h
      · cases h
        exact (KeyMap.find?_insert ..).trans (if_pos rfl)
  rw [item?, find?_expire, hitem]
  rfl

theorem item?_put_error (hle : now ≤ later) {key : String} {item : Item ε} {s s' : ItemStore ε}
    {e : StoreError} (h : put now key item s = (.error e, s')) :
    item? later name s' = item? later name s := by
  refine item?_call_error hle ?_ h
  intro s e s' hbody
  split at hbody
  · cases hbody
    rfl
  · cases hbody

theorem item?_remove_ok {keys : List String} (hname : name ∈ keys) {s s' : ItemStore ε}
    {count : Nat} (h : remove now keys s = (.ok count, s')) : item? later name s' = none := by
  have hitem : s'.items.find? name = none := by
    rw [remove] at h
    obtain ⟨faults, ⟨e, hcall⟩ | hcall⟩ := call_cases now (fun b =>
      let kept := b.items.filter fun k _ => !keys.contains k
      (.ok (b.items.size - kept.size), { b with items := kept })) s
    · cases hcall.symm.trans h
    · cases hcall.symm.trans h
      simp [KeyMap.find?_filter, hname]
  rw [item?, find?_expire, hitem]
  rfl

theorem item?_remove_error (hle : now ≤ later) {keys : List String} {s s' : ItemStore ε}
    {e : StoreError} (h : remove now keys s = (.error e, s')) :
    item? later name s' = item? later name s := by
  refine item?_call_error hle ?_ h
  intro s e s' hbody
  cases hbody

end ItemStore

namespace KeyValue.Server

theorem item?_onBase {now later : Instant} {name : String} (hle : now ≤ later)
    {body : ItemStore Duration → Except StoreError α × ItemStore Duration}
    (hbody : ∀ b, (body b).2.items.find? name = b.items.find? name) (s : Server) :
    (onBase (ItemStore.call now body) s).2.base.item? later name = s.base.item? later name :=
  ItemStore.item?_call hle hbody s.base

theorem client_isLocal : client.IsLocal fun t name s => s.base.item? t name where
  get _ s _ hle := item?_onBase hle (fun _ => rfl) s
  set _ _ _ s _ hle hname := ItemStore.item?_put hle hname _ s.base
  del _ s _ hle hname := ItemStore.item?_remove hle hname s.base
  scan _ _ _ s _ hle := item?_onBase hle (fun _ => rfl) s

end KeyValue.Server

theorem Memcached.Server.client_isLocal : client.IsLocal fun t name s => s.item? t name where
  get _ s _ hle := ItemStore.item?_call hle (fun _ => rfl) s
  set _ _ _ s _ hle hname := ItemStore.item?_put hle hname _ s
  delete key s name hle hname := by
    have hremove := ItemStore.item?_remove hle (mt List.mem_singleton.mp hname) s
    simp only [client]
    split
    · rename_i h
      rw [h] at hremove
      exact hremove
    · rename_i h
      rw [h] at hremove
      exact hremove

end ResponseCache
