import ResponseCache.KeyValue.Backend
import ResponseCache.KeyValue.Server
import ResponseCache.Memcached.Backend
import ResponseCache.Memory.Basic
import ResponseCache.Proofs.Records
import ResponseCache.Proofs.Slots

/-!
# What backends give out

A lookup finds nothing that was not written. In memory that is the entry itself. Outside the process
it is an entry that a record stands for, which agrees with the one that was written in all but its
times.
-/
namespace ResponseCache

variable {σ : Type}

/-- States in which all entries that can be found are of one kind. Reads keep them, and so do writes
of that kind. -/
structure Backend.Keeps (b : Backend σ) (good : Entry → Prop) (inside : σ → Prop) : Prop where
  get : ∀ {now k s}, inside s → inside (b.get now k s).2
  found : ∀ {now k s e}, inside s → (b.get now k s).1 = .ok (some e) → good e
  set : ∀ {now k s e ttl}, inside s → good e → inside (b.set now k e ttl s).2

def Entry.IsTimeless (good : Entry → Prop) : Prop :=
  ∀ (e : Entry) expiresAt storedAt, good e → good { e with expiresAt, storedAt }

/-- What a store holds. Reads find nothing else, and a write adds its value only, whether it
succeeds or fails. -/
structure Custody {τ : Type} (get : Instant → String → Action σ (Option Bytes))
    (set : Instant → String → Bytes → τ → Action σ Unit) (holds : Bytes → σ → Prop) : Prop where
  found : ∀ {now key s value}, (get now key s).1 = .ok (some value) → holds value s
  get : ∀ {now key s value}, holds value (get now key s).2 → holds value s
  set : ∀ {now key s written expiry value}, holds value (set now key written expiry s).2 →
    value = written ∨ holds value s

def RecordsAre (good : Entry → Prop) (holds : Bytes → σ → Prop) (s : σ) : Prop :=
  ∀ value e, holds value s → Record.decode value = .ok e → good e

namespace Custody
variable {τ : Type} {get : Instant → String → Action σ (Option Bytes)}
  {set : Instant → String → Bytes → τ → Action σ Unit} {holds : Bytes → σ → Prop}
  {good : Entry → Prop}

theorem records_get (hc : Custody get set holds) (now : Instant) (key : String) {s : σ}
    (hs : RecordsAre good holds s) : RecordsAre good holds (get now key s).2 :=
  fun value e hvalue => hs value e (hc.get hvalue)

/-- A record that is read back stands for what was written, but for its times. -/
theorem records_set (hc : Custody get set holds) (hgood : Entry.IsTimeless good) (now : Instant)
    (key : String) (expiry : τ) {s : σ} (hs : RecordsAre good holds s) {e : Entry} (he : good e) :
    RecordsAre good holds (set now key (Record.encode e) expiry s).2 := by
  intro value found hvalue hfound
  rcases hc.set hvalue with rfl | hbefore
  · obtain ⟨expiresAt, storedAt, rfl⟩ := Record.eq_of_decode_encode hfound
    exact hgood e expiresAt storedAt he
  · exact hs value found hbefore hfound

end Custody

namespace ItemStore
variable {ε : Type} {now : Instant} {s : ItemStore ε} {value : Bytes} {key : String}

def Holds (value : Bytes) (s : ItemStore ε) : Prop :=
  ∃ key item, s.items.find? key = some item ∧ item.value = value

theorem not_holds_empty (faults : Faults) : ¬Holds value ({ faults } : ItemStore ε) := by
  rintro ⟨key, item, hitem, -⟩
  cases hitem

theorem Holds.of_expire (now : Instant) (h : Holds value (s.expire now)) : Holds value s := by
  obtain ⟨key, item, hitem, hvalue⟩ := h
  rw [find?_expire, Option.filter_eq_some_iff] at hitem
  exact ⟨key, item, hitem.1, hvalue⟩

theorem holds_of_get (h : (get now key s).1 = .ok (some value)) : Holds value s := by
  rw [get] at h
  obtain ⟨faults, ⟨e, hcall⟩ | hcall⟩ :=
    call_cases now (fun b => (.ok ((b.items.find? key).map (·.value)), b)) s
  · rw [hcall] at h
    cases h
  · rw [hcall] at h
    obtain ⟨item, hitem, hvalue⟩ := Option.map_eq_some_iff.mp (Except.ok.inj h)
    exact Holds.of_expire now ⟨key, item, hitem, hvalue⟩

/-- A call that changes no items holds nothing new. -/
theorem holds_call {α : Type} {body : ItemStore ε → Except StoreError α × ItemStore ε}
    (hbody : ∀ b, (body b).2 = b) (h : Holds value (call now body s).2) : Holds value s := by
  obtain ⟨faults, ⟨e, hcall⟩ | hcall⟩ := call_cases now body s
  · rw [hcall] at h
    exact Holds.of_expire now h
  · rw [hcall, hbody] at h
    exact Holds.of_expire now h

theorem holds_put {item : Item ε} (h : Holds value (put now key item s).2) :
    value = item.value ∨ Holds value s := by
  rw [put] at h
  obtain ⟨faults, ⟨e, hcall⟩ | hcall⟩ := call_cases now (fun b =>
    if b.faults.writesAbort then (.error .writeAborted, b)
    else (.ok (), { b with items := b.items.insert key item })) s
  · rw [hcall] at h
    exact .inr (Holds.of_expire now h)
  · rw [hcall] at h
    split at h
    · exact .inr (Holds.of_expire now h)
    · obtain ⟨k, found, hfound, hvalue⟩ := h
      rw [KeyMap.find?_insert] at hfound
      split at hfound
      · cases hfound
        exact .inl hvalue.symm
      · exact .inr (Holds.of_expire now ⟨k, found, hfound, hvalue⟩)

end ItemStore

theorem KeyValue.Server.custody :
    Custody client.get client.set fun value s => s.base.Holds value where
  found {now key s value} h := by
    replace h : (ItemStore.call now (fun b =>
      (.ok (if s.listing.hidden.contains key then none else (b.items.find? key).map (·.value)), b))
      s.base).1 = .ok (some value) := h
    obtain ⟨faults, ⟨e, hcall⟩ | hcall⟩ := ItemStore.call_cases now (fun b =>
      (.ok (if s.listing.hidden.contains key then none else (b.items.find? key).map (·.value)), b))
      s.base
    · rw [hcall] at h
      cases h
    · rw [hcall] at h
      replace h := Except.ok.inj h
      split at h
      · cases h
      · obtain ⟨item, hitem, hvalue⟩ := Option.map_eq_some_iff.mp h
        exact ItemStore.Holds.of_expire now ⟨key, item, hitem, hvalue⟩
  get {now key s value} h := by
    have hbody : ∀ b : ItemStore Duration, ((.ok (if s.listing.hidden.contains key then none
        else (b.items.find? key).map (·.value)), b) :
          Except StoreError (Option Bytes) × ItemStore Duration).2 = b :=
      fun _ => rfl
    exact ItemStore.holds_call hbody h
  set h := ItemStore.holds_put h

theorem Memcached.Server.custody : Custody client.get client.set fun value s => s.Holds value where
  found := ItemStore.holds_of_get
  get := ItemStore.holds_call fun _ => rfl
  set := ItemStore.holds_put

/-- What a read of a record comes to is an entry only if there is a record, and it stands for the
entry. -/
theorem KeyValue.of_entryOf_eq_some {read : Except StoreError (Option Bytes)} {e : Entry}
    (h : read.bind entryOf = .ok (some e)) :
    ∃ record, read = .ok (some record) ∧ Record.decode record = .ok e := by
  rcases read with _ | _ | record
  · cases h
  · cases h
  · replace h : (Record.decode record).map some = .ok (some e) := h
    cases hdecode : Record.decode record with
    | error fault =>
      rw [hdecode] at h
      cases h
    | ok found =>
      rw [hdecode] at h
      cases h
      exact ⟨record, rfl, hdecode⟩

namespace KeyValue.Scope

theorem get_eq (c : Scope) (client : Client σ) (now : Instant) (k : Key) (s : σ) :
    c.get client now k s =
      ((client.get now (c.space.physical k) s).1.bind entryOf,
        (client.get now (c.space.physical k) s).2) := by
  rw [get]
  rcases client.get now (c.space.physical k) s with ⟨_ | _, s'⟩
  · rfl
  · rfl

theorem delete_state (c : Scope) (client : Client σ) (now : Instant) (k : Key) (s : σ) :
    ((c.backend client).delete now k s).2 = (client.del now [c.space.physical k] s).2 := by
  simp only [backend]
  rcases client.del now [c.space.physical k] s with ⟨_ | _, s'⟩
  · rfl
  · rfl

end KeyValue.Scope

namespace Memcached

theorem get_eq (client : Client σ) (n : Namespace) (now : Instant) (k : Key) (s : State σ) :
    get client n now k s = ((client.get now (wireKey n k) s.store).1.bind KeyValue.entryOf,
      { s with store := (client.get now (wireKey n k) s.store).2 }) := by
  rw [get]
  rcases client.get now (wireKey n k) s.store with ⟨_ | _ | _, store⟩
  · rfl
  · rfl
  · rfl

theorem set_store (client : Client σ) (n : Namespace) (now : Instant) (k : Key) (e : Entry)
    (ttl : Option Duration) (s : State σ) :
    (set client n now k e ttl s).2.store =
      (client.set now (wireKey n k) (Record.encode e) (expiry now ttl) s.store).2 := by
  rw [set]
  rcases client.set now (wireKey n k) (Record.encode e) (expiry now ttl) s.store with ⟨_ | _, store⟩
  · rfl
  · rfl

theorem delete_store (client : Client σ) (n : Namespace) (now : Instant) (k : Key) (s : State σ) :
    (delete client n now k s).2.store = (client.delete now (wireKey n k) s.store).2 := by
  rw [delete]
  rcases client.delete now (wireKey n k) s.store with ⟨_ | _, store⟩
  · rfl
  · rfl

end Memcached

variable {good : Entry → Prop}

theorem Memory.keeps (n : Namespace) (good : Entry → Prop) :
    (backend n).Keeps good fun m =>
      ∀ physical slot, m.slots.find? physical = some slot → good slot.entry where
  get hs := hs
  found {now k m e} hs h := by
    obtain ⟨slot, hslot, -, rfl⟩ := get_eq_some_iff.mp (Except.ok.inj h)
    exact hs _ slot hslot
  set {now k m e ttl} hs he := by
    intro physical slot hslot
    replace hslot : (m.set n now k e ttl).slots.find? physical = some slot := hslot
    rw [find?_set] at hslot
    split at hslot
    · cases hslot
      exact he
    · exact hs physical slot hslot

theorem KeyValue.keeps (c : Scope) {client : Client σ} {holds : Bytes → σ → Prop}
    (hc : Custody client.get client.set holds) (hgood : Entry.IsTimeless good) :
    (c.backend client).Keeps good (RecordsAre good holds) where
  get {now k s} hs := by
    show RecordsAre good holds (c.get client now k s).2
    rw [Scope.get_eq]
    exact hc.records_get now _ hs
  found {now k s e} hs h := by
    replace h : (c.get client now k s).1 = .ok (some e) := h
    rw [Scope.get_eq] at h
    obtain ⟨record, hread, hdecode⟩ := of_entryOf_eq_some h
    exact hs record e (hc.found hread) hdecode
  set hs he := hc.records_set hgood _ _ _ hs he

theorem Memcached.keeps (n : Namespace) {client : Client σ} {holds : Bytes → σ → Prop}
    (hc : Custody client.get client.set holds) (hgood : Entry.IsTimeless good) :
    (backend client n).Keeps good fun s => RecordsAre good holds s.store where
  get {now k s} hs := by
    show RecordsAre good holds (get client n now k s).2.store
    rw [get_eq]
    exact hc.records_get now _ hs
  found {now k s e} hs h := by
    replace h : (get client n now k s).1 = .ok (some e) := h
    rw [get_eq] at h
    obtain ⟨record, hread, hdecode⟩ := KeyValue.of_entryOf_eq_some h
    exact hs record e (hc.found hread) hdecode
  set {now k s e ttl} hs he := by
    show RecordsAre good holds (set client n now k e ttl s).2.store
    rw [set_store]
    exact hc.records_set hgood now _ _ hs he

/-- The backends, each with the states in which its store holds nothing. -/
inductive Backend.StartsEmpty : {σ : Type} → Backend σ → σ → Prop
  | memory (n : Namespace) : StartsEmpty (Memory.backend n) {}
  | keyValue {σ : Type} {client : KeyValue.Client σ} {holds : Bytes → σ → Prop} {s : σ}
      (c : KeyValue.Scope) (hc : Custody client.get client.set holds)
      (hs : ∀ value, ¬holds value s) : StartsEmpty (c.backend client) s
  | memcached {σ : Type} {client : Memcached.Client σ} {holds : Bytes → σ → Prop}
      {s : Memcached.State σ} (n : Namespace) (hc : Custody client.get client.set holds)
      (hs : ∀ value, ¬holds value s.store) : StartsEmpty (Memcached.backend client n) s

/-- Every backend keeps to a kind of entries that does not depend on times. -/
theorem Backend.StartsEmpty.keeps {b : Backend σ} {s : σ} (h : b.StartsEmpty s)
    (hgood : Entry.IsTimeless good) : ∃ inside, b.Keeps good inside ∧ inside s := by
  cases h with
  | memory n =>
    refine ⟨_, Memory.keeps n good, ?_⟩
    intro physical slot hslot
    cases hslot
  | keyValue c hc hs =>
    exact ⟨_, KeyValue.keeps c hc hgood, fun value _ hvalue => absurd hvalue (hs value)⟩
  | memcached n hc hs =>
    exact ⟨_, Memcached.keeps n hc hgood, fun value _ hvalue => absurd hvalue (hs value)⟩

end ResponseCache
