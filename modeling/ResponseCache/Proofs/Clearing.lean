import ResponseCache.Proofs.Freshness
import ResponseCache.Proofs.Isolation

/-!
# Clearing by an index

A handle that cannot list its keys clears what its index has. As long as nobody else writes to the
store, the index has every key that can still be read: the store drops an item before the index may
forget its key, whichever calls fail.
-/
namespace ResponseCache

/-- What is written lasts for good, or for a whole number of seconds that is not zero. -/
def Operation.LastsSeconds : Operation → Prop
  | .set _ _ (some ttl) => 0 < ttl.seconds ∧ ttl.subseconds = 0
  | _ => True

instance : (op : Operation) → Decidable op.LastsSeconds
  | .set _ _ (some _) => inferInstanceAs (Decidable (_ ∧ _))
  | .set _ _ none | .get _ | .delete _ | .deletePath _ | .deletePattern _ | .clear | .entries
  | .sweep => .isTrue trivial

theorem Duration.nanos_of_whole {d : Duration} (h : d.subseconds = 0) :
    d.nanos = d.seconds * nanosPerSecond :=
  (Nat.div_mul_cancel (Nat.dvd_of_mod_eq_zero h)).symm

theorem Duration.secondsUp_of_whole {d : Duration} (h : d.subseconds = 0) :
    d.secondsUp = d.seconds := by
  rw [secondsUp, h, if_pos rfl, Nat.add_zero]

theorem Duration.ofSeconds_seconds {d : Duration} (h : d.subseconds = 0) :
    ofSeconds d.seconds = d := by
  rw [ofSeconds, ← nanos_of_whole h, clamp_eq_self]

/-- The whole seconds since the epoch, and the rest. -/
theorem Instant.seconds_since_epoch {now : Instant} (h : epoch ≤ now) :
    ((now.since epoch).seconds * nanosPerSecond : Nat) ≤ now.nanos ∧
      now.nanos < ((now.since epoch).seconds * nanosPerSecond : Nat) + nanosPerSecond := by
  have hsince : (now.since epoch).nanos = (now.nanos - epoch.nanos).toNat := now.since_nanos epoch
  have hzero : epoch.nanos = 0 := rfl
  have hsign : epoch.nanos ≤ now.nanos := h
  rw [Duration.seconds, hsince]
  simp only [nanosPerSecond]
  omega

namespace Memcached

/-- A store that follows the rule for expiry and may fail any calls. A call that fails has no
effect. -/
structure Client.FollowsRule {σ : Type} (client : Client σ)
    (value? : Instant → String → σ → Option Bytes) : Prop
    extends client.IsLocal value? where
  read : ∀ {now key s found s'}, client.get now key s = (.ok found, s') → found = value? now key s
  stored : ∀ {now later key value expiry s s'}, client.set now key value expiry s = (.ok (), s') →
    now ≤ later →
    value? later key s' = if later.isBefore (dropTime now expiry) then some value else none
  refused : ∀ {now later key value expiry s e s'},
    client.set now key value expiry s = (.error e, s') → now ≤ later →
    value? later key s' = value? later key s
  deleted : ∀ {now later key s existed s'}, client.delete now key s = (.ok existed, s') →
    now ≤ later → value? later key s' = none
  kept : ∀ {now later key s e s'}, client.delete now key s = (.error e, s') → now ≤ later →
    value? later key s' = value? later key s

/-- A server follows the rule, whatever is to fail. -/
theorem Server.client_followsRule : client.FollowsRule view.value? where
  toIsLocal := client_isLocal_value
  read {now key s found s'} h := by
    obtain ⟨faults, ⟨e, hcall⟩ | hcall⟩ :=
      ItemStore.call_cases now (fun b => (.ok ((b.items.find? key).map (·.value)), b)) s
    · cases hcall.symm.trans h
    · cases hcall.symm.trans h
      rfl
  stored {now later key value expiry s s'} h hle := by
    show (ItemStore.item? later key s').map (·.value) = _
    rw [ItemStore.item?_put_ok h]
    split
    · rfl
    · rfl
  refused {now later key value expiry s e s'} h hle := by
    show (ItemStore.item? later key s').map (·.value) = (ItemStore.item? later key s).map (·.value)
    rw [ItemStore.item?_put_error hle h]
  deleted {now later key s existed s'} h hle := by
    obtain ⟨count, hremove⟩ : ∃ count, ItemStore.remove now [key] s = (.ok count, s') := by
      simp only [client] at h
      split at h
      · cases h
      · rename_i count s'' hremove
        cases h
        exact ⟨count, hremove⟩
    show (ItemStore.item? later key s').map (·.value) = none
    rw [ItemStore.item?_remove_ok List.mem_cons_self hremove]
    rfl
  kept {now later key s e s'} h hle := by
    have hremove : ItemStore.remove now [key] s = (.error e, s') := by
      simp only [client] at h
      split at h
      · rename_i hremove
        cases h
        exact hremove
      · cases h
    show (ItemStore.item? later key s').map (·.value) = (ItemStore.item? later key s).map (·.value)
    rw [ItemStore.item?_remove_error hle hremove]

def lostIf {σ α : Type} (fails : Bool) (act : Action σ α) : Action σ α := fun s =>
  if fails then (.error (.unavailable "connection reset"), s) else act s

section
variable {σ α : Type} {fails : Bool} {act : Action σ α} {s s' : σ}

theorem lostIf_ok {a : α} (h : lostIf fails act s = (.ok a, s')) : act s = (.ok a, s') := by
  rw [lostIf] at h
  split at h
  · cases h
  · exact h

theorem lostIf_error {e : StoreError} (h : lostIf fails act s = (.error e, s')) :
    s' = s ∨ act s = (.error e, s') := by
  rw [lostIf] at h
  split at h
  · cases h
    exact .inl rfl
  · exact .inr h

theorem lostIf_state (fails : Bool) (act : Action σ α) (s : σ) :
    (lostIf fails act s).2 = s ∨ (lostIf fails act s).2 = (act s).2 := by
  rw [lostIf]
  split
  · exact .inl rfl
  · exact .inr rfl

end

/-- A connection that fails some calls before they reach the store. -/
def Client.failing {σ : Type} (client : Client σ) (fails : Instant → Call → Bool) : Client σ where
  get now key := lostIf (fails now (.get key)) (client.get now key)
  set now key value expiry := lostIf (fails now (.set key expiry)) (client.set now key value expiry)
  delete now key := lostIf (fails now (.delete key)) (client.delete now key)

theorem Client.FollowsRule.failing {σ : Type} {client : Client σ}
    {value? : Instant → String → σ → Option Bytes} (hc : client.FollowsRule value?)
    (fails : Instant → Call → Bool) : (client.failing fails).FollowsRule value? where
  get {now later} key s name hle := by
    rcases lostIf_state (fails now (.get key)) (client.get now key) s with h | h
    · exact congrArg (value? later name) h
    · exact (congrArg (value? later name) h).trans (hc.get key s name hle)
  set {now later} key value expiry s name hle hname := by
    rcases lostIf_state (fails now (.set key expiry)) (client.set now key value expiry) s with h | h
    · exact congrArg (value? later name) h
    · exact (congrArg (value? later name) h).trans (hc.set key value expiry s name hle hname)
  delete {now later} key s name hle hname := by
    rcases lostIf_state (fails now (.delete key)) (client.delete now key) s with h | h
    · exact congrArg (value? later name) h
    · exact (congrArg (value? later name) h).trans (hc.delete key s name hle hname)
  read h := hc.read (lostIf_ok h)
  stored h hle := hc.stored (lostIf_ok h) hle
  refused h hle := by
    rcases lostIf_error h with rfl | h
    · rfl
    · exact hc.refused h hle
  deleted h hle := hc.deleted (lostIf_ok h) hle
  kept h hle := by
    rcases lostIf_error h with rfl | h
    · rfl
    · exact hc.kept h hle

variable {σ : Type} {client : Client σ} {value? : Instant → String → σ → Option Bytes}
  {n : Namespace} {now later : Instant}

namespace Client.FollowsRule
variable {key name : String} {store store' : σ}

theorem set_other (hc : client.FollowsRule value?) {value : Bytes} {expiry : Nat}
    {answer : Except StoreError Unit} (h : client.set now key value expiry store = (answer, store'))
    (hle : now ≤ later) (hname : name ≠ key) :
    value? later name store' = value? later name store := by
  have hother := hc.set key value expiry store name hle hname
  rwa [h] at hother

theorem delete_other (hc : client.FollowsRule value?) {answer : Except StoreError Bool}
    (h : client.delete now key store = (answer, store')) (hle : now ≤ later) (hname : name ≠ key) :
    value? later name store' = value? later name store := by
  have hother := hc.delete key store name hle hname
  rwa [h] at hother

theorem set_error (hc : client.FollowsRule value?) {value : Bytes} {expiry : Nat} {e : StoreError}
    (h : client.set now key value expiry store = (.error e, store')) (hle : now ≤ later)
    (name : String) : value? later name store' = value? later name store := by
  by_cases hname : name = key
  · rw [hname]
    exact hc.refused h hle
  · exact hc.set_other h hle hname

theorem delete_error (hc : client.FollowsRule value?) {e : StoreError}
    (h : client.delete now key store = (.error e, store')) (hle : now ≤ later) (name : String) :
    value? later name store' = value? later name store := by
  by_cases hname : name = key
  · rw [hname]
    exact hc.kept h hle
  · exact hc.delete_other h hle hname

end Client.FollowsRule

theorem expiry_lt (now : Instant) (ttl : Option Duration) : expiry now ttl < 2 ^ 32 := by
  cases ttl with
  | none => exact Nat.two_pow_pos 32
  | some d =>
    rw [expiry]
    omega

theorem expiry_relative {d : Duration} (h : d.secondsUp ≤ relativeLimit) :
    expiry now (some d) = d.secondsUp := by
  rw [expiry, if_pos h]
  simp only [relativeLimit] at h
  omega

theorem expiry_absolute {d : Duration} (h : relativeLimit < d.secondsUp) :
    expiry now (some d) = min ((now.since .epoch).seconds + d.secondsUp) (2 ^ 32 - 1) := by
  rw [expiry, if_neg (Nat.not_le.mpr h)]

theorem relativeLimit_lt_expiry (now : Instant) {d : Duration} (h : relativeLimit < d.secondsUp) :
    relativeLimit < expiry now (some d) := by
  rw [expiry_absolute h]
  simp only [relativeLimit] at *
  omega

theorem dropTime_relative {ttl : Duration} (hpos : 0 < ttl.seconds) (hwhole : ttl.subseconds = 0)
    (hshort : ttl.seconds ≤ relativeLimit) :
    dropTime now (expiry now (some ttl)) = now.add? ttl := by
  have hup : ttl.secondsUp = ttl.seconds := Duration.secondsUp_of_whole hwhole
  rw [expiry_relative (by rwa [hup]), hup, dropTime, if_neg (Nat.ne_of_gt hpos), if_pos hshort,
    Duration.ofSeconds_seconds hwhole]

/-- Long lifetimes are counted from the whole seconds of the clock, so the time to drop an item
never comes late. Neither does it where the largest number stands for it. -/
theorem isBefore_of_dropTime_absolute {ttl : Duration} (hepoch : Instant.epoch ≤ now)
    (hwhole : ttl.subseconds = 0) (hlong : relativeLimit < ttl.seconds) (hlater : now ≤ later)
    (h : later.isBefore (dropTime now (expiry now (some ttl))) = true) :
    later.isBefore (now.add? ttl) = true := by
  obtain ⟨passed, hpassed⟩ := Int.le.dest hlater
  obtain ⟨age, hage⟩ := Int.le.dest (Int.le_trans hepoch hlater)
  have hup : ttl.secondsUp = ttl.seconds := Duration.secondsUp_of_whole hwhole
  obtain ⟨hfloor, -⟩ := Instant.seconds_since_epoch hepoch
  have hnanos : ttl.nanos = ttl.seconds * nanosPerSecond := Duration.nanos_of_whole hwhole
  have habsolute : relativeLimit < expiry now (some ttl) :=
    relativeLimit_lt_expiry now (by rwa [hup])
  have hbound : expiry now (some ttl) < 2 ^ 64 := Nat.lt_trans (expiry_lt now _) (by decide)
  rw [dropTime, if_neg (Nat.ne_of_gt (Nat.zero_lt_of_lt habsolute)),
    if_neg (Nat.not_le.mpr habsolute), Instant.isBefore_add? hage.symm,
    Duration.ofSeconds_nanos hbound] at h
  rw [Instant.isBefore_add? hpassed.symm, hnanos]
  have hmin : expiry now (some ttl) ≤ (now.since .epoch).seconds + ttl.seconds := by
    rw [expiry_absolute (by rwa [hup]), hup]
    exact Nat.min_le_left ..
  have hscaled := Nat.mul_le_mul_right nanosPerSecond hmin
  rw [Nat.add_mul] at hscaled
  have hzero : Instant.epoch.nanos = 0 := rfl
  omega

/-- The store drops an item no later than the index may forget its key. -/
theorem isBefore_of_dropTime {ttl : Option Duration} (hepoch : Instant.epoch ≤ now)
    (hwhole : ∀ d ∈ ttl, 0 < d.seconds ∧ d.subseconds = 0) (hlater : now ≤ later)
    (h : later.isBefore (dropTime now (expiry now ttl)) = true) :
    later.isBefore (ttl.bind now.add?) = true := by
  cases ttl with
  | none => rfl
  | some ttl =>
    obtain ⟨hpos, hwhole⟩ := hwhole ttl rfl
    rcases Nat.lt_or_ge relativeLimit ttl.seconds with hlong | hshort
    · exact isBefore_of_dropTime_absolute hepoch hwhole hlong hlater h
    · rwa [dropTime_relative hpos hwhole hshort] at h

/-- From `now` on every name that can be read is known, with a deadline that has not come. -/
def Covers (value? : Instant → String → σ → Option Bytes) (now : Instant)
    (known : List (String × Option Instant)) (store : σ) : Prop :=
  ∀ later, now ≤ later → ∀ name, value? later name store ≠ none →
    ∃ deadline, (name, deadline) ∈ known ∧ later.isBefore deadline = true

namespace Covers
variable {known known' : List (String × Option Instant)} {store store' : σ}

theorem at_later (h : Covers value? now known store) (hle : now ≤ later) :
    Covers value? later known store :=
  fun t ht => h t (Int.le_trans hle ht)

/-- Deadlines that have come may be forgotten. -/
theorem forget (h : Covers value? now known store)
    (hkept : ∀ x ∈ known, now.isBefore x.2 = true → x ∈ known') :
    Covers value? now known' store := by
  intro t ht name hvalue
  obtain ⟨deadline, hmem, hbefore⟩ := h t ht name hvalue
  exact ⟨deadline, hkept _ hmem (Instant.isBefore_mono ht hbefore), hbefore⟩

theorem eq_none (h : Covers value? now [] store) {t : Instant} (ht : now ≤ t) (name : String) :
    value? t name store = none := by
  apply Decidable.byContradiction
  intro hvalue
  obtain ⟨deadline, hmem, -⟩ := h t ht name hvalue
  cases hmem

theorem of_same (h : Covers value? now known store)
    (hsame : ∀ t, now ≤ t → ∀ name, value? t name store' = value? t name store) :
    Covers value? now known store' :=
  fun t ht name hvalue => h t ht name (by rwa [hsame t ht] at hvalue)

/-- A name that cannot be read any more needs no deadline. -/
theorem erase {key : String} (h : Covers value? now known store)
    (hgone : ∀ t, now ≤ t → value? t key store' = none)
    (hsame : ∀ t, now ≤ t → ∀ name, name ≠ key → value? t name store' = value? t name store)
    (hkept : ∀ x ∈ known, x.1 ≠ key → x ∈ known') : Covers value? now known' store' := by
  intro t ht name hvalue
  by_cases hname : name = key
  · rw [hname, hgone t ht] at hvalue
    exact absurd rfl hvalue
  · rw [hsame t ht name hname] at hvalue
    obtain ⟨deadline, hmem, hbefore⟩ := h t ht name hvalue
    exact ⟨deadline, hkept _ hmem hname, hbefore⟩

end Covers

def Tracks (value? : Instant → String → σ → Option Bytes) (now : Instant) (s : State σ) : Prop :=
  Covers value? now s.written.deadlines.entries s.store

namespace Written

/-- A write drops no deadline that has not come. -/
theorem mem_insert_of_isBefore {w : Written} {key name : String} {deadline found : Option Instant}
    (hfound : (w.deadlines.insert key deadline).find? name = some found)
    (hbefore : now.isBefore found = true) :
    (name, found) ∈ (w.insert key deadline now).deadlines.entries := by
  rw [insert]
  split
  · exact KeyMap.find?_eq_some_iff.mp hfound
  · exact List.mem_filter.mpr ⟨KeyMap.find?_eq_some_iff.mp hfound, hbefore⟩

theorem find?_restore_of_ne {es : List (String × Option Instant)} {name : String}
    (h : ∀ x ∈ es, x.1 ≠ name) (w : Written) :
    (w.restore es).deadlines.find? name = w.deadlines.find? name := by
  induction es generalizing w with
  | nil => rfl
  | cons e es ih =>
    have hput : (w.deadlines.insert e.1 e.2).find? name = w.deadlines.find? name :=
      (KeyMap.find?_insert ..).trans (if_neg (h e List.mem_cons_self).symm)
    exact (ih (fun x hx => h x (List.mem_cons_of_mem e hx))
      ⟨w.deadlines.insert e.1 e.2, w.pruneAt⟩).trans hput

/-- What is put back is there, if no key is put back twice. -/
theorem mem_restore {es : List (String × Option Instant)} (hes : es.Pairwise fun a b => a.1 ≠ b.1)
    (w : Written) {x : String × Option Instant} (hx : x ∈ es) :
    x ∈ (w.restore es).deadlines.entries := by
  induction es generalizing w with
  | nil => cases hx
  | cons e es ih =>
    obtain ⟨hne, hes⟩ := List.pairwise_cons.mp hes
    rcases List.mem_cons.mp hx with rfl | hx
    · have hput : (w.deadlines.insert x.1 x.2).find? x.1 = some x.2 :=
        (KeyMap.find?_insert ..).trans (if_pos rfl)
      exact KeyMap.find?_eq_some_iff.mp
        ((find?_restore_of_ne (fun y hy => (hne y hy).symm)
          ⟨w.deadlines.insert x.1 x.2, w.pruneAt⟩).trans hput)
    · exact ih hes ⟨w.deadlines.insert e.1 e.2, w.pruneAt⟩ hx

end Written

/-- The keys to clear in an order, which may be another one each time. -/
abbrev Order (σ : Type) := Instant → State σ → List (String × Option Instant)

def Order.IsExact (order : Order σ) : Prop :=
  ∀ now s, (order now s).Perm (s.written.prune now).deadlines.entries

def clearBy (order : Order σ) (client : Client σ) (now : Instant) : Action (State σ) Nat := fun s =>
  deleteAll client now 0 (order now s)
    { s with written := { s.written.prune now with deadlines := .empty } }

def handleBy (order : Order σ) (client : Client σ) (n : Namespace) : Handle (State σ) where
  backend := { backend client n with clear := clearBy order client }

def keyOrder : Order σ := fun now s => (s.written.prune now).deadlines.entries

theorem keyOrder_isExact : (keyOrder : Order σ).IsExact := fun _ _ => .refl _

theorem handleBy_keyOrder (client : Client σ) (n : Namespace) :
    handleBy keyOrder client n = handle client n := rfl

variable {s : State σ} {order : Order σ}

/-- Deletions in turn leave nothing that can be read if they come to their end, and otherwise an
index of what is left. -/
theorem deleteAll_tracks (hc : client.FollowsRule value?) (removed : Nat)
    {es : List (String × Option Instant)} (hes : es.Pairwise fun a b => a.1 ≠ b.1)
    (h : Covers value? now es s.store) :
    Tracks value? now (deleteAll client now removed es s).2 ∧
      ∀ total, (deleteAll client now removed es s).1 = .ok total →
        Covers value? now [] (deleteAll client now removed es s).2.store := by
  induction es generalizing removed s with
  | nil => exact ⟨h.forget fun x hx => absurd hx List.not_mem_nil, fun _ _ => h⟩
  | cons e es ih =>
    rw [deleteAll]
    split
    · rename_i fault store hdelete
      refine ⟨?_, fun total htotal => by cases htotal⟩
      have hleft : Covers value? now (e :: es) store :=
        h.of_same fun t ht name => hc.delete_error hdelete ht name
      exact hleft.forget fun x hx _ => Written.mem_restore hes s.written hx
    · rename_i existed store hdelete
      apply ih _ (List.pairwise_cons.mp hes).2
      refine h.erase (fun t ht => hc.deleted hdelete ht)
        (fun t ht name hname => hc.delete_other hdelete ht hname) ?_
      intro x hx hne
      exact (List.mem_cons.mp hx).resolve_left fun heq => hne (congrArg Prod.fst heq)

theorem set_tracks (hc : client.FollowsRule value?) (hepoch : Instant.epoch ≤ now) (k : Key)
    (e : Entry) {ttl : Option Duration} (hwhole : ∀ d ∈ ttl, 0 < d.seconds ∧ d.subseconds = 0)
    (h : Tracks value? now s) : Tracks value? now (set client n now k e ttl s).2 := by
  rw [set]
  split
  · rename_i fault store hset
    exact Covers.of_same h fun t ht name => hc.set_error hset ht name
  · rename_i store hset
    intro t ht name hvalue
    by_cases hname : name = wireKey n k
    · subst hname
      rw [hc.stored hset ht] at hvalue
      have hlasts : t.isBefore (dropTime now (expiry now ttl)) = true := by
        apply Decidable.byContradiction
        intro hgone
        exact hvalue (if_neg hgone)
      have hbefore := isBefore_of_dropTime hepoch hwhole ht hlasts
      refine ⟨ttl.bind now.add?, ?_, hbefore⟩
      apply Written.mem_insert_of_isBefore _ (Instant.isBefore_mono ht hbefore)
      rw [KeyMap.find?_insert, if_pos rfl]
    · replace hvalue : value? t name store ≠ none := hvalue
      rw [hc.set_other hset ht hname] at hvalue
      obtain ⟨deadline, hmem, hbefore⟩ := h t ht name hvalue
      refine ⟨deadline, ?_, hbefore⟩
      apply Written.mem_insert_of_isBefore _ (Instant.isBefore_mono ht hbefore)
      rw [KeyMap.find?_insert, if_neg hname]
      exact KeyMap.find?_eq_some_iff.mpr hmem

theorem delete_tracks (hc : client.FollowsRule value?) (k : Key) (h : Tracks value? now s) :
    Tracks value? now (delete client n now k s).2 := by
  rw [delete]
  split
  · rename_i fault store hdelete
    exact Covers.of_same h fun t ht name => hc.delete_error hdelete ht name
  · rename_i existed store hdelete
    refine Covers.erase h (fun t ht => hc.deleted hdelete ht)
      (fun t ht name hname => hc.delete_other hdelete ht hname) ?_
    intro x hx hne
    exact List.mem_filter.mpr ⟨hx, bne_iff_ne.mpr hne⟩

/-- A clearing that succeeds leaves nothing that can be read. -/
theorem clearBy_tracks (hc : client.FollowsRule value?) (ho : order.IsExact)
    (h : Tracks value? now s) :
    Tracks value? now (clearBy order client now s).2 ∧
      ∀ total, (clearBy order client now s).1 = .ok total →
        Covers value? now [] (clearBy order client now s).2.store := by
  have hperm := ho now s
  apply deleteAll_tracks hc 0
  · apply (hperm.pairwise_iff fun hne => hne.symm).mpr
    exact (s.written.prune now).deadlines.ascending.imp text_ne_of_lt
  · apply Covers.forget h
    intro x hx hbefore
    exact hperm.mem_iff.mpr (List.mem_filter.mpr ⟨hx, hbefore⟩)

/-- Whatever calls fail, the index has every key that can still be read. -/
theorem after_tracks (hc : client.FollowsRule value?) (ho : order.IsExact)
    (hepoch : Instant.epoch ≤ now) {op : Operation} (hop : op.LastsSeconds)
    (h : Tracks value? now s) : Tracks value? now ((handleBy order client n).after now s op) := by
  cases op with
  | get k =>
    show Tracks value? now (get client n now k s).2
    rw [get_eq]
    exact Covers.of_same h fun t ht name => hc.get _ s.store name ht
  | set k e ttl =>
    refine set_tracks hc hepoch k e ?_ h
    rintro d rfl
    exact hop
  | delete k => exact delete_tracks hc k h
  | clear => exact (clearBy_tracks hc ho h).1
  | deletePath path => exact h
  | deletePattern pattern => exact h
  | entries => exact h
  | sweep => exact h

theorem Client.FollowsRule.delete_absent (hc : client.FollowsRule value?) (hle : now ≤ later)
    {key name : String} {store : σ} (h : value? later name store = none) :
    value? later name (client.delete now key store).2 = none := by
  rcases hdelete : client.delete now key store with ⟨fault | existed, store'⟩
  · exact (hc.delete_error hdelete hle name).trans h
  · by_cases hname : name = key
    · rw [hname]
      exact hc.deleted hdelete hle
    · exact (hc.delete_other hdelete hle hname).trans h

theorem deleteAll_absent (hc : client.FollowsRule value?) (hle : now ≤ later) (removed : Nat)
    {es : List (String × Option Instant)} {name : String} (h : value? later name s.store = none) :
    value? later name (deleteAll client now removed es s).2.store = none := by
  induction es generalizing removed s with
  | nil => exact h
  | cons e es ih =>
    have hone : value? later name (client.delete now e.1 s.store).2 = none := hc.delete_absent hle h
    rw [deleteAll]
    split
    · rename_i hdelete
      rw [hdelete] at hone
      exact hone
    · rename_i hdelete
      rw [hdelete] at hone
      exact ih _ hone

/-- Only writes bring names back. -/
theorem after_absent (hc : client.FollowsRule value?) (hle : now ≤ later) {op : Operation}
    {name : String} (hop : ∀ k e ttl, op = .set k e ttl → wireKey n k ≠ name)
    (h : value? later name s.store = none) :
    value? later name ((handleBy order client n).after now s op).store = none := by
  cases op with
  | get k =>
    show value? later name (get client n now k s).2.store = none
    rw [get_eq]
    exact (hc.get _ s.store name hle).trans h
  | set k e ttl =>
    show value? later name (set client n now k e ttl s).2.store = none
    rw [set_store]
    exact (hc.set _ _ _ s.store name hle (hop k e ttl rfl).symm).trans h
  | delete k =>
    show value? later name (delete client n now k s).2.store = none
    rw [delete_store]
    exact hc.delete_absent hle h
  | clear => exact deleteAll_absent hc hle 0 h
  | deletePath path => exact h
  | deletePattern pattern => exact h
  | entries => exact h
  | sweep => exact h

variable {store : σ} {ops : List (Instant × Operation)} {t : Instant}

theorem run_tracks (hc : client.FollowsRule value?) (ho : order.IsExact)
    (hstore : ∀ t name, value? t name store = none)
    (htimes : (Instant.epoch :: ops.map (·.1)).Pairwise (· ≤ ·))
    (hops : ∀ x ∈ ops, x.2.LastsSeconds) (ht : ∀ u ∈ Instant.epoch :: ops.map (·.1), u ≤ t) :
    Tracks value? t ((handleBy order client n).run ops ⟨store, {}⟩) := by
  have hepoch : ∀ x ∈ ops, Instant.epoch ≤ x.1 :=
    fun x hx => (List.pairwise_cons.mp htimes).1 x.1 (List.mem_map_of_mem hx)
  apply (handleBy order client n).run_invariant (P := Tracks value?) _ _ htimes ht
  · intro t _ name hvalue
    exact absurd (hstore t name) hvalue
  · intro now later s hle h
    exact h.at_later hle
  · intro x hx s h
    exact after_tracks hc ho (hepoch x hx) (hops x hx) h

theorem run_absent (hc : client.FollowsRule value?) {name : String}
    (hs : ∀ t, now ≤ t → value? t name s.store = none)
    (htimes : (now :: ops.map (·.1)).Pairwise (· ≤ ·))
    (hops : ∀ x ∈ ops, ∀ k e ttl, x.2 = .set k e ttl → wireKey n k ≠ name)
    (ht : ∀ u ∈ now :: ops.map (·.1), u ≤ t) :
    value? t name ((handleBy order client n).run ops s).store = none := by
  apply (handleBy order client n).run_invariant
    (P := fun now (s : State σ) => ∀ t, now ≤ t → value? t name s.store = none) _ _ htimes ht hs t
    (Int.le_refl _)
  · intro now later s hle h t hlater
    exact h t (Int.le_trans hle hlater)
  · intro x hx s h t hle
    exact after_absent hc hle (hops x hx) (h t hle)

theorem get_of_absent (hc : client.FollowsRule value?) {k : Key}
    (h : value? t (wireKey n k) s.store = none) (e : Entry) :
    (get client n t k s).1 ≠ .ok (some e) := by
  rw [get_eq]
  rcases hread : client.get t (wireKey n k) s.store with ⟨_ | found, store'⟩
  · exact fun he => by cases he
  · rw [hc.read hread, h]
    exact fun he => by cases he

theorem exists_of_isOk {ε α : Type} {x : Except ε α} (h : x.isOk = true) : ∃ a, x = .ok a := by
  cases x with
  | error e => cases h
  | ok a => exact ⟨a, rfl⟩

/-- A handle on a store that held nothing before, written by nobody else, that may fail any calls,
with a clock that does not go back behind the epoch or its own readings, and with any order of the
keys to clear. However operations follow each other, every key that can still be read is in the
index. Once a clearing has succeeded, nothing can be read under a name until it is written again. -/
theorem clear_complete (hc : client.FollowsRule value?) (ho : order.IsExact)
    (hstore : ∀ t name, value? t name store = none)
    (htimes : (Instant.epoch :: ops.map (·.1)).Pairwise (· ≤ ·))
    (hops : ∀ x ∈ ops, x.2.LastsSeconds) (ht : ∀ u ∈ Instant.epoch :: ops.map (·.1), u ≤ t) :
    let h := handleBy order client n
    let s := h.run ops ⟨store, {}⟩
    (∀ name, value? t name s.store ≠ none →
      ∃ deadline, s.written.deadlines.find? name = some deadline) ∧
      ∀ before now after, ops = before ++ (now, .clear) :: after →
        (h.backend.clear now (h.run before ⟨store, {}⟩)).1.isOk = true →
        ∀ name, (∀ x ∈ after, ∀ k e ttl, x.2 = .set k e ttl → wireKey n k ≠ name) →
          value? t name s.store = none ∧
            ∀ k, wireKey n k = name → ∀ e, (h.backend.get t k s).1 ≠ .ok (some e) := by
  intro h s
  constructor
  · intro name hvalue
    obtain ⟨deadline, hmem, -⟩ :=
      run_tracks hc ho hstore htimes hops ht t (Int.le_refl _) name hvalue
    exact ⟨deadline, KeyMap.find?_eq_some_iff.mpr hmem⟩
  · rintro before now after rfl hcleared name hunwritten
    rw [List.map_append, List.map_cons] at htimes ht
    obtain ⟨hepoch, hrest⟩ := List.pairwise_cons.mp htimes
    obtain ⟨hbefore, hafter, hcross⟩ := List.pairwise_append.mp hrest
    have hfirst : (Instant.epoch :: before.map (·.1)).Pairwise (· ≤ ·) :=
      List.pairwise_cons.mpr ⟨fun u hu => hepoch u (List.mem_append_left _ hu), hbefore⟩
    have hnow : ∀ u ∈ Instant.epoch :: before.map (·.1), u ≤ now := by
      intro u hu
      rcases List.mem_cons.mp hu with rfl | hu
      · exact hepoch now (List.mem_append_right _ List.mem_cons_self)
      · exact hcross u hu now List.mem_cons_self
    have htracks : Tracks value? now (h.run before ⟨store, {}⟩) :=
      run_tracks hc ho hstore hfirst (fun x hx => hops x (List.mem_append_left _ hx)) hnow
    obtain ⟨total, htotal⟩ := exists_of_isOk hcleared
    have hempty := (clearBy_tracks hc ho htracks).2 total htotal
    have hrun : s = h.run after (h.after now (h.run before ⟨store, {}⟩) .clear) := List.foldl_append
    have habsent : value? t name s.store = none := by
      rw [hrun]
      apply run_absent hc (fun u hu => hempty.eq_none hu name) hafter hunwritten
      intro u hu
      exact ht u (List.mem_cons_of_mem _ (List.mem_append_right _ hu))
    refine ⟨habsent, ?_⟩
    rintro k rfl e
    exact get_of_absent hc habsent e

/-- A clearing that is struck after the first of two keys, a write after it and a clearing that
succeeds. One lifetime is longer than thirty days. -/
theorem clear_complete_after_failure :
    let client := Server.client.failing fun now call =>
      now == Clock.now ⟨2000⟩ && call == .delete "cachex:b"
    let h := handle client .default
    let e : Entry :=
      { etag := "", content := [], status := .ok, headers := {}, storedAt := .epoch,
        expiresAt := none, policy := {} }
    let before : List (Instant × Operation) :=
      [(Clock.now ⟨0⟩, .set ⟨"a"⟩ e (some (.ofSeconds 60))),
        (Clock.now ⟨1000⟩, .set ⟨"b"⟩ e (some (.ofSeconds 3000000)))]
    let struck : List (Instant × Operation) :=
      before ++ [(Clock.now ⟨2000⟩, .clear), (Clock.now ⟨3000⟩, .set ⟨"c"⟩ e none)]
    let ops : List (Instant × Operation) := struck ++ [(Clock.now ⟨4000⟩, .clear)]
    (h.backend.clear (Clock.now ⟨2000⟩) (h.run before ⟨{}, {}⟩)).1.isOk = false ∧
      (h.run struck ⟨{}, {}⟩).written.deadlines.keys = ["cachex:b", "cachex:c"] ∧
      ∀ k e', (h.backend.get (Clock.now ⟨5000⟩) k (h.run ops ⟨{}, {}⟩)).1 ≠ .ok (some e') := by
  intro client h e before struck ops
  have hrule : client.FollowsRule Server.view.value? := Server.client_followsRule.failing _
  have hstore : ∀ t name, Server.view.value? t name {} = none := fun _ _ => rfl
  have htimes : (Instant.epoch :: ops.map (·.1)).Pairwise (· ≤ ·) := by decide +kernel
  have hops : ∀ x ∈ ops, x.2.LastsSeconds := by decide +kernel
  have hlast : ∀ u ∈ Instant.epoch :: ops.map (·.1), u ≤ Clock.now ⟨5000⟩ := by decide +kernel
  have hcleared :=
    (clear_complete (n := .default) hrule keyOrder_isExact hstore htimes hops hlast).2 struck
      (Clock.now ⟨4000⟩) [] rfl (by decide +kernel)
  refine ⟨by decide +kernel, by decide +kernel, ?_⟩
  intro k
  exact (hcleared (wireKey .default k) fun x hx => absurd hx List.not_mem_nil).2 k rfl

/-- Two limits. A key with a space is sent as a digest, and the digest may be a key itself: what is
written under it is read under the other. And before the epoch a long lifetime is counted from the
epoch, so the index forgets a key that the store still has. -/
theorem get_after_clear_beyond_limits :
    let h := handle Server.client .default
    let e : Entry :=
      { etag := "", content := [], status := .ok, headers := {}, storedAt := .epoch,
        expiresAt := none, policy := {} }
    let spaced : Key := ⟨"a b"⟩
    let digest : Key := ⟨"c8687a08aa5d6ed2044328fa6a697ab8e96dc34291e8c2034ae8c38e6fcc6d65"⟩
    let early : Instant := ⟨-8640000000000000, by decide, by decide⟩
    let later : Instant := ⟨-5184000000000000, by decide, by decide⟩
    let shared : List (Instant × Operation) :=
      [(.epoch, .set spaced e none), (.epoch, .clear), (.epoch, .set digest e none)]
    let forgotten : List (Instant × Operation) :=
      [(early, .set digest e (some (.ofSeconds 2678400)))]
    digest ≠ spaced ∧ (h.backend.clear .epoch (h.run (shared.take 1) ⟨{}, {}⟩)).1.isOk = true ∧
      (h.backend.get .epoch spaced (h.run shared ⟨{}, {}⟩)).1.toOption = some (some e) ∧
      early ≤ later ∧ (h.backend.clear later (h.run forgotten ⟨{}, {}⟩)).1.isOk = true ∧
      (h.backend.get later digest (h.run (forgotten ++ [(later, .clear)]) ⟨{}, {}⟩)).1.toOption =
        some (some e) := by
  decide +kernel

end Memcached
end ResponseCache
