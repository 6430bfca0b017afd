import ResponseCache.Proofs.Clearing

/-!
# Expiries

A lifetime is sent to the store in whole seconds, counted from now or from the epoch. Either way the
item is dropped less than a second from its deadline. Only a lifetime of zero is taken for none: its
item stays for good.
-/
namespace ResponseCache

namespace Duration

/-- Rounding up adds less than a second. -/
theorem secondsUp_bounds (d : Duration) :
    d.nanos ≤ d.secondsUp * nanosPerSecond ∧
      d.secondsUp * nanosPerSecond < d.nanos + nanosPerSecond := by
  rw [secondsUp, seconds]
  by_cases h : d.subseconds = 0
  · rw [if_pos h]
    simp only [subseconds, nanosPerSecond] at *
    omega
  · rw [if_neg h]
    simp only [subseconds, nanosPerSecond] at *
    omega

theorem secondsUp_eq_zero_iff {d : Duration} : d.secondsUp = 0 ↔ d = zero := by
  obtain ⟨hlow, hhigh⟩ := d.secondsUp_bounds
  constructor
  · intro h
    rw [h, Nat.zero_mul] at hlow
    exact Duration.ext (Nat.le_zero.mp hlow)
  · rintro rfl
    rfl

end Duration

theorem Instant.exists_add? {t : Instant} {d : Duration}
    (h : t.nanos + d.nanos < 2 ^ 63 * 1000000000) :
    ∃ u, t.add? d = some u ∧ u.nanos = t.nanos + d.nanos := by
  cases hu : t.add? d with
  | none => exact absurd (add?_none_iff.mp hu) (Int.not_le.mpr h)
  | some u => exact ⟨u, rfl, add?_eq_some hu⟩

namespace Memcached

variable {now : Instant} {ttl : Option Duration} {d : Duration}

/-- Never is what is sent without a lifetime, and for one that is zero. -/
theorem expiry_eq_zero_iff : expiry now ttl = 0 ↔ ttl = none ∨ ttl = some .zero := by
  cases ttl with
  | none => simp [expiry]
  | some d =>
    have hsome : some d ≠ none := Option.some_ne_none d
    rw [or_iff_right hsome, Option.some.injEq, ← Duration.secondsUp_eq_zero_iff]
    by_cases h : d.secondsUp ≤ relativeLimit
    · rw [expiry_relative h]
    · have hlong := relativeLimit_lt_expiry now (Nat.not_le.mp h)
      omega

/-- What is sent is less than a second off, before the end of the numbers that can be sent. -/
theorem exists_dropTime (hepoch : Instant.epoch ≤ now) (hne : d ≠ .zero)
    (hfits : now.nanos + d.nanos + nanosPerSecond ≤ ((2 ^ 32 - 1) * nanosPerSecond : Nat)) :
    ∃ drop, dropTime now (expiry now (some d)) = some drop ∧
      now.nanos + d.nanos < drop.nanos + nanosPerSecond ∧
      drop.nanos < now.nanos + d.nanos + nanosPerSecond := by
  obtain ⟨hlow, hhigh⟩ := d.secondsUp_bounds
  have hexpires : expiry now (some d) ≠ 0 := by
    rw [Ne, expiry_eq_zero_iff]
    simpa using hne
  have hsecs : (Duration.ofSeconds (expiry now (some d))).nanos =
      expiry now (some d) * nanosPerSecond :=
    Duration.ofSeconds_nanos (Nat.lt_trans (expiry_lt now (some d)) (by decide))
  rw [dropTime, if_neg hexpires]
  by_cases hshort : d.secondsUp ≤ relativeLimit
  · rw [expiry_relative hshort] at hsecs ⊢
    rw [if_pos hshort]
    obtain ⟨drop, hdrop, hnanos⟩ := Instant.exists_add? (t := now) (d := .ofSeconds d.secondsUp) (by
      rw [hsecs]
      simp only [nanosPerSecond] at *
      omega)
    refine ⟨drop, hdrop, ?_⟩
    rw [hnanos, hsecs]
    omega
  · have hlong := Nat.not_le.mp hshort
    obtain ⟨hfloor, hrest⟩ := Instant.seconds_since_epoch hepoch
    have hwhole : expiry now (some d) = (now.since .epoch).seconds + d.secondsUp := by
      rw [expiry_absolute hlong]
      simp only [nanosPerSecond] at *
      omega
    rw [if_neg (Nat.not_le.mpr (relativeLimit_lt_expiry now hlong))]
    rw [hwhole, Nat.add_mul] at hsecs
    rw [hwhole]
    have hzero : Instant.epoch.nanos = 0 := rfl
    obtain ⟨drop, hdrop, hnanos⟩ :=
      Instant.exists_add? (t := .epoch)
        (d := .ofSeconds ((now.since .epoch).seconds + d.secondsUp)) (by
        rw [hsecs, hzero]
        simp only [nanosPerSecond] at *
        omega)
    refine ⟨drop, hdrop, ?_⟩
    rw [hnanos, hsecs, hzero]
    omega

variable {σ : Type} {client : Client σ} {value? : Instant → String → σ → Option Bytes}
  {n : Namespace} {k : Key} {e : Entry}

theorem set_calls (client : Client σ) (n : Namespace) (now : Instant) (k : Key) (e : Entry)
    (ttl : Option Duration) (s : State (Recorded Call σ)) :
    (set client.recorded n now k e ttl s).2.store.calls =
      .set (wireKey n k) (expiry now ttl) :: s.store.calls := by
  rw [set_store]
  rfl

theorem set_kept {s s' : State σ} (hc : client.FollowsRule value?)
    (h : set client n now k e ttl s = (.ok (), s')) {t : Instant} (ht : now ≤ t) :
    value? t (wireKey n k) s'.store =
        if t.isBefore (dropTime now (expiry now ttl)) then some (Record.encode e) else none := by
  rw [set] at h
  split at h
  · cases h
  · rename_i store hset
    cases h
    exact hc.stored hset ht

/-- With a clock at or after the epoch and a deadline that can be sent, all writes send the same
number, whatever becomes of them. A store that follows the rule and takes a write drops the item at
the time of that number: never without a lifetime and with one that is zero, and else less than a
second from the deadline. -/
theorem set_drops_near_deadline (client : Client σ) (n : Namespace) (hepoch : Instant.epoch ≤ now)
    (hfits : ∀ d ∈ ttl, now.nanos + d.nanos + nanosPerSecond ≤
      ((2 ^ 32 - 1) * nanosPerSecond : Nat)) :
    ∃ x < 2 ^ 32,
      (∀ k e s, (set client.recorded n now k e ttl s).2.store.calls =
        .set (wireKey n k) x :: s.store.calls) ∧
      (∀ value?, client.FollowsRule value? →
        ∀ k e s s', set client n now k e ttl s = (.ok (), s') → ∀ t, now ≤ t →
        value? t (wireKey n k) s'.store =
          if t.isBefore (dropTime now x) then some (Record.encode e) else none) ∧
      (x = 0 ↔ ttl = none ∨ ttl = some .zero) ∧
      ∀ d ∈ ttl, d ≠ .zero → ∃ drop, dropTime now x = some drop ∧
        now.nanos + d.nanos < drop.nanos + nanosPerSecond ∧
        drop.nanos < now.nanos + d.nanos + nanosPerSecond := by
  refine ⟨expiry now ttl, expiry_lt now ttl, fun k e s => set_calls client n now k e ttl s, ?_,
    expiry_eq_zero_iff, ?_⟩
  · intro value? hc k e s s' h t ht
    exact set_kept hc h ht
  · intro d hd hne
    obtain rfl : ttl = some d := hd
    exact exists_dropTime hepoch hne (hfits d rfl)

/-- Nine tenths past a second, for thirty days and a nanosecond: the item goes with the next second
of the clock. -/
theorem set_drops_near_deadline_month :
    let now := Clock.now ⟨1700000000900⟩
    let month : Duration := ⟨2592000000000001, by decide⟩
    let e : Entry :=
      { etag := "", content := [], status := .ok, headers := {}, storedAt := .epoch,
        expiresAt := none, policy := {} }
    let s := (set Server.client .default now ⟨"k"⟩ e (some month) ⟨{}, {}⟩).2
    Instant.epoch ≤ now ∧ now.nanos + month.nanos + nanosPerSecond ≤
      ((2 ^ 32 - 1) * nanosPerSecond : Nat) ∧
      (set Server.client.recorded .default now ⟨"k"⟩ e (some month) ⟨⟨{}, []⟩, {}⟩).2.store.calls =
        [.set "cachex:k" 1702592001] ∧
      Server.view.value? (Clock.now ⟨1702592000999⟩) "cachex:k" s.store = some (Record.encode e) ∧
      Server.view.value? (Clock.now ⟨1702592001000⟩) "cachex:k" s.store = none := by
  intro now month e s
  have hepoch : Instant.epoch ≤ now := Clock.epoch_le_now _
  have hfits : now.nanos + month.nanos + nanosPerSecond ≤
      ((2 ^ 32 - 1) * nanosPerSecond : Nat) := by decide
  have hsendable : ∀ d ∈ some month, now.nanos + d.nanos + nanosPerSecond ≤
      ((2 ^ 32 - 1) * nanosPerSecond : Nat) := by
    rintro d ⟨⟩
    exact hfits
  obtain ⟨x, -, hsent, hkept, -, -⟩ :=
    set_drops_near_deadline Server.client .default hepoch hsendable
  have hcalls :
      (set Server.client.recorded .default now ⟨"k"⟩ e (some month) ⟨⟨{}, []⟩, {}⟩).2.store.calls =
      [.set "cachex:k" 1702592001] := by decide +kernel
  obtain ⟨-, rfl⟩ : wireKey .default ⟨"k"⟩ = "cachex:k" ∧ x = 1702592001 := by
    simpa using (hsent _ _ _).symm.trans hcalls
  have hset : (set Server.client .default now ⟨"k"⟩ e (some month) ⟨{}, {}⟩).1 = .ok () := by rfl
  have hitem := hkept _ Server.client_followsRule _ _ _ _ (Prod.ext hset rfl)
  exact ⟨hepoch, hfits, hcalls,
    (hitem (Clock.now ⟨1702592000999⟩) (by decide)).trans (by decide +kernel),
    (hitem (Clock.now ⟨1702592001000⟩) (by decide)).trans (by decide +kernel)⟩

/-- An item to be kept no time at all is kept for good. -/
theorem set_zero_never_drops :
    ¬∀ (now : Instant) (ttl : Duration) (k : Key) (e : Entry) (s s' : State Server),
      Instant.epoch ≤ now →
      now.nanos + ttl.nanos + nanosPerSecond ≤ ((2 ^ 32 - 1) * nanosPerSecond : Nat) →
      set Server.client .default now k e (some ttl) s = (.ok (), s') →
      ∃ t, now ≤ t ∧ Server.view.value? t (wireKey .default k) s'.store = none := by
  intro hdrops
  let now := Clock.now ⟨1700000000000⟩
  let e : Entry :=
    { etag := "", content := [], status := .ok, headers := {}, storedAt := .epoch,
      expiresAt := none, policy := {} }
  let s' := (set Server.client .default now ⟨"k"⟩ e (some .zero) ⟨{}, {}⟩).2
  have hset : set Server.client .default now ⟨"k"⟩ e (some .zero) ⟨{}, {}⟩ = (.ok (), s') := rfl
  obtain ⟨t, ht, hgone⟩ := hdrops now .zero ⟨"k"⟩ e ⟨{}, {}⟩ s' (by decide) (by decide) hset
  rw [set_kept Server.client_followsRule hset ht] at hgone
  cases hgone

end Memcached
end ResponseCache
