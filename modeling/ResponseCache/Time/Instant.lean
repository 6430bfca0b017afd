import ResponseCache.Time.Duration

/-!
# Points in time

A point in time is a count of nanoseconds from the Unix epoch, negative before it, whose whole
seconds are a signed 64-bit number.
-/
namespace ResponseCache

@[ext] structure Instant where
  nanos : Int
  notBefore : -(2 ^ 63 * 1000000000) ≤ nanos
  before : nanos < 2 ^ 63 * 1000000000
deriving DecidableEq

namespace Instant

def ofNanos? (n : Int) : Option Instant :=
  if h : -(2 ^ 63 * 1000000000) ≤ n ∧ n < 2 ^ 63 * 1000000000 then some ⟨n, h.1, h.2⟩ else none

def epoch : Instant := ⟨0, by decide, by decide⟩

instance : Inhabited Instant := ⟨epoch⟩

instance : LT Instant := ⟨fun a b => a.nanos < b.nanos⟩
instance : LE Instant := ⟨fun a b => a.nanos ≤ b.nanos⟩
instance (a b : Instant) : Decidable (a < b) := inferInstanceAs (Decidable (a.nanos < b.nanos))
instance (a b : Instant) : Decidable (a ≤ b) := inferInstanceAs (Decidable (a.nanos ≤ b.nanos))

/-- `none` past the end of time. -/
def add? (t : Instant) (d : Duration) : Option Instant := ofNanos? (t.nanos + d.nanos)

/-- The time from `earlier` to `t`, zero when `earlier` is the later one. -/
def since (t earlier : Instant) : Duration := .clamp (t.nanos - earlier.nanos).toNat

/-- Seconds since the epoch, rounded down. -/
def seconds (t : Instant) : Int := t.nanos.fdiv 1000000000

/-- Nanoseconds past `seconds`. -/
def subseconds (t : Instant) : Nat := (t.nanos.fmod 1000000000).toNat

/-- A deadline that is absent never comes. -/
def isBefore (now : Instant) (deadline : Option Instant) : Bool :=
  match deadline with
  | none => true
  | some at_ => now < at_

theorem lt_iff {a b : Instant} : a < b ↔ a.nanos < b.nanos := Iff.rfl
theorem le_iff {a b : Instant} : a ≤ b ↔ a.nanos ≤ b.nanos := Iff.rfl

theorem ofNanos?_eq_some {n : Int} {t : Instant} (h : ofNanos? n = some t) : t.nanos = n := by
  unfold ofNanos? at h
  split at h
  · exact (Option.some.inj h) ▸ rfl
  · cases h

theorem add?_eq_some {t u : Instant} {d : Duration} (h : t.add? d = some u) :
    u.nanos = t.nanos + d.nanos := ofNanos?_eq_some h

theorem add?_none_iff {t : Instant} {d : Duration} :
    t.add? d = none ↔ 2 ^ 63 * 1000000000 ≤ t.nanos + d.nanos := by
  have := t.notBefore
  unfold add? ofNanos?
  split
  · rename_i h; simp; omega
  · rename_i h; simp; omega

/-- The span between two points in time always fits a duration. -/
theorem since_nanos (t earlier : Instant) :
    (t.since earlier).nanos = (t.nanos - earlier.nanos).toNat := by
  have := t.before; have := earlier.notBefore
  rw [since, Duration.clamp_nanos]; simp only [Duration.longest, nanosPerSecond]; omega

@[simp] theorem isBefore_none (now : Instant) : now.isBefore none = true := rfl
@[simp] theorem isBefore_some {now t : Instant} : now.isBefore (some t) = true ↔ now < t := by
  simp [isBefore]

theorem isBefore_mono {t u : Instant} (h : t ≤ u) {deadline : Option Instant}
    (hu : u.isBefore deadline = true) : t.isBefore deadline = true := by
  cases deadline with
  | none => rfl
  | some d =>
    rw [isBefore_some, lt_iff] at *
    rw [le_iff] at h
    omega

end Instant
end ResponseCache
