import ResponseCache.Time.Instant

/-!
# The clock

A clock that moves when told to. It is a 64-bit count of milliseconds since the epoch: finer parts
and times before the epoch are dropped, and moving past the end wraps around.
-/
namespace ResponseCache

@[ext] structure Clock where
  millis : UInt64
deriving DecidableEq

/-- Whole milliseconds, at most 2^64 - 1 of them. -/
def clampedMillis (d : Duration) : UInt64 := UInt64.ofNat (min (d.nanos / 1000000) (2 ^ 64 - 1))

namespace Clock

def set (t : Instant) : Clock := ⟨clampedMillis (t.since .epoch)⟩

def advance (c : Clock) (d : Duration) : Clock := ⟨c.millis + clampedMillis d⟩

def now (c : Clock) : Instant where
  nanos := c.millis.toNat * 1000000
  notBefore := by omega
  before := by have := c.millis.toNat_lt; omega

theorem now_nanos (c : Clock) : c.now.nanos = c.millis.toNat * 1000000 := rfl

theorem epoch_le_now (c : Clock) : Instant.epoch ≤ c.now := by
  rw [Instant.le_iff, now_nanos]
  show (0 : Int) ≤ _
  omega

end Clock
end ResponseCache
