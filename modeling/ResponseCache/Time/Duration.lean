/-!
# Durations

A duration is a count of nanoseconds, less than 2^64 seconds. Sums that would leave the range stop
at the longest duration.
-/
namespace ResponseCache

/-- Powers are those of the core library, also where others are to be had. -/
@[default_instance 20000] instance (priority := 20000) corePow {α : Type} [NatPow α] : Pow α Nat :=
  instPowNat

def nanosPerSecond : Nat := 1000000000

@[ext] structure Duration where
  nanos : Nat
  inRange : nanos < 2 ^ 64 * nanosPerSecond
deriving DecidableEq

namespace Duration

def longest : Duration := ⟨2 ^ 64 * nanosPerSecond - 1, by decide⟩

/-- The longest duration, when `n` nanoseconds are out of range. -/
def clamp (n : Nat) : Duration :=
  if h : n < 2 ^ 64 * nanosPerSecond then ⟨n, h⟩ else longest

def ofNanos? (n : Nat) : Option Duration :=
  if h : n < 2 ^ 64 * nanosPerSecond then some ⟨n, h⟩ else none

def zero : Duration := ⟨0, by decide⟩

instance : Inhabited Duration := ⟨zero⟩

def ofSeconds (n : Nat) : Duration := clamp (n * nanosPerSecond)

/-- Whole seconds, fractions dropped. -/
def seconds (d : Duration) : Nat := d.nanos / nanosPerSecond

/-- Nanoseconds past the whole seconds. -/
def subseconds (d : Duration) : Nat := d.nanos % nanosPerSecond

/-- Whole seconds, a fraction counting as one more. -/
def secondsUp (d : Duration) : Nat := d.seconds + if d.subseconds = 0 then 0 else 1

def add (a b : Duration) : Duration := clamp (a.nanos + b.nanos)

def max (a b : Duration) : Duration := if a.nanos ≤ b.nanos then b else a

theorem clamp_nanos (n : Nat) : (clamp n).nanos = min n longest.nanos := by
  unfold clamp
  split
  · rename_i h; simp only [longest]; omega
  · rename_i h; simp only [longest] at *; omega

@[simp] theorem zero_nanos : zero.nanos = 0 := rfl

@[simp] theorem clamp_eq_self (d : Duration) : clamp d.nanos = d := dif_pos d.inRange

theorem add_nanos (a b : Duration) : (a.add b).nanos = min (a.nanos + b.nanos) longest.nanos :=
  clamp_nanos _

theorem max_nanos (a b : Duration) : (a.max b).nanos = Nat.max a.nanos b.nanos := by
  unfold max
  split
  · rename_i h; exact (Nat.max_eq_right h).symm
  · rename_i h; exact (Nat.max_eq_left (Nat.le_of_not_le h)).symm

theorem ofSeconds_nanos {n : Nat} (h : n < 2 ^ 64) : (ofSeconds n).nanos = n * nanosPerSecond := by
  rw [ofSeconds, clamp_nanos]; simp only [longest, nanosPerSecond]; omega

end Duration
end ResponseCache
