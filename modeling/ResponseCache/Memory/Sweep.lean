import ResponseCache.Memory.Basic

/-!
# Sweeping in the background

A sweep task ticks once a period, for the first time one period after it started. Its time is the
time that passes for tasks, apart from the clock by which slots expire.
-/
namespace ResponseCache

structure SweepTask where
  space : Namespace
  period : Duration
  /-- Nanoseconds of task time since the start. -/
  elapsed : Nat := 0
  finished : Bool := false

namespace SweepTask

/-- The ticks while `d` passes; a tick at the end is one of them. -/
def ticks (t : SweepTask) (d : Duration) : Nat :=
  (t.elapsed + d.nanos) / t.period.nanos - t.elapsed / t.period.nanos

/-- Lets task time pass. A period of zero ends the task. Sweeps at one time do no more than one. -/
def pass (t : SweepTask) (d : Duration) (now : Instant) (m : Memory) : SweepTask × Memory :=
  if t.finished ∨ t.period = .zero then ({ t with finished := true }, m)
  else ({ t with elapsed := t.elapsed + d.nanos },
    if t.ticks d = 0 then m else (m.sweep t.space now).2)

end SweepTask
end ResponseCache
