import Mathlib.Algebra.Group.Nat.Defs
import Mathlib.Logic.Function.Iterate
import Mathlib.Order.Basic

/-!
# HexOS — the clock

`kernel/kernel/clock.c`: the two variables that `clock_interrupt` counts with and
what `clock_read` makes of them. Both are 32-bit words; `clicks` starts again with
every second, and `seconds` wraps.

The interrupt is the only code that writes the variables, so a clock that has
been running since the start is known from the number of interrupts.

## Results

* `ClockVars.after_eq` — the variables after any number of interrupts.
* `clockDiff_after` — the difference of two readings.
-/

namespace Hexos

/-- `CLICKS_PER_SECOND`. -/
def clicksPerSecond : Nat := 10

/-- `clock_t`. -/
structure ClockTime where
  seconds : Nat
  millis  : Nat

/-- `clock_diff`, with 32-bit words. -/
def clockDiff (start stop : ClockTime) : ClockTime :=
  let stop : ClockTime :=
    if stop.millis < start.millis then
      ⟨(stop.seconds + 2 ^ 32 - 1) % 2 ^ 32, (stop.millis + 1000) % 2 ^ 32⟩
    else stop
  ⟨(stop.seconds + 2 ^ 32 - start.seconds) % 2 ^ 32,
    (stop.millis + 2 ^ 32 - start.millis) % 2 ^ 32⟩

/-- `seconds` and `clicks`. -/
structure ClockVars where
  seconds : Nat
  clicks  : Nat
deriving DecidableEq

namespace ClockVars

/-- What `clock_interrupt` does to the variables. -/
def interrupt (c : ClockVars) : ClockVars :=
  let clicks := (c.clicks + 1) % 2 ^ 32
  if clicks ≥ clicksPerSecond then ⟨(c.seconds + 1) % 2 ^ 32, 0⟩ else ⟨c.seconds, clicks⟩

/-- `clock_read`, when no interrupt comes in between. -/
def read (c : ClockVars) : ClockTime :=
  ⟨c.seconds, 1000 * c.clicks % 2 ^ 32 / clicksPerSecond⟩

/-- The clock after `t` interrupts. -/
def after (t : Nat) : ClockVars := interrupt^[t] ⟨0, 0⟩

theorem after_add (t n : Nat) : interrupt^[n] (after t) = after (t + n) := by
  rw [after, after, Nat.add_comm, Function.iterate_add_apply]

/-- **The variables.** -/
theorem after_eq (t : Nat) : after t = ⟨t / 10 % 2 ^ 32, t % 10⟩ := by
  induction t with
  | zero => rfl
  | succ t ih =>
    rw [after, Function.iterate_succ_apply', ← after, ih, interrupt, clicksPerSecond]
    simp only
    split
    · congr 1
      · omega
      · omega
    · congr 1
      · omega
      · omega

theorem read_after (t : Nat) : (after t).read = ⟨t / 10 % 2 ^ 32, t % 10 * 100⟩ := by
  rw [after_eq, read, clicksPerSecond]
  simp only [ClockTime.mk.injEq, true_and]
  omega

end ClockVars

/-- **Elapsed time.** The difference of two readings counts the interrupts between
them, also when `seconds` has wrapped. -/
theorem clockDiff_after (t n : Nat) :
    clockDiff (ClockVars.after t).read (ClockVars.after (t + n)).read =
      ⟨n / 10 % 2 ^ 32, n % 10 * 100⟩ := by
  rw [ClockVars.read_after, ClockVars.read_after, clockDiff]
  simp only
  by_cases hCarry : t % 10 + n % 10 < 10
  · have hDiv : (t + n) / 10 = t / 10 + n / 10 := by omega
    have hMod : (t + n) % 10 = t % 10 + n % 10 := by omega
    rw [hDiv, hMod, if_neg (by omega)]
    simp only [ClockTime.mk.injEq]
    omega
  · -- the clicks have started again, and the difference borrows a second
    have hDiv : (t + n) / 10 = t / 10 + n / 10 + 1 := by omega
    have hMod : (t + n) % 10 = t % 10 + n % 10 - 10 := by omega
    rw [hDiv, hMod, if_pos (by omega)]
    simp only [ClockTime.mk.injEq]
    omega

end Hexos
