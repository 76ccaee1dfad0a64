import Hexos.Clock.Definitions
import Mathlib.Order.Nat

/-!
# HexOS — `clock_wait`

`clock_wait` reads the clock and then blocks and reads it again until enough time
has passed. How many interrupts come while it is blocked, and while it runs, is a
schedule; the readings follow from it. Each reading is taken between two
interrupts.

## Results

* `Timed.clockWaitLoop_spec` — the loop.
* `clock_elapsed_exact` — elapsed time, and the wakeup at which `clock_wait`
  returns.
-/

namespace Hexos

/-- The interrupts that come while a process is blocked in the `process_wait` of
`clock_wait`, the first time, the second time and so on, and those that come while it
runs, before each of its `clock_read` calls. -/
structure ClockSchedule where
  wake  : Nat → Nat
  drift : Nat → Nat

/-- The clock, how often the process has been blocked, and what it has read. -/
structure Timed where
  clock    : ClockVars
  waits    : Nat
  readings : List ClockTime

namespace Timed

section Functions

variable (sch : ClockSchedule)

/-- The process runs up to its next `clock_read`. -/
def clockRead (s : Timed) : ClockTime × Timed :=
  let c := ClockVars.interrupt^[sch.drift s.readings.length] s.clock
  (c.read, { s with clock := c, readings := s.readings ++ [c.read] })

/-- `process_wait(&queue)`. -/
def processWait (s : Timed) : Timed :=
  { s with clock := ClockVars.interrupt^[sch.wake s.waits] s.clock, waits := s.waits + 1 }

/-- The loop of `clock_wait`. -/
def clockWaitLoop (millis : Nat) (start : ClockTime) : Nat → Timed → Option Timed
  | 0, _ => none
  | fuel + 1, s =>
    let (now, s) := (s.processWait sch).clockRead sch
    let elapsed := clockDiff start now
    let total := (elapsed.millis + elapsed.seconds * 1000) % 2 ^ 32
    if total < millis then clockWaitLoop millis start fuel s else some s

/-- `clock_wait`. -/
def clockWait (fuel millis : Nat) (s : Timed) : Option Timed :=
  let (start, s) := s.clockRead sch
  clockWaitLoop sch millis start fuel s

end Functions

-- ---------------------------------------------------------------------------
-- The loop
-- ---------------------------------------------------------------------------

/-- The interrupts from a reading up to the one behind the `i`-th wakeup that follows,
when the process has been blocked `w` times and has taken `r` readings. -/
def gaps (sch : ClockSchedule) : Nat → Nat → Nat → Nat
  | _, _, 0 => 0
  | w, r, i + 1 => sch.wake w + sch.drift r + gaps sch (w + 1) (r + 1) i

variable {sch : ClockSchedule}

theorem le_gaps (hWake : ∀ w, 1 ≤ sch.wake w) (w r i : Nat) : i ≤ gaps sch w r i := by
  induction i generalizing w r with
  | zero => exact Nat.zero_le _
  | succ i ih =>
    have hFirst := hWake w
    have hRest := ih (w + 1) (r + 1)
    rw [gaps]
    omega

theorem clockRead_after {s : Timed} {t : Nat} (h : s.clock = ClockVars.after t) :
    s.clockRead sch = ((ClockVars.after (t + sch.drift s.readings.length)).read,
      { s with
        clock := ClockVars.after (t + sch.drift s.readings.length)
        readings :=
          s.readings ++ [(ClockVars.after (t + sch.drift s.readings.length)).read] }) := by
  unfold clockRead
  rw [h, ClockVars.after_add]

theorem processWait_after {s : Timed} {t : Nat} (h : s.clock = ClockVars.after t) :
    s.processWait sch =
      { s with clock := ClockVars.after (t + sch.wake s.waits), waits := s.waits + 1 } := by
  unfold processWait
  rw [h, ClockVars.after_add]

/-- The milliseconds that `clock_wait` computes. -/
theorem total_eq (n : Nat) :
    (n % 10 * 100 + n / 10 % 2 ^ 32 * 1000) % 2 ^ 32 = 100 * n % 2 ^ 32 := by
  omega

/-- One round of the loop, `e` interrupts after the start. -/
theorem clockWaitLoop_round {s : Timed} {t e millis fuel : Nat}
    (h : s.clock = ClockVars.after (t + e)) :
    clockWaitLoop sch millis (ClockVars.after t).read (fuel + 1) s =
      let n := e + (sch.wake s.waits + sch.drift s.readings.length)
      let s' : Timed :=
        ⟨ClockVars.after (t + n), s.waits + 1, s.readings ++ [(ClockVars.after (t + n)).read]⟩
      if 100 * n % 2 ^ 32 < millis then clockWaitLoop sch millis (ClockVars.after t).read fuel s'
      else some s' := by
  have hNow : t + e + sch.wake s.waits + sch.drift s.readings.length =
      t + (e + (sch.wake s.waits + sch.drift s.readings.length)) := by omega
  rw [clockWaitLoop, processWait_after h]
  simp only
  rw [clockRead_after (t := t + e + sch.wake s.waits) rfl]
  simp only [hNow, clockDiff_after, total_eq]

/-- **The loop** returns at the first wakeup at which enough time has passed. By
induction on the number of wakeups that are still to come. -/
theorem clockWaitLoop_spec {millis t : Nat} {j : Nat} {s : Timed} {e fuel : Nat}
    (h : s.clock = ClockVars.after (t + e)) (hj : 1 ≤ j)
    (hBefore : ∀ i, 1 ≤ i → i < j →
      100 * (e + gaps sch s.waits s.readings.length i) < millis)
    (hEnough : millis ≤ 100 * (e + gaps sch s.waits s.readings.length j))
    (hSmall : e + gaps sch s.waits s.readings.length j < 42949672) (hFuel : j ≤ fuel) :
    ∃ s', clockWaitLoop sch millis (ClockVars.after t).read fuel s = some s' ∧
      s'.waits = s.waits + j ∧
      s'.clock = ClockVars.after (t + (e + gaps sch s.waits s.readings.length j)) := by
  induction j generalizing s e fuel with
  | zero => omega
  | succ j ih =>
    obtain ⟨fuel, rfl⟩ : ∃ k, fuel = k + 1 := ⟨fuel - 1, by omega⟩
    have hNext : ∀ i, e + gaps sch s.waits s.readings.length (i + 1) =
        e + (sch.wake s.waits + sch.drift s.readings.length) +
          gaps sch (s.waits + 1) (s.readings.length + 1) i := by
      intro i
      rw [gaps]
      omega
    rw [clockWaitLoop_round h]
    rw [hNext] at hEnough hSmall ⊢
    generalize e + (sch.wake s.waits + sch.drift s.readings.length) = n at hNext hEnough hSmall ⊢
    rcases Nat.eq_zero_or_pos j with rfl | hPos
    · simp only [gaps, Nat.add_zero] at hEnough hSmall ⊢
      rw [if_neg (by omega)]
      exact ⟨_, rfl, rfl, rfl⟩
    · have hNow := hBefore 1 (by omega) (by omega)
      rw [hNext, gaps, Nat.add_zero] at hNow
      have hLen : (s.readings ++ [(ClockVars.after (t + n)).read]).length =
          s.readings.length + 1 := by simp
      rw [if_pos (by omega)]
      rw [← hLen] at hNext hEnough hSmall ⊢
      obtain ⟨s', hRun, hWaits, hClock⟩ := ih
        (s :=
        ⟨ClockVars.after (t + n), s.waits + 1, s.readings ++ [(ClockVars.after (t + n)).read]⟩)
        rfl hPos (fun i hi hij => by rw [← hNext]; exact hBefore (i + 1) (by omega) (by omega))
          hEnough hSmall
        (show j ≤ fuel by omega)
      exact ⟨s', hRun, hWaits.trans (Nat.add_right_comm s.waits 1 j), hClock⟩

/-- **clock_wait.** -/
theorem clockWait_spec {millis t j fuel : Nat} {s : Timed} (h : s.clock = ClockVars.after t)
    (hj : 1 ≤ j)
    (hBefore : ∀ i, 1 ≤ i → i < j →
      100 * gaps sch s.waits (s.readings.length + 1) i < millis)
    (hEnough : millis ≤ 100 * gaps sch s.waits (s.readings.length + 1) j)
    (hSmall : gaps sch s.waits (s.readings.length + 1) j < 42949672) (hFuel : j ≤ fuel) :
    ∃ s', s.clockWait sch fuel millis = some s' ∧ s'.waits = s.waits + j ∧
      s'.clock = ClockVars.after
        (t + sch.drift s.readings.length + gaps sch s.waits (s.readings.length + 1) j) := by
  have hLen : (s.readings ++ [(ClockVars.after (t + sch.drift s.readings.length)).read]).length =
    s.readings.length + 1 := by simp
  rw [clockWait, clockRead_after h]
  rw [← hLen] at hBefore hEnough hSmall ⊢
  obtain ⟨s', hRun, hWaits, hClock⟩ :=
    clockWaitLoop_spec (e := 0) (t := t + sch.drift s.readings.length)
    (s := ⟨ClockVars.after (t + sch.drift s.readings.length), s.waits,
      s.readings ++ [(ClockVars.after (t + sch.drift s.readings.length)).read]⟩)
    rfl hj (by simpa using hBefore) (by simpa using hEnough) (by simpa using hSmall) hFuel
  rw [Nat.zero_add] at hClock
  exact ⟨s', hRun, hWaits, hClock⟩

/-- There is a first wakeup at which enough time has passed. -/
theorem exists_first_wakeup (hWake : ∀ w, 1 ≤ sch.wake w) (w r millis : Nat) :
    ∃ j, 1 ≤ j ∧ millis ≤ 100 * gaps sch w r j ∧ ∀ i, 1 ≤ i → i < j →
      100 * gaps sch w r i < millis := by
  have hSome : ∃ j, 1 ≤ j ∧ millis ≤ 100 * gaps sch w r j := by
    refine ⟨millis + 1, by omega, ?_⟩
    have := le_gaps hWake w r (millis + 1)
    omega
  refine ⟨Nat.find hSome, (Nat.find_spec hSome).1, (Nat.find_spec hSome).2, ?_⟩
  intro i hi hlt
  have hNot := Nat.find_min hSome hlt
  omega

end Timed

/-- **Elapsed time** is exact from every state that the interrupts reach, and
`clock_wait` returns at the first wakeup at which enough time has passed. -/
theorem clock_elapsed_exact (t : Nat) :
    (∀ n, n < 42949672 → (ClockVars.interrupt^[n] (ClockVars.after t)).clicks < 10 ∧
      clockDiff (ClockVars.after t).read (ClockVars.interrupt^[n] (ClockVars.after t)).read =
        ⟨n / 10, n % 10 * 100⟩) ∧
    ∀ (sch : ClockSchedule) (s : Timed) (millis : Nat), (∀ w, 1 ≤ sch.wake w) →
      s.clock = ClockVars.after t →
      ∃ j, 1 ≤ j ∧ millis ≤ 100 * Timed.gaps sch s.waits (s.readings.length + 1) j ∧
        (∀ i, 1 ≤ i → i < j →
          100 * Timed.gaps sch s.waits (s.readings.length + 1) i < millis) ∧
        (Timed.gaps sch s.waits (s.readings.length + 1) j < 42949672 → ∀ fuel, j ≤ fuel →
          ∃ s', s.clockWait sch fuel millis = some s' ∧ s'.waits = s.waits + j) := by
  refine ⟨?_, ?_⟩
  · intro n hn
    rw [ClockVars.after_add, clockDiff_after, Nat.mod_eq_of_lt (a := n / 10) (by omega),
      ClockVars.after_eq]
    exact ⟨Nat.mod_lt _ (by omega), rfl⟩
  · intro sch s millis hWake hClock
    obtain ⟨j, hj, hEnough, hBefore⟩ :=
      Timed.exists_first_wakeup hWake s.waits (s.readings.length + 1) millis
    refine ⟨j, hj, hEnough, hBefore, ?_⟩
    intro hSmall fuel hFuel
    obtain ⟨s', hRun, hWaits, -⟩ := Timed.clockWait_spec hClock hj hBefore hEnough hSmall hFuel
    exact ⟨s', hRun, hWaits⟩

/-- Each wakeup comes with the third interrupt. -/
def everyThird : ClockSchedule := ⟨fun _ => 3, fun _ => 0⟩

/-- One interrupt before `seconds` wraps. -/
theorem clock_elapsed_across_wrap :
    clockDiff (ClockVars.after 42949672959).read
        (ClockVars.interrupt^[25] (ClockVars.after 42949672959)).read = ⟨2, 500⟩ ∧
    ∃ j, 1 ≤ j ∧ 500 ≤ 100 * Timed.gaps everyThird 0 1 j ∧
      (∀ i, 1 ≤ i → i < j → 100 * Timed.gaps everyThird 0 1 i < 500) ∧
      (Timed.gaps everyThird 0 1 j < 42949672 → ∀ fuel, j ≤ fuel →
        ∃ s', Timed.clockWait everyThird fuel 500 ⟨ClockVars.after 42949672959, 0, []⟩ =
          some s' ∧
          s'.waits = 0 + j) := by
  obtain ⟨hElapsed, hWait⟩ := clock_elapsed_exact 42949672959
  exact ⟨(hElapsed 25 (by omega)).2,
    hWait everyThird ⟨ClockVars.after 42949672959, 0, []⟩ 500 (fun _ => show 1 ≤ 3 by omega)
    (by simp only)⟩

end Hexos
