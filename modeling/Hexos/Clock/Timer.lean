import Hexos.Lib.Loop
import Mathlib.Algebra.Group.Nat.Defs
import Mathlib.Order.Basic

/-!
# HexOS — sleep

`kernel/kernel/timer.c`. `sleep` reads `timer_ticks`, and goes on reading it in a loop
while the difference is less than `18 * toWait`. The difference is computed as the
first reading minus the present one, in unsigned words: it is zero until the first
tick, and from then on `2^32` less the ticks that have come. One tick ends the loop.

The interrupts are a schedule: how many come before each reading, and before the
return. Each reading is one load of the counter.

## Results

* `difference_lt_iff` — the test of the loop, for every number of ticks.
* `Sleeper.sleep_eq_some_iff` — when `sleep` returns, and after how many ticks.
* `sleep_waits_iff` — when it has waited long enough.
-/

namespace Hexos

/-- `timer_ticks`, and how often `timer_handler` has run. -/
structure TimerVars where
  timerTicks : UInt32
  runs       : Nat
deriving DecidableEq

/-- `getTicks`. -/
def getTicks (v : TimerVars) : UInt32 := v.timerTicks

/-- `timer_handler`. The test for every 18th tick has an empty branch. -/
def timerHandler (v : TimerVars) : TimerVars := ⟨v.timerTicks + 1, v.runs + 1⟩

/-- The interrupts that come from the call of `sleep` until `started` is read, before each
reading in the loop, and from the last reading until the return. -/
structure TimerSchedule where
  entering : Nat
  between  : Nat → Nat
  leaving  : Nat

/-- The timer, and how often the loop has read it. -/
structure Sleeper where
  timer    : TimerVars
  readings : Nat

namespace Sleeper

section Functions

variable (sch : TimerSchedule)

/-- The processor runs up to the next reading in the loop. -/
def toReading (s : Sleeper) : Sleeper :=
  ⟨timerHandler^[sch.between s.readings] s.timer, s.readings + 1⟩

/-- The loop of `sleep`, up to the return. In the comparison `started` and the product,
which are `int`s, are taken as unsigned. -/
def sleepLoop (toWait started : Int32) : Nat → Sleeper → Option TimerVars
  | 0, _ => none
  | fuel + 1, s =>
    let s := s.toReading sch
    if started.toUInt32 - getTicks s.timer < (toWait * 18).toUInt32 then
      sleepLoop toWait started fuel s
    else some (timerHandler^[sch.leaving] s.timer)

/-- `sleep`. -/
def sleep (fuel : Nat) (toWait : Int32) (v : TimerVars) : Option TimerVars :=
  let v := timerHandler^[sch.entering] v
  let started := (getTicks v).toInt32
  sleepLoop sch toWait started fuel ⟨v, 0⟩

end Functions

end Sleeper

-- ---------------------------------------------------------------------------
-- Ticks
-- ---------------------------------------------------------------------------

/-- The timer after `t` ticks. -/
def TimerVars.after (v : TimerVars) (t : Nat) : TimerVars :=
  ⟨v.timerTicks + UInt32.ofNat t, v.runs + t⟩

theorem TimerVars.after_after (v : TimerVars) (t k : Nat) :
    (v.after t).after k = v.after (t + k) := by
  unfold TimerVars.after
  rw [UInt32.ofNat_add, UInt32.add_assoc, Nat.add_assoc]

theorem iterate_timerHandler (v : TimerVars) (t : Nat) : timerHandler^[t] v = v.after t := by
  induction t with
  | zero => exact congrArg (TimerVars.mk · v.runs) (UInt32.add_zero v.timerTicks).symm
  | succ t ih =>
    rw [Function.iterate_succ_apply', ih]
    exact v.after_after t 1

/-- **The test of the loop**, `r` ticks after `started` was read, over the wrap of the
counter. -/
theorem difference_lt_iff (started : UInt32) {n r : Nat} (hSmall : 18 * n < 2 ^ 31) :
    started.toInt32.toUInt32 - (started + UInt32.ofNat r) < (Int32.ofNat n * 18).toUInt32 ↔
      1 ≤ n ∧ r % 2 ^ 32 = 0 ∨ 2 ^ 32 - 18 * n < r % 2 ^ 32 := by
  have hProduct : (Int32.ofNat n * 18).toUInt32.toNat = 18 * n := by
    rw [Int32.toUInt32_mul, UInt32.toNat_mul, Int32.toUInt32_ofNat', UInt32.toNat_ofNat']
    show n % 2 ^ 32 * 18 % 2 ^ 32 = 18 * n
    omega
  have hWord := started.toNat_lt
  rw [UInt32.toUInt32_toInt32, UInt32.lt_iff_toNat_lt, hProduct, UInt32.toNat_sub, UInt32.toNat_add,
    UInt32.toNat_ofNat']
  omega

namespace TimerSchedule

/-- The ticks from the reading of `started` to the `k`-th reading in the loop, counted from
zero. -/
def since (sch : TimerSchedule) : Nat → Nat
  | 0 => sch.between 0
  | k + 1 => sch.since k + sch.between (k + 1)

variable {sch : TimerSchedule}

theorem since_mono {j k : Nat} (h : j ≤ k) : sch.since j ≤ sch.since k := by
  induction h with
  | refl => exact Nat.le_refl _
  | step _ ih => exact Nat.le_trans ih (Nat.le_add_right _ _)

end TimerSchedule

-- ---------------------------------------------------------------------------
-- The loop
-- ---------------------------------------------------------------------------

namespace Sleeper

variable {sch : TimerSchedule}

/-- The loop ends at the next reading. -/
def Ends (sch : TimerSchedule) (toWait started : Int32) (s : Sleeper) : Prop :=
  ¬ started.toUInt32 - getTicks (s.toReading sch).timer < (toWait * 18).toUInt32

instance (toWait started : Int32) : DecidablePred (Ends sch toWait started) :=
  fun _ => inferInstanceAs (Decidable (¬ _ < _))

/-- The loop polls. -/
theorem sleepLoop_eq_poll (toWait started : Int32) (fuel : Nat) (s : Sleeper) :
    sleepLoop sch toWait started fuel s =
      (Poll.run (toReading sch) (Ends sch toWait started) fuel s).map fun s =>
        timerHandler^[sch.leaving] s.timer := by
  induction fuel generalizing s with
  | zero => rfl
  | succ fuel ih =>
    rw [sleepLoop, Poll.run]
    by_cases hMore : started.toUInt32 - getTicks (s.toReading sch).timer < (toWait * 18).toUInt32
    · have hGoesOn : ¬ Ends sch toWait started s := not_not.mpr hMore
      rw [if_neg hGoesOn, if_pos hMore, ih]
    · rw [if_pos (show Ends sch toWait started s from hMore), if_neg hMore, Option.map_some]

/-- After each reading the timer has advanced by the ticks up to it. -/
theorem iterate_toReading (v : TimerVars) (k : Nat) :
    (toReading sch)^[k + 1] ⟨v, 0⟩ = ⟨v.after (sch.since k), k + 1⟩ := by
  induction k with
  | zero => exact congrArg (Sleeper.mk · 1) (iterate_timerHandler v _)
  | succ k ih =>
    rw [Function.iterate_succ_apply', ih, toReading, iterate_timerHandler, TimerVars.after_after]
    rfl

/-- The loop goes on, `r` ticks after `started` was read. -/
def GoesOn (n r : Nat) : Prop := 1 ≤ n ∧ r % 2 ^ 32 = 0 ∨ 2 ^ 32 - 18 * n < r % 2 ^ 32

theorem ends_iff (v : TimerVars) {n : Nat} (hSmall : 18 * n < 2 ^ 31) (k : Nat) :
    Ends sch (Int32.ofNat n) (getTicks v).toInt32 ((toReading sch)^[k] ⟨v, 0⟩) ↔
      ¬ GoesOn n (sch.since k) := by
  unfold Ends GoesOn
  rw [← Function.iterate_succ_apply' (toReading sch), iterate_toReading,
    ← difference_lt_iff v.timerTicks hSmall]
  rfl

/-- The first reading at which the loop ends. -/
theorem firstStop_iff (v : TimerVars) {n : Nat} (hSmall : 18 * n < 2 ^ 31) (k : Nat) :
    Poll.FirstStop (toReading sch) (Ends sch (Int32.ofNat n) (getTicks v).toInt32) ⟨v, 0⟩ k ↔
      ¬ GoesOn n (sch.since k) ∧ ∀ j, j < k → GoesOn n (sch.since j) := by
  constructor
  · intro h
    refine ⟨(ends_iff v hSmall k).mp h.holds, ?_⟩
    intro j hj
    by_contra hEnds
    exact h.before j hj ((ends_iff v hSmall j).mpr hEnds)
  · rintro ⟨hEnds, hBefore⟩
    refine ⟨(ends_iff v hSmall k).mpr hEnds, ?_⟩
    intro j hj hStop
    exact (ends_iff v hSmall j).mp hStop (hBefore j hj)

/-- **sleep.** It returns at the first reading at which the loop does not go on. -/
theorem sleep_eq_some_iff {n fuel : Nat} (hSmall : 18 * n < 2 ^ 31) {v v' : TimerVars} :
    sleep sch fuel (Int32.ofNat n) v = some v' ↔
      ∃ k, k < fuel ∧
        (¬ GoesOn n (sch.since k) ∧ ∀ j, j < k → GoesOn n (sch.since j)) ∧
        v' = v.after (sch.entering + sch.since k + sch.leaving) := by
  have hReturn : ∀ k, timerHandler^[sch.leaving]
      ((toReading sch)^[k + 1] ⟨timerHandler^[sch.entering] v, 0⟩).timer =
        v.after (sch.entering + sch.since k + sch.leaving) := by
    intro k
    rw [iterate_toReading]
    simp only [iterate_timerHandler, TimerVars.after_after]
  rw [sleep, sleepLoop_eq_poll, Option.map_eq_some_iff]
  constructor
  · rintro ⟨s, hRun, rfl⟩
    obtain ⟨k, hk, hStop, rfl⟩ := Poll.run_eq_some_iff.mp hRun
    exact ⟨k, hk, (firstStop_iff _ hSmall k).mp hStop, hReturn k⟩
  · rintro ⟨k, hk, hFirst, rfl⟩
    refine ⟨_, Poll.run_eq_some_iff.mpr ⟨k, hk, ?_, rfl⟩, hReturn k⟩
    exact (firstStop_iff _ hSmall k).mpr hFirst

/-- A reading at which the loop does not go on is the last one, or comes too late for that. -/
theorem sleep_returns {n k : Nat} (hSmall : 18 * n < 2 ^ 31) (v : TimerVars)
    (h : ¬ GoesOn n (sch.since k)) :
    ∃ j, j ≤ k ∧ sleep sch (k + 1) (Int32.ofNat n) v =
      some (v.after (sch.entering + sch.since j + sch.leaving)) := by
  obtain ⟨j, hjk, hStop⟩ := Poll.exists_firstStop (toReading sch)
    (Ends sch (Int32.ofNat n) (getTicks v).toInt32) ((ends_iff v hSmall k).mpr h)
  have hFirst := (firstStop_iff v hSmall j).mp hStop
  exact ⟨j, hjk, (sleep_eq_some_iff hSmall).mpr ⟨j, Nat.lt_succ_of_le hjk, hFirst, rfl⟩⟩

end Sleeper

-- ---------------------------------------------------------------------------
-- How long it waits
-- ---------------------------------------------------------------------------

/-- `sleep(n)` returns only after `timer_handler` has run `18 * n` times since the call. -/
def SleepsLongEnough (sch : TimerSchedule) (n : Nat) (v : TimerVars) : Prop :=
  ∀ fuel v', Sleeper.sleep sch fuel (Int32.ofNat n) v = some v' → v.runs + 18 * n ≤ v'.runs

/-- **sleep waits** long enough exactly if each reading in the loop that follows a tick since
`started` was read comes when `18 * n` ticks have come since the call, those up to the
return counted in. -/
theorem sleep_waits_iff (sch : TimerSchedule) (n : Nat) (v : TimerVars) (hn : 1 ≤ n)
    (hSmall : 18 * n < 2 ^ 31) :
    SleepsLongEnough sch n v ↔
      ∀ k, 1 ≤ sch.since k → 18 * n ≤ sch.entering + sch.since k + sch.leaving := by
  constructor
  · intro hLong k hTick
    by_contra hFew
    -- few ticks end the loop, at this reading or before
    have hEnds : ¬ Sleeper.GoesOn n (sch.since k) := by
      unfold Sleeper.GoesOn
      omega
    obtain ⟨j, hjk, hRun⟩ := Sleeper.sleep_returns hSmall v hEnds
    have hTicks : v.runs + 18 * n ≤ v.runs + (sch.entering + sch.since j + sch.leaving) :=
      hLong _ _ hRun
    have hMono := sch.since_mono hjk
    omega
  · intro hSeen fuel v' hRun
    obtain ⟨k, -, ⟨hEnds, -⟩, rfl⟩ := (Sleeper.sleep_eq_some_iff hSmall).mp hRun
    have hTick : 1 ≤ sch.since k := by
      by_contra hNone
      exact hEnds (Or.inl ⟨hn, by omega⟩)
    have hTicks := hSeen k hTick
    show v.runs + 18 * n ≤ v.runs + (sch.entering + sch.since k + sch.leaving)
    omega

/-- All ticks of a second come between two readings. -/
def burst : TimerSchedule := ⟨0, fun k => if k = 3 then 18 else 0, 0⟩

/-- A burst, before the counter wraps. -/
theorem sleep_waits_for_burst : SleepsLongEnough burst 1 ⟨4294967290, 0⟩ := by
  refine (sleep_waits_iff burst 1 ⟨4294967290, 0⟩ (by omega) (by omega)).mpr ?_
  intro k hTick
  have hLate : 3 ≤ k := by
    by_contra hEarly
    obtain rfl | rfl | rfl : k = 0 ∨ k = 1 ∨ k = 2 := by omega
    all_goals exact absurd hTick (Nat.not_succ_le_zero 0)
  have hAll : burst.since 3 ≤ burst.since k := burst.since_mono hLate
  show 18 * 1 ≤ 0 + burst.since k + 0
  have hThird : burst.since 3 = 18 := rfl
  omega

/-- A tick between any two readings. -/
def everyReading : TimerSchedule := ⟨0, fun _ => 1, 0⟩

/-- `sleep(1)` returns after one tick. -/
theorem sleep_returns_after_one_tick :
    Sleeper.sleep everyReading 1 1 ⟨0, 0⟩ = some ⟨1, 1⟩ ∧
    ¬ SleepsLongEnough everyReading 1 ⟨0, 0⟩ := by
  have hRun : Sleeper.sleep everyReading 1 1 ⟨0, 0⟩ = some ⟨1, 1⟩ := rfl
  refine ⟨hRun, ?_⟩
  intro hLong
  have hTicks : 0 + 18 * 1 ≤ 1 := hLong 1 ⟨1, 1⟩ hRun
  omega

end Hexos
