import Hexos.Clock.Wait
import Hexos.Io.Transfer

/-!
# HexOS — the timeout of `ata_wait`

`ata_wait` has no counter: it ends when the clock has advanced by three seconds
since its first reading, and the clock advances while it is blocked in
`clock_wait`. Here it runs against a schedule of the interrupts, from any state of
the clock. The same run is one of `ataWait` on the readings that the schedule
gives.

A wait of one millisecond ends at the first wakeup: the milliseconds are computed
modulo `2^32`, and are zero only after a multiple of `2^30` interrupts.

## Results

* `AtaTimed.ataWaitLoop_spec` — the loop.
* `ata_wait_gives_up` — the number of status reads.
* `AtaTimed.ataWait_simulates` — the run on readings.
-/

namespace Hexos

/-- The state of `ata_wait` under a schedule: what it has read, and how often it has
reset the controller. -/
structure AtaTimed extends Timed where
  statusReads : Nat
  resets      : Nat

namespace AtaTimed

section Functions

variable (sch : ClockSchedule) (status : Nat → BitVec 8)

/-- `ata_reset`. -/
def ataReset (fuel : Nat) (s : AtaTimed) : Option AtaTimed :=
  (s.toTimed.clockWait sch fuel 1).bind fun c =>
  (c.clockWait sch fuel 1).map fun c => { s with toTimed := c, resets := s.resets + 1 }

/-- The loop of `ata_wait`; `mask` and `state` are `int`s. -/
def ataWaitLoop (fuel : Nat) (mask state : BitVec 32) (start : ClockTime) :
    Nat → AtaTimed → Option (Bool × AtaTimed)
  | 0, _ => none
  | rounds + 1, s =>
    let t := (status s.statusReads).setWidth 32
    let s := { s with statusReads := s.statusReads + 1 }
    if t &&& mask = state then some (true, s)
    else if t &&& statusErr.setWidth 32 ≠ 0 then (s.ataReset sch fuel).map fun s => (false, s)
    else
      let (now, c) := s.toTimed.clockRead sch
      let s := { s with toTimed := c }
      if (clockDiff start now).seconds > 2 then (s.ataReset sch fuel).map fun s => (false, s)
      else
        (s.toTimed.clockWait sch fuel 0).bind fun c =>
        ataWaitLoop fuel mask state start rounds { s with toTimed := c }

/-- `ata_wait`. -/
def ataWait (fuel : Nat) (mask state : BitVec 32) (s : AtaTimed) : Option (Bool × AtaTimed) :=
  let (start, c) := s.toTimed.clockRead sch
  ataWaitLoop sch status fuel mask state start fuel { s with toTimed := c }

end Functions

-- ---------------------------------------------------------------------------
-- Short waits
-- ---------------------------------------------------------------------------

/-- Each wakeup comes after one interrupt at least, and no more than `10^9` come up to the
reading behind it. -/
def Bounded (sch : ClockSchedule) : Prop :=
  ∀ w r, 1 ≤ sch.wake w ∧ sch.wake w + sch.drift r ≤ 10 ^ 9

variable {sch : ClockSchedule} {status : Nat → BitVec 8}

/-- A wait of no millisecond or of one ends at the first wakeup. -/
theorem clockWait_short (hBounded : Bounded sch) {millis fuel t : Nat} {s : Timed}
    (hMillis : millis ≤ 1) (hFuel : 1 ≤ fuel) (h : s.clock = ClockVars.after t) :
    ∃ s' d, s.clockWait sch fuel millis = some s' ∧
      s'.clock = ClockVars.after (t + d) ∧ 1 ≤ d ∧
      d ≤ 2 * 10 ^ 9 := by
  obtain ⟨fuel, rfl⟩ : ∃ k, fuel = k + 1 := ⟨fuel - 1, by omega⟩
  have hDrift := hBounded 0 s.readings.length
  have hWake := hBounded s.waits (s.readings.length + 1)
  rw [Timed.clockWait, Timed.clockRead_after h]
  simp only
  rw [Timed.clockWaitLoop_round (e := 0) rfl]
  simp only [List.length_append, List.length_singleton, Nat.zero_add]
  rw [if_neg (by omega)]
  refine ⟨_, sch.drift s.readings.length + (sch.wake s.waits + sch.drift (s.readings.length + 1)),
    rfl, ?_, by omega, by omega⟩
  rw [Nat.add_assoc]

/-- The reset ends. -/
theorem ataReset_total (hBounded : Bounded sch) {fuel t : Nat} {s : AtaTimed} (hFuel : 1 ≤ fuel)
    (h : s.clock = ClockVars.after t) :
    ∃ s', s.ataReset sch fuel = some s' ∧ s'.statusReads = s.statusReads ∧
      s'.resets = s.resets + 1 := by
  obtain ⟨c, d, hFirst, hClock, -, -⟩ := clockWait_short hBounded (le_refl 1) hFuel h
  obtain ⟨c', d', hSecond, -, -, -⟩ := clockWait_short hBounded (le_refl 1) hFuel hClock
  rw [ataReset, hFirst, Option.bind_some, hSecond, Option.map_some]
  exact ⟨_, rfl, rfl, rfl⟩

-- ---------------------------------------------------------------------------
-- The loop
-- ---------------------------------------------------------------------------

/-- How `ata_wait` returned: with success, or with a reset of the controller. -/
def Ends (s : AtaTimed) (n : Nat) (result : Bool) (s' : AtaTimed) : Prop :=
  s'.statusReads ≤ s.statusReads + n ∧
    (result = true ∧ s'.resets = s.resets ∨ result = false ∧ s'.resets = s.resets + 1)

/-- A reset ends the loop. -/
theorem ends_of_reset (hBounded : Bounded sch) {fuel t n : Nat} {s s₁ : AtaTimed}
    (hFuel : 1 ≤ fuel) (hn : 1 ≤ n) (h : s₁.clock = ClockVars.after t)
    (hReads : s₁.statusReads = s.statusReads + 1) (hResets : s₁.resets = s.resets) :
    ∃ result s', (s₁.ataReset sch fuel).map (fun s => (false, s)) = some (result, s') ∧
      s.Ends n result s' := by
  obtain ⟨s', hReset, hReads', hResets'⟩ := ataReset_total hBounded hFuel h
  rw [hReset, Option.map_some]
  exact ⟨false, s', rfl, by omega, Or.inr ⟨rfl, by omega⟩⟩

/-- **The loop.** After `k` rounds the clock is `e` interrupts further, `k` at least. A
round that does not end it has seen less than three seconds, so `e` stays small, and it
lets the clock advance. -/
theorem ataWaitLoop_spec (hBounded : Bounded sch) {fuel t : Nat} (hFuel : 1 ≤ fuel)
    (mask state : BitVec 32) {rounds k e : Nat} {s : AtaTimed} (hk : k ≤ 30)
    (hRounds : 31 ≤ k + rounds) (h : s.clock = ClockVars.after (t + e)) (hLow : k ≤ e)
    (hHigh : e ≤ 29 + 2 * 10 ^ 9) :
    ∃ result s', ataWaitLoop sch status fuel mask state (ClockVars.after t).read rounds s =
      some (result, s') ∧ s.Ends (31 - k) result s' := by
  induction rounds generalizing k e s with
  | zero => omega
  | succ rounds ih =>
    rw [ataWaitLoop]
    simp only
    split
    · refine ⟨true, _, rfl, ?_, Or.inl ⟨rfl, rfl⟩⟩
      show s.statusReads + 1 ≤ s.statusReads + (31 - k)
      omega
    split
    · exact ends_of_reset hBounded hFuel (by omega) h rfl rfl
    have hDrift := hBounded 0 s.readings.length
    rw [Timed.clockRead_after h, Nat.add_assoc]
    simp only [clockDiff_after]
    split
    · exact ends_of_reset hBounded hFuel (by omega)
        (t := t + (e + sch.drift s.readings.length)) rfl rfl rfl
    · rename_i hSoon
      have hSmall : e + sch.drift s.readings.length ≤ 29 := by omega
      obtain ⟨c, d, hWait, hClock, hd, hd'⟩ := clockWait_short hBounded (Nat.zero_le 1) hFuel
        (s := ⟨ClockVars.after (t + (e + sch.drift s.readings.length)), s.waits,
          s.readings ++ [(ClockVars.after (t + (e + sch.drift s.readings.length))).read]⟩) rfl
      rw [hWait, Option.bind_some]
      obtain ⟨result, s', hRun, hReads, hEnd⟩ := ih (k := k + 1)
        (s := { s with toTimed := c, statusReads := s.statusReads + 1 }) (by omega) (by omega)
        (hClock.trans (congrArg ClockVars.after (Nat.add_assoc _ _ _))) (by omega) (by omega)
      refine ⟨result, s', hRun, ?_, hEnd⟩
      rw [show s.statusReads + (31 - k) = s.statusReads + 1 + (31 - (k + 1)) by omega]
      exact hReads

end AtaTimed

/-- **ata_wait gives up.** From every state of the clock it returns after 31 status
reads at most, with success or with a reset of the controller, when each wakeup comes
after one interrupt at least and `10^9` at most. -/
theorem ata_wait_gives_up (sch : ClockSchedule) (hBounded : AtaTimed.Bounded sch)
    (status : Nat → BitVec 8) (mask state : BitVec 32) (t : Nat) (s : AtaTimed)
    (h : s.clock = ClockVars.after t) {fuel : Nat} (hFuel : 31 ≤ fuel) :
    ∃ result s', s.ataWait sch status fuel mask state = some (result, s') ∧
      s'.statusReads ≤ s.statusReads + 31 ∧
      (result = true ∧ s'.resets = s.resets ∨ result = false ∧ s'.resets = s.resets + 1) := by
  rw [AtaTimed.ataWait, Timed.clockRead_after h]
  exact AtaTimed.ataWaitLoop_spec (k := 0) (e := 0) hBounded (by omega) mask state (by omega)
    (by omega) rfl
    (by omega) (by omega)

/-- A drive that stays busy, with a clock whose seconds are about to wrap. -/
theorem ata_wait_gives_up_across_wrap :
    ∃ result s', AtaTimed.ataWait everyThird (fun _ => 0x80) 31 0x80 0
        ⟨⟨ClockVars.after 42949672959, 0, []⟩, 0, 0⟩ = some (result, s') ∧
        s'.statusReads ≤ 0 + 31 ∧
      (result = true ∧ s'.resets = 0 ∨ result = false ∧ s'.resets = 0 + 1) := by
  have hBounded : AtaTimed.Bounded everyThird :=
    fun _ _ => show 1 ≤ 3 ∧ 3 + 0 ≤ 10 ^ 9 by omega
  exact ata_wait_gives_up everyThird hBounded (fun _ => 0x80) 0x80 0 42949672959
    ⟨⟨ClockVars.after 42949672959, 0, []⟩, 0, 0⟩ (by simp only) (Nat.le_refl 31)

-- ---------------------------------------------------------------------------
-- The run on readings
-- ---------------------------------------------------------------------------

open Traced

/-- The state of a driver that has read the status `n` times and the clock `r` times. -/
def AtaState.counters (a : AtaState) (n r : Nat) : AtaState :=
  { a with statusReads := n, clockReads := r }

/-- The clock of the inputs gives the readings of the schedule. -/
def AtaInputs.Reads (inp : AtaInputs) (readings : List ClockTime) : Prop :=
  ∀ k now, readings[k]? = some now → inp.clock k = now

theorem AtaInputs.Reads.mono {inp : AtaInputs} {readings readings' : List ClockTime}
    (h : inp.Reads readings') (hLe : readings <+: readings') : inp.Reads readings := by
  intro k now hk
  obtain ⟨rest, rfl⟩ := hLe
  obtain ⟨hLt, -⟩ := List.getElem?_eq_some_iff.mp hk
  exact h k now (by rwa [List.getElem?_append_left hLt])

namespace Timed

variable {sch : ClockSchedule} {inp : AtaInputs} {a : AtaState} {n : Nat}

theorem clockRead_readings (s : Timed) :
    (s.clockRead sch).2.readings = s.readings ++ [(s.clockRead sch).1] := rfl

theorem clockRead_runs {s : Timed} (hInp : inp.Reads (s.clockRead sch).2.readings) :
    Runs (Hexos.clockRead inp) (a.counters n s.readings.length) (s.clockRead sch).1
      (a.counters n (s.clockRead sch).2.readings.length) := by
  have hNow : inp.clock s.readings.length = (s.clockRead sch).1 :=
    hInp _ _ (by rw [clockRead_readings, List.getElem?_concat_length])
  refine ⟨[], ?_⟩
  show (some (inp.clock s.readings.length), a.counters n (s.readings.length + 1), _) = _
  rw [hNow, clockRead_readings, List.length_append, List.length_singleton]

/-- Earlier readings stay. -/
theorem clockWaitLoop_readings {millis fuel : Nat} {start : ClockTime} {s s' : Timed}
    (h : clockWaitLoop sch millis start fuel s = some s') :
    ((s.processWait sch).clockRead sch).2.readings <+: s'.readings := by
  induction fuel generalizing s with
  | zero => cases h
  | succ fuel ih =>
    rw [clockWaitLoop] at h
    simp only at h
    split at h
    · refine List.IsPrefix.trans ?_ (ih h)
      exact List.prefix_append _ _
    · obtain rfl := Option.some.inj h
      exact List.prefix_rfl

theorem clockWaitLoop_runs {millis fuel : Nat} {start : ClockTime} {s s' : Timed}
    (h : clockWaitLoop sch millis start fuel s = some s') (hInp : inp.Reads s'.readings) :
    Runs (Hexos.clockWaitLoop inp millis start fuel) (a.counters n s.readings.length) ()
      (a.counters n s'.readings.length) := by
  induction fuel generalizing s with
  | zero => cases h
  | succ fuel ih =>
    have hRead := clockRead_runs (a := a) (n := n) (s := s.processWait sch)
      (hInp.mono (clockWaitLoop_readings h))
    rw [clockWaitLoop] at h
    simp only at h
    refine Runs.bind hRead ?_
    simp only
    split at h
    · rename_i hMore
      rw [if_pos hMore]
      exact ih h
    · rename_i hEnd
      obtain rfl := Option.some.inj h
      rw [if_neg hEnd]
      exact Runs.pure () _

/-- `clock_wait`. -/
theorem clockWait_runs {millis fuel : Nat} {s s' : Timed}
    (h : s.clockWait sch fuel millis = some s') (hInp : inp.Reads s'.readings) :
    Runs (Hexos.clockWait inp fuel millis) (a.counters n s.readings.length) ()
        (a.counters n s'.readings.length) := by
  have hFirst : (s.clockRead sch).2.readings <+: s'.readings :=
    List.IsPrefix.trans (List.prefix_append _ _) (clockWaitLoop_readings h)
  exact Runs.bind (clockRead_runs (hInp.mono hFirst)) (clockWaitLoop_runs h hInp)

theorem clockWait_readings {millis fuel : Nat} {s s' : Timed}
    (h : s.clockWait sch fuel millis = some s') :
    s.readings <+: s'.readings := by
  have hFirst : (s.clockRead sch).2.readings <+: s'.readings :=
    List.IsPrefix.trans (List.prefix_append _ _) (clockWaitLoop_readings h)
  exact List.IsPrefix.trans (List.prefix_append _ _) hFirst

end Timed

theorem outbs_runs (l : List (Nat × Nat)) (a : AtaState) : Runs (outbs l) a () a := by
  induction l with
  | nil => exact Runs.pure () a
  | cons head rest ih => exact Runs.bind (Runs.emit _ a) ih

/-- A byte compared as an `int`. -/
theorem setWidth_and_eq (t mask state : BitVec 8) :
    t.setWidth 32 &&& mask.setWidth 32 = state.setWidth 32 ↔ t &&& mask = state := by
  rw [← BitVec.setWidth_and]
  constructor
  · intro h
    have hBack := congrArg (BitVec.setWidth 8) h
    rwa [BitVec.setWidth_setWidth_of_le _ (by omega), BitVec.setWidth_setWidth_of_le _ (by omega),
      BitVec.setWidth_eq, BitVec.setWidth_eq] at hBack
  · exact congrArg _

theorem setWidth_and_eq_zero (t mask : BitVec 8) :
    t.setWidth 32 &&& mask.setWidth 32 = 0 ↔ t &&& mask = 0 :=
  setWidth_and_eq t mask 0

namespace AtaTimed

variable {sch : ClockSchedule} {inp : AtaInputs} {a : AtaState} {s s' : AtaTimed} {fuel : Nat}

theorem ataReset_readings (h : s.ataReset sch fuel = some s') :
    s.readings <+: s'.readings ∧ s'.statusReads = s.statusReads := by
  obtain ⟨c, hFirst, h⟩ := Option.bind_eq_some_iff.mp h
  obtain ⟨c', hSecond, rfl⟩ := Option.map_eq_some_iff.mp h
  exact ⟨List.IsPrefix.trans (Timed.clockWait_readings hFirst) (Timed.clockWait_readings hSecond),
    rfl⟩

theorem ataReset_runs {n : Nat} (id : Nat) (h : s.ataReset sch fuel = some s')
    (hInp : inp.Reads s'.readings) :
    Runs (Hexos.ataReset inp fuel id) (a.counters n s.readings.length) ()
      (a.counters n s'.readings.length) := by
  obtain ⟨c, hFirst, h⟩ := Option.bind_eq_some_iff.mp h
  obtain ⟨c', hSecond, rfl⟩ := Option.map_eq_some_iff.mp h
  exact Runs.bind (outbs_runs _ _) (Runs.bind
    (Timed.clockWait_runs hFirst (hInp.mono (Timed.clockWait_readings hSecond)))
    (Runs.bind (outbs_runs _ _) (Timed.clockWait_runs hSecond hInp)))

/-- A round that ends with a reset. -/
theorem ataWaitFail_runs {n : Nat} {result : Bool} (id : Nat) (mask state t : BitVec 8)
    (h : (s.ataReset sch fuel).map (fun s => (false, s)) = some (result, s'))
    (hInp : inp.Reads s'.readings) :
    Runs (ataWaitFail inp fuel id mask state t) (a.counters n s.readings.length) result
      (a.counters n s'.readings.length) := by
  obtain ⟨s'', hReset, hEq⟩ := Option.map_eq_some_iff.mp h
  obtain ⟨rfl, rfl⟩ := Prod.mk.inj hEq
  exact Runs.bind (ataReset_runs id hReset hInp) (Runs.bind (Runs.emit _ _) (Runs.pure false _))

theorem ataWaitFail_readings {result : Bool}
    (h : (s.ataReset sch fuel).map (fun s => (false, s)) = some (result, s')) :
    s.readings <+: s'.readings ∧ s'.statusReads = s.statusReads := by
  obtain ⟨s'', hReset, hEq⟩ := Option.map_eq_some_iff.mp h
  obtain ⟨rfl, rfl⟩ := Prod.mk.inj hEq
  exact ataReset_readings hReset

/-- The loop on readings. -/
theorem ataWaitLoop_runs (id : Nat) (mask state : BitVec 8) (start : ClockTime) {rounds : Nat}
    {result : Bool}
    (h : ataWaitLoop sch inp.status fuel (mask.setWidth 32) (state.setWidth 32) start rounds s =
      some (result, s')) :
    s.readings <+: s'.readings ∧ (inp.Reads s'.readings →
      Runs (Hexos.ataWaitLoop inp fuel id mask state start rounds)
        (a.counters s.statusReads s.readings.length) result
        (a.counters s'.statusReads s'.readings.length)) := by
  induction rounds generalizing s with
  | zero => cases h
  | succ rounds ih =>
    rw [ataWaitLoop] at h
    simp only [setWidth_and_eq, setWidth_and_eq_zero, ne_eq] at h
    have hStatus : Runs (inbStatus inp) (a.counters s.statusReads s.readings.length)
        (inp.status s.statusReads) (a.counters (s.statusReads + 1) s.readings.length) :=
        ⟨[], rfl⟩
    split at h
    · rename_i hReady
      obtain ⟨rfl, rfl⟩ := Prod.mk.inj (Option.some.inj h)
      refine ⟨List.prefix_rfl, ?_⟩
      intro _
      refine Runs.bind hStatus ?_
      rw [if_pos hReady]
      exact Runs.bind (Runs.emit _ _) (Runs.pure true _)
    · rename_i hNotReady
      split at h
      · rename_i hError
        obtain ⟨hReadings, hReads⟩ := ataWaitFail_readings h
        refine ⟨hReadings, ?_⟩
        intro hInp
        refine Runs.bind hStatus ?_
        rw [if_neg hNotReady, if_pos hError, hReads]
        exact ataWaitFail_runs (s := { s with statusReads := s.statusReads + 1 }) id mask
          state _ h hInp
      · rename_i hNoError
        have hGrows : s.readings <+: (s.toTimed.clockRead sch).2.readings := List.prefix_append _ _
        split at h
        · rename_i hLate
          obtain ⟨hReadings, hReads⟩ := ataWaitFail_readings h
          refine ⟨hGrows.trans hReadings, ?_⟩
          intro hInp
          refine Runs.bind hStatus ?_
          rw [if_neg hNotReady, if_neg hNoError]
          refine Runs.bind (Timed.clockRead_runs (hInp.mono hReadings)) ?_
          rw [if_pos hLate, hReads]
          exact ataWaitFail_runs
            (s :=
            { s with toTimed := (s.toTimed.clockRead sch).2, statusReads := s.statusReads + 1 })
            id mask state _ h hInp
        · rename_i hSoon
          obtain ⟨c, hWait, h⟩ := Option.bind_eq_some_iff.mp h
          obtain ⟨hReadings, hRuns⟩ := ih h
          have hWaited := Timed.clockWait_readings hWait
          refine ⟨(hGrows.trans hWaited).trans hReadings, ?_⟩
          intro hInp
          refine Runs.bind hStatus ?_
          rw [if_neg hNotReady, if_neg hNoError]
          refine Runs.bind (Timed.clockRead_runs (hInp.mono (hWaited.trans hReadings))) ?_
          rw [if_neg hSoon]
          exact Runs.bind (Timed.clockWait_runs hWait (hInp.mono hReadings)) (hRuns hInp)

/-- **ata_wait on readings.** A run under a schedule is a run of `ataWait` on the readings
that the schedule gives. -/
theorem ataWait_simulates (id : Nat) (mask state : BitVec 8) {result : Bool}
    (h : s.ataWait sch inp.status fuel (mask.setWidth 32) (state.setWidth 32) = some (result, s'))
    (hInp : inp.Reads s'.readings) :
    Runs (Hexos.ataWait inp fuel id mask state) (a.counters s.statusReads s.readings.length) result
      (a.counters s'.statusReads s'.readings.length) := by
  obtain ⟨hReadings, hRuns⟩ := ataWaitLoop_runs (a := a) id mask state _ h
  exact Runs.bind (Timed.clockRead_runs (hInp.mono hReadings)) (hRuns hInp)

end AtaTimed

end Hexos
