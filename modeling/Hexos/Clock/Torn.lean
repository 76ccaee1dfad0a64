import Hexos.Clock.Definitions
import Mathlib.Data.List.Chain

/-!
# HexOS — `clock_read` while the clock runs

`clock_read` loads `seconds` and then `clicks`, with interrupts enabled. An
interrupt that ends a second in between makes the result a second too early:
the seconds are those before the interrupt, and the clicks those after it.

A run is a sequence of calls; any number of interrupts comes before each call and
between its two loads. The state of the clock at the first load and the interrupts
up to the second one decide whether the result is a time that the clock has had.

## Results

* `clockRead_had_iff` — one call.
* `clockReads_follow` — the state of the clock at each call of a run.
* `clock_reads_iff` — a whole run.
-/

namespace Hexos

-- ---------------------------------------------------------------------------
-- Calls and runs
-- ---------------------------------------------------------------------------

/-- `clock_read`, with `within` interrupts between its two loads: what it returns, and
the clock it leaves. -/
def clockReadLoads (within : Nat) (c : ClockVars) : ClockTime × ClockVars :=
  let seconds := c.seconds
  let c := ClockVars.interrupt^[within] c
  (⟨seconds, 1000 * c.clicks % 2 ^ 32 / clicksPerSecond⟩, c)

/-- The interrupts of a call: since the last one, and between its loads. -/
structure ReadCall where
  before : Nat
  within : Nat

/-- A call that has been made: its interrupts, the clock at its first load, and what it
returned. -/
structure Reading extends ReadCall where
  start : ClockVars
  value : ClockTime

/-- A run of calls. -/
def clockReads : ClockVars → List ReadCall → List Reading
  | _, [] => []
  | c, call :: calls =>
    let start := ClockVars.interrupt^[call.before] c
    let (value, c) := clockReadLoads call.within start
    ⟨call, start, value⟩ :: clockReads c calls

-- ---------------------------------------------------------------------------
-- What is asked of them
-- ---------------------------------------------------------------------------

namespace Reading

/-- The value is one that the clock had at a moment during the call. -/
def Had (r : Reading) : Prop :=
  ∃ i ≤ r.within, r.value = (ClockVars.interrupt^[i] r.start).read

/-- No second ends between the two loads, or so many that the clicks are those of the
first load or later again, or that `seconds` is back. -/
def Untorn (r : Reading) : Prop :=
  r.start.clicks ≤ (r.start.clicks + r.within) % 10 ∨
    2 ^ 32 ≤ (r.start.clicks + r.within) / 10

/-- The interrupts from the first load of a call to the second one of the next. -/
def span (r r' : Reading) : Nat := r.within + r'.before + r'.within

/-- The next value is not before this one, unless `seconds` wraps. -/
def NotBackwards (r r' : Reading) : Prop :=
  r.start.seconds + (r.start.clicks + span r r') / 10 < 2 ^ 32 →
    r.value.seconds < r'.value.seconds ∨
      r.value.seconds = r'.value.seconds ∧ r.value.millis ≤ r'.value.millis

/-- Less than `2^31` seconds are reported where less have passed. -/
def DiffSmall (r r' : Reading) : Prop :=
  span r r' < 10 * 2 ^ 31 → (clockDiff r.value r'.value).seconds < 2 ^ 31

end Reading

-- ---------------------------------------------------------------------------
-- One call
-- ---------------------------------------------------------------------------

theorem clockReadLoads_after (within t : Nat) :
    clockReadLoads within (ClockVars.after t) =
      (⟨t / 10 % 2 ^ 32, (t + within) % 10 * 100⟩, ClockVars.after (t + within)) := by
  have hRead := ClockVars.read_after (t + within)
  unfold clockReadLoads
  rw [ClockVars.after_add, ClockVars.after_eq t]
  exact congrArg (fun millis =>
    (ClockTime.mk (t / 10 % 2 ^ 32) millis, ClockVars.after (t + within)))
    (congrArg ClockTime.millis hRead)

/-- **One call.** -/
theorem clockRead_had_iff (within t : Nat) :
    (∃ i ≤ within, (⟨t / 10 % 2 ^ 32, (t + within) % 10 * 100⟩ : ClockTime) =
      (ClockVars.after (t + i)).read) ↔
      t % 10 ≤ (t % 10 + within) % 10 ∨ 2 ^ 32 ≤ (t % 10 + within) / 10 := by
  simp only [ClockVars.read_after, ClockTime.mk.injEq]
  -- the time is split into seconds and clicks, and each moment counted from the second
  obtain ⟨a, b, hb, rfl⟩ : ∃ a b, b < 10 ∧ t = 10 * a + b :=
    ⟨t / 10, t % 10, by omega, by omega⟩
  have hDiv : ∀ i, (10 * a + b + i) / 10 = a + (b + i) / 10 := by omega
  have hMod : ∀ i, (10 * a + b + i) % 10 = (b + i) % 10 := by omega
  have hDiv₀ : (10 * a + b) / 10 = a := by omega
  have hMod₀ : (10 * a + b) % 10 = b := by omega
  simp only [hDiv, hMod, hDiv₀, hMod₀]
  constructor
  · rintro ⟨i, hi, hSeconds, hMillis⟩
    have hWhole : (b + i) / 10 = 0 ∨ 2 ^ 32 ≤ (b + i) / 10 := by omega
    rcases hWhole with hZero | hMany
    · left
      omega
    · right
      omega
  · rintro (hSame | hMany)
    · refine ⟨(b + within) % 10 - b, by omega, ?_, ?_⟩
      · omega
      · omega
    · refine ⟨10 * 2 ^ 32 + (b + within) % 10 - b, by omega, ?_, ?_⟩
      · omega
      · omega

-- ---------------------------------------------------------------------------
-- Runs
-- ---------------------------------------------------------------------------

namespace Reading

/-- The call was made after `u` interrupts. -/
structure At (r : Reading) (u : Nat) : Prop where
  start : r.start = ClockVars.after u
  value : r.value = ⟨u / 10 % 2 ^ 32, (u + r.within) % 10 * 100⟩

/-- The call `r'` followed `r`. -/
def Follows (r r' : Reading) : Prop := ∃ u, r.At u ∧ r'.At (u + r.within + r'.before)

variable {r r' : Reading} {u : Nat}

theorem At.had_iff (h : r.At u) : r.Had ↔ r.Untorn := by
  unfold Had Untorn
  rw [h.start, h.value]
  simp only [ClockVars.after_add]
  rw [clockRead_had_iff r.within u, ClockVars.after_eq]

/-- **Two calls.** Values that the clock had are in the order of their moments. -/
theorem Follows.ordered (h : Follows r r') (hHad : r.Had) (hHad' : r'.Had) :
    NotBackwards r r' ∧ DiffSmall r r' := by
  obtain ⟨u, hAt, hAt'⟩ := h
  obtain ⟨i, hi, hValue⟩ := hHad
  obtain ⟨i', hi', hValue'⟩ := hHad'
  rw [hAt.start, ClockVars.after_add] at hValue
  rw [hAt'.start, ClockVars.after_add] at hValue'
  have hLater : ∃ n, u + r.within + r'.before + i' = u + i + n ∧ n ≤ span r r' :=
    ⟨r.within - i + r'.before + i', by omega, by unfold span; omega⟩
  obtain ⟨n, hMoment, hn⟩ := hLater
  rw [hMoment] at hValue'
  refine ⟨?_, ?_⟩
  · intro hNoWrap
    rw [hAt.start, ClockVars.after_eq] at hNoWrap
    rw [hValue, hValue', ClockVars.read_after, ClockVars.read_after]
    simp only at hNoWrap ⊢
    have hEnd : u + i + n ≤ u + span r r' := by unfold span; omega
    generalize span r r' = k at hNoWrap hn hEnd
    have hSeconds : ∀ x, u ≤ x → x ≤ u + k →
        x / 10 % 2 ^ 32 = x / 10 - u / 10 + u / 10 % 2 ^ 32 := by
      intro x hl hr
      omega
    rw [hSeconds (u + i) (by omega) (by omega), hSeconds (u + i + n) (by omega) (by omega)]
    omega
  · intro hSpan
    rw [hValue, hValue', clockDiff_after]
    show n / 10 % 2 ^ 32 < 2 ^ 31
    omega

end Reading

/-- **Runs.** Each call is made after the interrupts of all calls before it. -/
theorem clockReads_follow (t : Nat) (calls : List ReadCall) :
    (clockReads (ClockVars.after t) calls).IsChain Reading.Follows ∧
      (∀ r ∈ clockReads (ClockVars.after t) calls, ∃ u, r.At u) ∧
      ∀ r ∈ (clockReads (ClockVars.after t) calls).head?, r.At (t + r.before) := by
  induction calls generalizing t with
  | nil => exact ⟨List.isChain_nil, by simp [clockReads], by simp [clockReads]⟩
  | cons call calls ih =>
    have hRun : clockReads (ClockVars.after t) (call :: calls) =
        ⟨call, ClockVars.after (t + call.before),
          ⟨(t + call.before) / 10 % 2 ^ 32, (t + call.before + call.within) % 10 * 100⟩⟩ ::
          clockReads (ClockVars.after (t + call.before + call.within)) calls := by
      rw [clockReads, ClockVars.after_add, clockReadLoads_after]
    obtain ⟨hChain, hAt, hHead⟩ := ih (t + call.before + call.within)
    rw [hRun]
    refine ⟨?_, ?_, ?_⟩
    · refine hChain.cons ?_
      intro r hr
      exact ⟨t + call.before, ⟨rfl, rfl⟩, hHead r hr⟩
    · intro r hr
      rcases List.mem_cons.mp hr with rfl | hr
      · exact ⟨t + call.before, rfl, rfl⟩
      · exact hAt r hr
    · intro r hr
      obtain rfl := Option.some.inj hr
      exact ⟨rfl, rfl⟩

/-- **Whole runs.** All values of a run are values that the clock had during their
calls, do not go backwards, and have small differences where little time has passed,
exactly if none of its calls is torn. -/
theorem clock_reads_iff (t : Nat) (calls : List ReadCall) :
    ((∀ r ∈ clockReads (ClockVars.after t) calls, r.Had) ∧
      (clockReads (ClockVars.after t) calls).IsChain
        fun r r' => Reading.NotBackwards r r' ∧ Reading.DiffSmall r r') ↔
      ∀ r ∈ clockReads (ClockVars.after t) calls, r.Untorn := by
  obtain ⟨hChain, hAt, -⟩ := clockReads_follow t calls
  constructor
  · rintro ⟨hHad, -⟩ r hr
    obtain ⟨u, hu⟩ := hAt r hr
    exact hu.had_iff.mp (hHad r hr)
  · intro hUntorn
    have hHad : ∀ r ∈ clockReads (ClockVars.after t) calls, r.Had := by
      intro r hr
      obtain ⟨u, hu⟩ := hAt r hr
      exact hu.had_iff.mpr (hUntorn r hr)
    refine ⟨hHad, hChain.imp_of_mem_imp ?_⟩
    intro r r' hr hr' hFollows
    exact hFollows.ordered (hHad r hr) (hHad r' hr')

/-- Two calls at the end of the first second, the second one with the interrupt that ends it
between its loads: the values go back by most of a second, and their difference is
almost `2^32` seconds. -/
theorem clock_reads_torn :
    (clockReads (ClockVars.after 9) [⟨0, 0⟩, ⟨0, 1⟩]).map (·.value) =
      [⟨0, 900⟩, ⟨0, 0⟩] ∧
    clockDiff ⟨0, 900⟩ ⟨0, 0⟩ = ⟨4294967295, 100⟩ ∧
    ¬ ((∀ r ∈ clockReads (ClockVars.after 9) [⟨0, 0⟩, ⟨0, 1⟩], r.Had) ∧
      (clockReads (ClockVars.after 9) [⟨0, 0⟩, ⟨0, 1⟩]).IsChain
        fun r r' => Reading.NotBackwards r r' ∧ Reading.DiffSmall r r') := by
  refine ⟨rfl, rfl, ?_⟩
  rintro ⟨-, hChain⟩
  have hSmall := (List.isChain_pair.mp hChain).2
  exact absurd (hSmall (by decide)) (by decide)

end Hexos
