import Mathlib.Data.Nat.Find
import Mathlib.Logic.Basic
import Mathlib.Logic.Function.Iterate

/-!
# Loops

A counted loop goes over `i`, `i + 1`, ..., `i + k - 1`, and its body may fail. A
polling loop goes from state to state until a test holds: it returns exactly at the
first state at which the test holds, if its fuel lasts until there. The position of a
walk moves forward with every step until the walk stops, and stays where it is from
then on.

* `Loop.invariant` — the invariant rule: what holds before each round and
  after it holds at the end, and the loop does not fail.
* `Loop.invariant_nested` — two nested loops over the cells of a grid.
* `Loop.run_eq_some` — the invariant rule for a loop of which it is known that it
  does not fail.
* `Poll.run_eq_some_iff` — when a polling loop returns, and what.
* `Poll.exists_firstStop`, `Poll.returns` — a test that holds at some time holds for a
  first time, and then the loop returns.
* `Walk.exists_stop` — a walk that stays below a bound stops.
* `Walk.pos_mono`, `Walk.stop_stays` — before and after it does.
-/

universe u

-- ---------------------------------------------------------------------------
-- Counted loops
-- ---------------------------------------------------------------------------

namespace Loop

variable {σ : Type u}

/-- `k` rounds of the body `f` from index `i` on. -/
def run (f : Nat → σ → Option σ) : Nat → Nat → σ → Option σ
  | 0, _, s => some s
  | k + 1, i, s => (f i s).bind (run f k (i + 1))

/-- **Invariant rule.** -/
theorem invariant {f : Nat → σ → Option σ} (I : Nat → σ → Prop) (k : Nat)
    {i : Nat} {s : σ} (hInit : I i s)
    (hStep : ∀ j s, i ≤ j → j < i + k → I j s → ∃ s', f j s = some s' ∧
      I (j + 1) s') :
    ∃ s', run f k i s = some s' ∧ I (i + k) s' := by
  induction k generalizing i s with
  | zero => exact ⟨s, rfl, hInit⟩
  | succ k ih =>
    obtain ⟨s₁, hFirst, hNext⟩ := hStep i s (Nat.le_refl i) (by omega) hInit
    obtain ⟨s', hRest, hEnd⟩ := ih hNext fun j s hj hlt => hStep j s (by omega) (by omega)
    refine ⟨s', ?_, by rwa [show i + (k + 1) = i + 1 + k by omega]⟩
    rw [run, hFirst, Option.bind_some]
    exact hRest

/-- **Invariant rule.** A loop that did not fail. -/
theorem run_eq_some {f : Nat → σ → Option σ} (I : Nat → σ → Prop) {k i : Nat} {s s' : σ}
    (hRun : run f k i s = some s') (hInit : I i s)
    (hStep : ∀ j s s', i ≤ j → j < i + k → f j s = some s' → I j s → I (j + 1) s') :
    I (i + k) s' := by
  induction k generalizing i s with
  | zero =>
    obtain rfl := Option.some.inj hRun
    exact hInit
  | succ k ih =>
    rw [run, Option.bind_eq_some_iff] at hRun
    obtain ⟨s₁, hFirst, hRest⟩ := hRun
    have hNext := hStep i s s₁ (Nat.le_refl i) (by omega) hFirst hInit
    rw [show i + (k + 1) = i + 1 + k by omega]
    exact ih hRest hNext fun j s s' hj hlt => hStep j s s' (by omega) (by omega)

/-- **Invariant rule.** Two nested loops over `h` rows of `w` cells, with an
invariant on the number of the cell. -/
theorem invariant_nested {f : Nat → Nat → σ → Option σ} (I : Nat → σ → Prop)
    (w h : Nat) {s : σ} (hInit : I 0 s)
    (hStep : ∀ y x s, y < h → x < w → I (y * w + x) s → ∃ s', f y x s = some s' ∧
      I (y * w + x + 1) s') :
    ∃ s', run (fun y => run (f y) w 0) h 0 s = some s' ∧ I (h * w) s' := by
  have hRows := invariant (f := fun y => run (f y) w 0) (fun y => I (y * w)) h (i := 0) (s := s)
    (by rwa [Nat.zero_mul]) fun y s _ hy hI => by
      have hRow := invariant (f := f y) (fun x => I (y * w + x)) w (i := 0) (s := s) hI
        fun x s _ hx hI => hStep y x s (by omega) (by omega) hI
      obtain ⟨s', hRun, hEnd⟩ := hRow
      refine ⟨s', hRun, ?_⟩
      rwa [Nat.zero_add, ← Nat.succ_mul] at hEnd
  rwa [Nat.zero_add] at hRows

end Loop

-- ---------------------------------------------------------------------------
-- Polling loops
-- ---------------------------------------------------------------------------

namespace Poll

variable {σ : Type u} (next : σ → σ) (stop : σ → Prop)

/-- The test holds after `k` rounds, and not before. -/
structure FirstStop (s : σ) (k : Nat) : Prop where
  holds  : stop (next^[k] s)
  before : ∀ j, j < k → ¬ stop (next^[j] s)

theorem exists_firstStop {s : σ} {k : Nat} (h : stop (next^[k] s)) :
    ∃ j, j ≤ k ∧ FirstStop next stop s j := by
  classical
  have hSome : ∃ j, stop (next^[j] s) := ⟨k, h⟩
  exact ⟨Nat.find hSome, Nat.find_min' hSome h, Nat.find_spec hSome,
    fun j hj => Nat.find_min hSome hj⟩

variable [DecidablePred stop]

/-- Go to the next state until the test holds, and once more then. -/
def run : Nat → σ → Option σ
  | 0, _ => none
  | fuel + 1, s => if stop s then some (next s) else run fuel (next s)

variable {next stop} {fuel : Nat} {s s' : σ}

/-- **Polling.** By induction on the fuel. -/
theorem run_eq_some_iff :
    run next stop fuel s = some s' ↔ ∃ k, k < fuel ∧ FirstStop next stop s k ∧
    s' = next^[k + 1] s := by
  induction fuel generalizing s with
  | zero => simp [run]
  | succ fuel ih =>
    rw [run]
    by_cases hStop : stop s
    · rw [if_pos hStop, Option.some.injEq]
      constructor
      · rintro rfl
        exact ⟨0, Nat.succ_pos fuel,
          ⟨hStop, fun j hj => absurd hj (Nat.not_lt_zero j)⟩, rfl⟩
      · rintro ⟨k, -, hFirst, rfl⟩
        cases k with
        | zero => rfl
        | succ k => exact absurd hStop (hFirst.before 0 (Nat.succ_pos k))
    · rw [if_neg hStop, ih]
      constructor
      · rintro ⟨k, hk, hFirst, rfl⟩
        refine ⟨k + 1, Nat.succ_lt_succ hk, ⟨hFirst.holds, ?_⟩, rfl⟩
        intro j hj
        cases j with
        | zero => exact hStop
        | succ j => exact hFirst.before j (Nat.lt_of_succ_lt_succ hj)
      · rintro ⟨k, hk, hFirst, rfl⟩
        cases k with
        | zero => exact absurd hFirst.holds hStop
        | succ k =>
          refine ⟨k, Nat.lt_of_succ_lt_succ hk, ⟨hFirst.holds, ?_⟩, rfl⟩
          intro j hj
          exact hFirst.before (j + 1) (Nat.succ_lt_succ hj)

/-- **A test that comes to hold** ends the loop, if the fuel lasts until then. -/
theorem returns (next : σ → σ) (stop : σ → Prop) [DecidablePred stop] {s : σ} {k : Nat}
    (h : stop (next^[k] s)) :
    ∃ s', ∀ fuel, k < fuel → run next stop fuel s = some s' := by
  obtain ⟨j, hjk, hFirst⟩ := exists_firstStop next stop h
  refine ⟨next^[j + 1] s, ?_⟩
  intro fuel hFuel
  exact run_eq_some_iff.mpr ⟨j, Nat.lt_of_le_of_lt hjk hFuel, hFirst, rfl⟩

end Poll

-- ---------------------------------------------------------------------------
-- Walks that move forward
-- ---------------------------------------------------------------------------

namespace Walk

variable {σ : Type u} (next : σ → σ) (pos : σ → Nat) (Stop : σ → Prop)

/-- The position never moves back. -/
theorem pos_mono (hStep : ∀ s, pos s ≤ pos (next s)) (s : σ) {j k : Nat} (hjk : j ≤ k) :
    pos (next^[j] s) ≤ pos (next^[k] s) := by
  induction k with
  | zero =>
    obtain rfl : j = 0 := by omega
    exact Nat.le_refl _
  | succ k ih =>
    by_cases hEq : j = k + 1
    · exact Nat.le_of_eq (by rw [hEq])
    · rw [Function.iterate_succ_apply']
      exact Nat.le_trans (ih (by omega)) (hStep _)

/-- **A bounded walk stops.** -/
theorem exists_stop (hStep : ∀ s, ¬ Stop s → pos s < pos (next s)) (N : Nat) (s : σ)
    (hBound : ∀ k, k ≤ N → pos (next^[k] s) < N) : ∃ n, n ≤ N ∧ Stop (next^[n] s) := by
  by_contra hNone
  -- otherwise every step moves forward
  have hFar : ∀ k, k ≤ N → k ≤ pos (next^[k] s) := by
    intro k
    induction k with
    | zero => exact fun _ => Nat.zero_le _
    | succ k ih =>
      intro hk
      have hMove := hStep (next^[k] s) fun hc => hNone ⟨k, by omega, hc⟩
      rw [Function.iterate_succ_apply']
      have := ih (by omega)
      omega
  have := hFar N (Nat.le_refl N)
  have := hBound N (Nat.le_refl N)
  omega

/-- **A walk that has stopped** stays stopped where it is. -/
theorem stop_stays (hStop : ∀ s, Stop s → Stop (next s) ∧ pos (next s) = pos s) {s : σ}
    {j k : Nat} (h : Stop (next^[j] s)) (hjk : j ≤ k) :
    Stop (next^[k] s) ∧ pos (next^[k] s) = pos (next^[j] s) := by
  induction k with
  | zero =>
    obtain rfl : j = 0 := by omega
    exact ⟨h, rfl⟩
  | succ k ih =>
    by_cases hEq : j = k + 1
    · rw [← hEq]
      exact ⟨h, rfl⟩
    · obtain ⟨hStopped, hPos⟩ := ih (by omega)
      obtain ⟨hNext, hPos'⟩ := hStop _ hStopped
      rw [Function.iterate_succ_apply']
      exact ⟨hNext, hPos'.trans hPos⟩

end Walk
