import Hexos.Heap.Definitions
import Mathlib.Order.Basic
import Mathlib.Tactic.ByContra

/-!
# HexOS — the next-fit scan of the heap

The scan leaves a block in exactly one of three ways. It allocates when some
run of free cells, long enough, starts at a cell other than `lfb`. Without
such a run it ends at `lfb`, unless `lfb` lies strictly inside a run of free
cells: then every pass jumps over `lfb` and the scan never ends.

## Results

* `KernelHeapBlockBm.round` — what one round of the loop does.
* `KernelHeapBlockBm.pass` — a stretch of the loop that does not meet `lfb`.
* `KernelHeapBlockBm.scan_fits`, `scan_ends`, `scan_runs` — the three ways.
-/

namespace Hexos.KernelHeapBlockBm

variable {b : KernelHeapBlockBm} {n x : Nat}

-- ---------------------------------------------------------------------------
-- Free runs
-- ---------------------------------------------------------------------------

/-- The `n` cells from `w` on are free. -/
def Window (b : KernelHeapBlockBm) (n w : Nat) : Prop :=
  w + n ≤ b.bcnt ∧ ∀ i, w ≤ i → i < w + n → b.bm i = 0

/-- A run of free cells for a request of `n` cells starts at a cell other than
`lfb`. A request of no cells needs a free cell all the same. -/
def Fits (b : KernelHeapBlockBm) (n : Nat) : Prop :=
  ∃ w, w ≠ b.lfb ∧ b.Window (max n 1) w

/-- The cell `lfb` lies strictly inside a run of free cells. -/
def LfbInside (b : KernelHeapBlockBm) : Prop :=
  b.bm b.lfb = 0 ∧ b.bm (b.lfb - 1) = 0

/-- The bounds on `lfb` under which the scan starts right after it. -/
structure LfbBounds (b : KernelHeapBlockBm) : Prop where
  pos   : 1 ≤ b.lfb
  below : b.lfb + 1 < b.bcnt
  word  : b.bcnt < 2 ^ 32

theorem LfbBounds.scanStart (h : b.LfbBounds) : b.scanStart = b.lfb + 1 := by
  have hBelow := h.below
  have hWord := h.word
  unfold KernelHeapBlockBm.scanStart
  rw [Nat.mod_eq_of_lt (by omega), if_neg (by omega)]

theorem countFree_le (k i : Nat) : b.countFree k i ≤ k := by
  induction k generalizing i with
  | zero => exact le_refl 0
  | succ k ih =>
    unfold countFree
    split
    · exact Nat.succ_le_succ (ih (i + 1))
    · exact Nat.zero_le _

/-- The cells counted are free. -/
theorem countFree_free {k i j : Nat} (hi : i ≤ j) (hj : j < i + b.countFree k i) :
    b.bm j = 0 ∧ j < b.bcnt := by
  induction k generalizing i with
  | zero =>
    unfold countFree at hj
    omega
  | succ k ih =>
    unfold countFree at hj
    split at hj
    · next hFree =>
      rcases Nat.eq_or_lt_of_le hi with rfl | hlt
      · exact hFree
      · exact ih (i := i + 1) hlt (by omega)
    · omega

/-- The count stops before `k` only at a used cell or the end of the block. -/
theorem countFree_stop {k i : Nat} (h : b.countFree k i < k) :
    ¬ (b.bm (i + b.countFree k i) = 0 ∧ i + b.countFree k i < b.bcnt) := by
  induction k generalizing i with
  | zero => omega
  | succ k ih =>
    unfold countFree at h ⊢
    split
    · next hFree =>
      rw [if_pos hFree] at h
      have hNext := ih (i := i + 1) (by omega)
      rwa [show i + (b.countFree k (i + 1) + 1) = i + 1 + b.countFree k (i + 1) by omega]
    · next hUsed => simpa using hUsed

-- ---------------------------------------------------------------------------
-- Rounds and passes
-- ---------------------------------------------------------------------------

/-- The cell a round looks at. -/
def wrap (b : KernelHeapBlockBm) (x : Nat) : Nat := if x ≥ b.bcnt then 0 else x

theorem kallocScan_succ (hx : x ≠ b.lfb) (f : Nat) :
    b.kallocScan n (f + 1) x =
      if b.bm (b.wrap x) = 0 then
        if b.countFree n (b.wrap x) = n then some (some (b.wrap x))
        else b.kallocScan n f (b.wrap x + b.countFree n (b.wrap x))
      else b.kallocScan n f (b.wrap x + 1) := by
  rw [kallocScan, if_neg hx]
  rfl

/-- **One round.** The round at `x ≠ lfb` allocates, or goes on at a later cell
`z`. In the second case no window starts in between, the cells strictly
between lie inside a free run, and `z` does not. -/
theorem round (hx : x ≠ b.lfb) (hb : 0 < b.bcnt) :
    (b.Window (max n 1) (b.wrap x) ∧ ∀ f, b.kallocScan n (f + 1) x = some (some (b.wrap x))) ∨
    ∃ z, b.wrap x < z ∧ z ≤ b.bcnt ∧
      (∀ f, b.kallocScan n (f + 1) x = b.kallocScan n f z) ∧
      (∀ w, b.wrap x ≤ w → w < z → ¬ b.Window (max n 1) w) ∧
      (∀ j, b.wrap x < j → j < z → b.bm j = 0 ∧ b.bm (j - 1) = 0) ∧
      (z = b.bcnt ∨ b.bm z ≠ 0 ∨ b.bm (z - 1) ≠ 0) := by
  have hScan := kallocScan_succ (n := n) hx
  have hLt : b.wrap x < b.bcnt := by
    unfold wrap
    split <;> omega
  generalize b.wrap x = v at hScan hLt ⊢
  have hLe := countFree_le (b := b) n v
  by_cases hFree : b.bm v = 0
  · by_cases hEnough : b.countFree n v = n
    · -- enough free cells: the round allocates
      refine Or.inl ⟨⟨?_, ?_⟩, fun f => by rw [hScan, if_pos hFree, if_pos hEnough]⟩
      · rcases Nat.eq_zero_or_pos n with rfl | hn
        · exact hLt
        · have :=
            (countFree_free (b := b) (k := n) (i := v) (j := v + n - 1) (by omega) (by omega)).2
          omega
      · intro i hi hin
        rcases Nat.eq_zero_or_pos n with rfl | hn
        · rwa [show i = v by omega]
        · exact (countFree_free (k := n) hi (by omega)).1
    · -- a run that is too short: the round jumps to its end
      have hShort : b.countFree n v < n := by omega
      have hStop := countFree_stop hShort
      have hPos : 0 < b.countFree n v := by
        rcases Nat.eq_zero_or_pos (b.countFree n v) with h0 | h0
        · rw [h0] at hStop
          exact absurd ⟨hFree, hLt⟩ hStop
        · exact h0
      have hLast := (countFree_free (b := b) (k := n) (i := v) (j := v + b.countFree n v - 1)
        (by omega) (by omega)).2
      refine Or.inr ⟨v + b.countFree n v, by omega, by omega, ?_, ?_, ?_, ?_⟩
      · intro f
        rw [hScan, if_pos hFree, if_neg hEnough]
      · rintro w hw hwz ⟨hEnd, hCells⟩
        exact hStop ⟨hCells _ (by omega) (by omega), by omega⟩
      · intro j hj hjz
        exact ⟨(countFree_free (k := n) (i := v) (by omega) hjz).1,
          (countFree_free (k := n) (i := v) (by omega) (by omega)).1⟩
      · by_cases hEnd : v + b.countFree n v < b.bcnt
        · exact Or.inr (Or.inl fun h0 => hStop ⟨h0, hEnd⟩)
        · exact Or.inl (by omega)
  · -- a used cell: the round goes on to the next one
    refine Or.inr ⟨v + 1, by omega, by omega, fun f => by rw [hScan, if_neg hFree], ?_, ?_, ?_⟩
    · rintro w hw hwz ⟨-, hCells⟩
      exact hFree (hCells v (by omega) (by omega))
    · omega
    · exact Or.inr (Or.inr hFree)

/-- **One pass.** From `x` to `t`, without `lfb` in between: the scan allocates
on the way, or there is no window on the way and the scan comes to `t` or, when
`t` is strictly inside a free run, past it. -/
theorem pass {t : Nat} (ht : t ≤ b.bcnt) (hb : 0 < b.bcnt) (hxt : x ≤ t)
    (hLfb : ∀ i, x ≤ i → i < t → i ≠ b.lfb) :
    (∃ w k, x ≤ w ∧ w < t ∧ b.Window (max n 1) w ∧
      ∀ f, b.kallocScan n (f + k) x = some (some w)) ∨
    ∃ z k, t ≤ z ∧ z ≤ b.bcnt ∧ (∀ f, b.kallocScan n (f + k) x = b.kallocScan n f z) ∧
      (∀ w, x ≤ w → w < t → ¬ b.Window (max n 1) w) ∧
      (z = t ∨ b.bm t = 0 ∧ b.bm (t - 1) = 0) := by
  -- induction on the distance to `t`
  generalize hd : t - x = d
  induction d using Nat.strongRecOn generalizing x with | ind d ih
  rcases Nat.eq_or_lt_of_le hxt with rfl | hlt
  · exact Or.inr ⟨x, 0, le_refl x, ht, fun _ => rfl, by omega, Or.inl rfl⟩
  have hWrap : b.wrap x = x := by
    unfold wrap
    rw [if_neg (by omega)]
  rcases round (n := n) (hLfb x (le_refl x) hlt) hb with
    ⟨hWin, hStep⟩ | ⟨z, hxz, hzb, hStep, hNone, hInside, -⟩
  · rw [hWrap] at hWin hStep
    exact Or.inl ⟨x, 1, le_refl x, hlt, hWin, hStep⟩
  · rw [hWrap] at hxz hNone hInside
    rcases Nat.lt_or_ge t z with htz | hzt
    · refine Or.inr ⟨z, 1, by omega, hzb, hStep, fun w hw hwt => hNone w hw (by omega), ?_⟩
      exact Or.inr (hInside t hlt htz)
    · rcases ih (t - z) (by omega) hzt (fun i hi hit => hLfb i (by omega) hit) rfl with
        ⟨w, k, hzw, hwt, hWin, hRun⟩ | ⟨z', k, hz't, hz'b, hRun, hNone', hEnd⟩
      · refine Or.inl ⟨w, k + 1, by omega, hwt, hWin, ?_⟩
        intro f
        rw [← hRun f, ← hStep (f + k)]
        rfl
      · refine Or.inr ⟨z', k + 1, hz't, hz'b, ?_, ?_, hEnd⟩
        · intro f
          rw [← hRun f, ← hStep (f + k)]
          rfl
        · intro w hw hwt
          rcases Nat.lt_or_ge w z with hwz | hzw
          · exact hNone w hw hwz
          · exact hNone' w hzw hwt

-- ---------------------------------------------------------------------------
-- The three ways out of a block
-- ---------------------------------------------------------------------------

/-- More rounds do not change a result. -/
theorem kallocScan_mono {f g : Nat} {r : Option Nat} (h : b.kallocScan n f x = some r)
    (hfg : f ≤ g) : b.kallocScan n g x = some r := by
  induction f generalizing x g with
  | zero =>
    unfold kallocScan at h
    cases h
  | succ f ih =>
    obtain ⟨g, rfl⟩ : ∃ g', g = g' + 1 := ⟨g - 1, by omega⟩
    by_cases hx : x = b.lfb
    · rw [kallocScan, if_pos hx] at h ⊢
      exact h
    · rw [kallocScan_succ hx] at h ⊢
      by_cases hFree : b.bm (b.wrap x) = 0
      · rw [if_pos hFree] at h ⊢
        by_cases hEnough : b.countFree n (b.wrap x) = n
        · rw [if_pos hEnough] at h ⊢
          exact h
        · rw [if_neg hEnough] at h ⊢
          exact ih h (by omega)
      · rw [if_neg hFree] at h ⊢
        exact ih h (by omega)

/-- From the start: through the cells after `lfb` and, after the wrap, through
those before it. -/
theorem scan_outcome (h : b.LfbBounds) (n : Nat) :
    (∃ w k, w ≠ b.lfb ∧ b.Window (max n 1) w ∧
      ∀ f, b.kallocScan n (f + k) b.scanStart = some (some w)) ∨
    (¬ b.Fits n ∧ (b.LfbInside ∨
      ∃ k, ∀ f, b.kallocScan n (f + k) b.scanStart = some none)) := by
  have hPos := h.pos
  have hBelow := h.below
  rw [h.scanStart]
  rcases pass (b := b) (n := n) (x := b.lfb + 1) (le_refl b.bcnt) (by omega) (by omega)
    (by omega) with
    ⟨w, k, hw, hwt, hWin, hRun⟩ | ⟨z, k, hz, hzb, hRun, hNone, -⟩
  · exact Or.inl ⟨w, k, by omega, hWin, hRun⟩
  obtain rfl : z = b.bcnt := by omega
  -- the round at the end of the block is the round at cell 0
  have hWrap : ∀ f, b.kallocScan n (f + 1) b.bcnt = b.kallocScan n (f + 1) 0 := by
    intro f
    have hEnd : b.wrap b.bcnt = 0 := if_pos (le_refl b.bcnt)
    have hZero : b.wrap 0 = 0 := by
      unfold wrap
      split <;> rfl
    rw [kallocScan_succ (by omega), kallocScan_succ (by omega), hEnd, hZero]
  rcases pass (b := b) (n := n) (x := 0) (t := b.lfb) (by omega) (by omega) (by omega)
    (by omega) with
    ⟨w, k', hw, hwt, hWin, hRun'⟩ | ⟨z, k', hz, hzb, hRun', hNone', hEnd⟩
  · refine Or.inl ⟨w, k' + 1 + k, by omega, hWin, ?_⟩
    intro f
    rw [show f + (k' + 1 + k) = f + k' + 1 + k by omega, hRun, hWrap]
    rw [show f + k' + 1 = (f + 1) + k' by omega, hRun']
  · refine Or.inr ⟨?_, ?_⟩
    · rintro ⟨w, hw, hWin⟩
      rcases Nat.lt_or_ge w b.lfb with hlt | hge
      · exact hNone' w (by omega) hlt hWin
      · have := hWin.1
        exact hNone w (by omega) (by omega) hWin
    · rcases hEnd with rfl | hInside
      · refine Or.inr ⟨k' + 1 + k, ?_⟩
        intro f
        rw [show f + (k' + 1 + k) = f + k' + 1 + k by omega, hRun, hWrap]
        rw [show f + k' + 1 = (f + 1) + k' by omega, hRun', kallocScan, if_pos rfl]
      · exact Or.inl hInside

/-- A scan that allocates does so at a window, whatever `lfb` is. -/
theorem scan_window {f w : Nat} (hb : 0 < b.bcnt) (hScan : b.kallocScan n f x = some (some w)) :
    b.Window (max n 1) w := by
  induction f generalizing x with
  | zero =>
    unfold kallocScan at hScan
    cases hScan
  | succ f ih =>
    by_cases hLfb : x = b.lfb
    · rw [kallocScan, if_pos hLfb] at hScan
      cases hScan
    · rcases round (n := n) hLfb hb with ⟨hWin, hStep⟩ | ⟨z, -, -, hStep, -⟩
      · rw [hStep f] at hScan
        obtain rfl : b.wrap x = w := by simpa using hScan
        exact hWin
      · rw [hStep f] at hScan
        exact ih hScan

/-- A scan that allocates does so at a window that does not start at `lfb`. -/
theorem scan_sound {f w : Nat} (h : b.LfbBounds) (hx : x ≤ b.bcnt)
    (hScan : b.kallocScan n f x = some (some w)) : w ≠ b.lfb ∧ b.Window (max n 1) w := by
  have hPos := h.pos
  have hBelow := h.below
  induction f generalizing x with
  | zero =>
    unfold kallocScan at hScan
    cases hScan
  | succ f ih =>
    by_cases hLfb : x = b.lfb
    · rw [kallocScan, if_pos hLfb] at hScan
      cases hScan
    · rcases round (n := n) hLfb (by omega) with ⟨hWin, hStep⟩ | ⟨z, -, hz, hStep, -⟩
      · rw [hStep f] at hScan
        obtain rfl : b.wrap x = w := by simpa using hScan
        refine ⟨?_, hWin⟩
        unfold wrap
        split <;> omega
      · rw [hStep f] at hScan
        exact ih hz hScan

/-- **Allocation.** With a fitting run the scan allocates. -/
theorem scan_fits (h : b.LfbBounds) (hFits : b.Fits n) :
    ∃ w k, ∀ f, b.kallocScan n (f + k) b.scanStart = some (some w) := by
  rcases scan_outcome h n with ⟨w, k, -, -, hRun⟩ | ⟨hNot, -⟩
  · exact ⟨w, k, hRun⟩
  · exact absurd hFits hNot

/-- **Exhaustion.** Without one, and with `lfb` not strictly inside a free run,
the scan ends at `lfb`. -/
theorem scan_ends (h : b.LfbBounds) (hFits : ¬ b.Fits n) (hLfb : ¬ b.LfbInside) :
    ∃ k, ∀ f, b.kallocScan n (f + k) b.scanStart = some none := by
  rcases scan_outcome h n with ⟨w, k, hw, hWin, -⟩ | ⟨-, hInside | hRun⟩
  · exact absurd ⟨w, hw, hWin⟩ hFits
  · exact absurd hInside hLfb
  · exact hRun

/-- **Divergence.** Without one, and with `lfb` strictly inside a free run, the
scan runs forever: no round leads to `lfb`. -/
theorem scan_runs (h : b.LfbBounds) (hFits : ¬ b.Fits n) (hLfb : b.LfbInside) (f : Nat) :
    b.kallocScan n f b.scanStart = none := by
  have hPos := h.pos
  have hBelow := h.below
  have hAll : ∀ f x, x ≠ b.lfb → b.kallocScan n f x = none := by
    intro f
    induction f with
    | zero =>
      intro x _
      unfold kallocScan
      rfl
    | succ f ih =>
      intro x hx
      rcases round (n := n) hx (by omega) with ⟨hWin, -⟩ | ⟨z, -, hz, hStep, -, -, hEnd⟩
      · refine absurd ⟨b.wrap x, ?_, hWin⟩ hFits
        unfold wrap
        split <;> omega
      · rw [hStep f]
        refine ih z ?_
        rintro rfl
        rcases hEnd with hEnd | hEnd | hEnd
        · omega
        · exact hEnd hLfb.1
        · exact hEnd hLfb.2
  rw [h.scanStart]
  exact hAll f _ (by omega)

end Hexos.KernelHeapBlockBm
