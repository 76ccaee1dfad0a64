import Hexos.Heap.Scan
import Mathlib.Algebra.BigOperators.Group.List.Basic
import Mathlib.Algebra.GroupWithZero.Nat
import Mathlib.Data.Finset.Card
import Mathlib.Order.Interval.Finset.Nat

/-!
# HexOS — one block of the heap

`kfree` frees a maximal run of equal ids, so a block has to keep adjacent
allocations apart: the cell after an allocation never carries its id. The
invariant `BlockInv` of a block and the allocations in it says this, that
every used cell belongs to an allocation, and what `used` counts.

## Results

* `kheapGetNid_spec` — the id chosen differs from both neighbours.
* `BlockInv.take` — an allocation keeps the invariant.
* `BlockInv.release` — a free keeps it and clears the cells of the allocation.
* `BlockInv.storeByte` — a write to the cells keeps it.
-/

namespace Hexos

/-- The number of cells of an allocation. -/
def Alloc.cells (a : Alloc) : Nat := blocksFor a.size 16

/-- The cells of two allocations are apart. -/
def Alloc.Apart (a a' : Alloc) : Prop :=
  a.ptr + 16 * a.cells ≤ a'.ptr ∨ a'.ptr + 16 * a'.cells ≤ a.ptr

theorem Alloc.cells_bounds (a : Alloc) :
    a.size ≤ 16 * a.cells ∧ 16 * a.cells < a.size + 16 := by
  unfold Alloc.cells blocksFor
  split <;> omega

-- ---------------------------------------------------------------------------
-- The id of an allocation
-- ---------------------------------------------------------------------------

/-- **The id.** It is not 0 and it is not the id of a neighbour. -/
theorem kheapGetNid_spec (a b : UInt8) :
    kheapGetNid a b ≠ 0 ∧ kheapGetNid a b ≠ a ∧ kheapGetNid a b ≠ b := by
  -- of three consecutive values after `a` one is neither 0 nor `b`
  have hLt := a.toNat_lt
  have hLt' := b.toNat_lt
  have hRound : ∀ k c, nidLoop b (k + 1) c =
      if c = b ∨ c = 0 then nidLoop b k (c + 1) else c := fun _ _ => rfl
  unfold kheapGetNid
  rw [hRound]
  split
  · rw [hRound]
    split
    · rw [hRound]
      split
      · next h1 h2 h3 =>
        simp only [← UInt8.toNat_inj, UInt8.toNat_add, UInt8.toNat_one,
          UInt8.toNat_zero] at h1 h2 h3
        omega
      · next h3 =>
        simp only [← UInt8.toNat_inj, UInt8.toNat_add, UInt8.toNat_one, UInt8.toNat_zero,
          Ne] at h3 ⊢
        omega
    · next h2 =>
      simp only [← UInt8.toNat_inj, UInt8.toNat_add, UInt8.toNat_one, UInt8.toNat_zero,
        Ne] at h2 ⊢
      omega
  · next h1 =>
    simp only [← UInt8.toNat_inj, UInt8.toNat_add, UInt8.toNat_one, UInt8.toNat_zero,
      Ne] at h1 ⊢
    omega

-- ---------------------------------------------------------------------------
-- Filling and clearing cells
-- ---------------------------------------------------------------------------

theorem fill_in {bm : Nat → UInt8} {x n i : Nat} {v : UInt8} (hx : x ≤ i) (hi : i < x + n) :
    fill bm x n v i = v := if_pos ⟨hx, hi⟩

theorem fill_out {bm : Nat → UInt8} {x n i : Nat} {v : UInt8} (h : i < x ∨ x + n ≤ i) :
    fill bm x n v i = bm i := if_neg (by omega)

theorem fill_update_succ (bm : Nat → UInt8) (x n i : Nat) :
    fill (Function.update bm x 0) (x + 1) n 0 i = fill bm x (n + 1) 0 i := by
  by_cases hi : i = x
  · subst hi
    rw [fill_out (by omega), Function.update_self, fill_in (by omega) (by omega)]
  · unfold fill
    rw [Function.update_of_ne hi]
    by_cases hIn : x ≤ i ∧ i < x + (n + 1)
    · rw [if_pos hIn, if_pos (by omega)]
    · rw [if_neg hIn, if_neg (by omega)]

/-- `clearRun` zeroes exactly a run of cells with the same id. -/
theorem clearRun_eq {id : UInt8} {n : Nat} :
    ∀ {k x : Nat} {bm : Nat → UInt8},
      n ≤ k → (∀ i, x ≤ i → i < x + n → bm i = id) →
      (n < k → bm (x + n) ≠ id) → clearRun id k x bm = (fill bm x n 0, x + n) := by
  induction n with
  | zero =>
    intro k x bm _ _ hEnd
    have hFill : fill bm x 0 0 = bm := by
      funext i
      exact fill_out (by omega)
    cases k with
    | zero => simp [clearRun, hFill]
    | succ k =>
      have hStop : bm x ≠ id := by simpa using hEnd (by omega)
      simp [clearRun, hStop, hFill]
  | succ n ih =>
    intro k x bm hk hRun hEnd
    obtain ⟨k, rfl⟩ : ∃ k', k = k' + 1 := ⟨k - 1, by omega⟩
    have hNext : clearRun id k (x + 1) (Function.update bm x 0) =
        (fill (Function.update bm x 0) (x + 1) n 0, x + 1 + n) := ih (by omega)
      (fun i hi hin => by
        rw [Function.update_of_ne (by omega)]
        exact hRun i (by omega) (by omega))
      (fun hlt => by
        rw [Function.update_of_ne (by omega), show x + 1 + n = x + (n + 1) by omega]
        exact hEnd (by omega))
    rw [clearRun, if_pos (hRun x (by omega) (by omega)), hNext]
    have hFill : fill (Function.update bm x 0) (x + 1) n 0 = fill bm x (n + 1) 0 := by
      funext i
      exact fill_update_succ bm x n i
    rw [hFill, show x + 1 + n = x + (n + 1) by omega]

/-- The number of cells in use below `N`. -/
def usedCells (bm : Nat → UInt8) (N : Nat) : Nat :=
  ((Finset.range N).filter fun i => bm i ≠ 0).card

theorem usedCells_le (bm : Nat → UInt8) (N : Nat) : usedCells bm N ≤ N := by
  unfold usedCells
  exact (Finset.card_filter_le _ _).trans_eq (Finset.card_range N)

/-- Using the `n` free cells from `x` on adds `n` to the cells in use. -/
theorem usedCells_add {f g : Nat → UInt8} {x n N : Nat} (hN : x + n ≤ N)
    (hFree : ∀ i, x ≤ i → i < x + n → f i = 0)
    (hUsed : ∀ i, x ≤ i → i < x + n → g i ≠ 0)
    (hSame : ∀ i, i < x ∨ x + n ≤ i → g i = f i) :
    usedCells g N = usedCells f N + n := by
  have hUnion : (Finset.range N).filter (fun i => g i ≠ 0) =
      (Finset.range N).filter (fun i => f i ≠ 0) ∪ Finset.Ico x (x + n) := by
    ext i
    simp only [Finset.mem_filter, Finset.mem_range, Finset.mem_union, Finset.mem_Ico]
    by_cases hi : x ≤ i ∧ i < x + n
    · simp only [hUsed i hi.1 hi.2, hi, and_self, or_true, iff_true, ne_eq, not_false_eq_true,
        and_true]
      omega
    · simp only [hSame i (by omega), hi, or_false]
  have hDisjoint :
      Disjoint ((Finset.range N).filter fun i => f i ≠ 0) (Finset.Ico x (x + n)) := by
    rw [Finset.disjoint_left]
    intro i hi hIco
    rw [Finset.mem_Ico] at hIco
    exact (Finset.mem_filter.mp hi).2 (hFree i hIco.1 hIco.2)
  unfold usedCells
  rw [hUnion, Finset.card_union_of_disjoint hDisjoint, Nat.card_Ico]
  omega

-- ---------------------------------------------------------------------------
-- Pages
-- ---------------------------------------------------------------------------

/-- A block is a page of cells of 16 bytes. -/
structure KernelHeapBlockBm.IsPage (b : KernelHeapBlockBm) : Prop where
  aligned : pageSize ∣ b.addr
  addr    : 0 < b.addr ∧ b.addr < 2 ^ 32
  size    : b.size = 4076
  bsize   : b.bsize = 16
  used    : b.used < 2 ^ 32

namespace KernelHeapBlockBm.IsPage

variable {b c : KernelHeapBlockBm}

theorem bcnt (h : b.IsPage) : b.bcnt = 254 := by
  unfold KernelHeapBlockBm.bcnt
  rw [h.size, h.bsize]

theorem page_end (h : b.IsPage) : b.addr + 4096 ≤ 2 ^ 32 := by
  obtain ⟨k, hk⟩ := h.aligned
  have := h.addr
  simp only [pageSize] at hk
  omega

theorem owns_iff (h : b.IsPage) (p : Nat) : b.Owns p ↔ b.addr < p ∧ p < b.addr + 4076 := by
  have := h.page_end
  unfold KernelHeapBlockBm.Owns
  rw [h.size, Nat.mod_eq_of_lt (by omega)]

/-- Pages with different addresses do not own the same pointer. -/
theorem not_owns (hb : b.IsPage) (hc : c.IsPage) (hne : c.addr ≠ b.addr) {p : Nat}
    (hOwns : b.Owns p) :
    ¬ c.Owns p := by
  obtain ⟨k, hk⟩ := hb.aligned
  obtain ⟨l, hl⟩ := hc.aligned
  rw [hb.owns_iff] at hOwns
  rw [hc.owns_iff]
  simp only [pageSize] at hk hl
  omega

end KernelHeapBlockBm.IsPage

-- ---------------------------------------------------------------------------
-- The invariant of a block
-- ---------------------------------------------------------------------------

/-- The allocation `a` has the cells from `x` on, with an id of its own up to
the cell after it. -/
structure KernelHeapBlockBm.Holds (b : KernelHeapBlockBm) (a : Alloc) (x : Nat) : Prop where
  ptr   : a.ptr = b.addr + headerSize + 16 * x
  low   : 16 ≤ x
  high  : x + a.cells ≤ 254
  pos   : 1 ≤ a.cells
  cells : ∃ id ≠ 0, (∀ i, x ≤ i → i < x + a.cells → b.bm i = id) ∧
            (x + a.cells < 254 → b.bm (x + a.cells) ≠ id)

/-- A 4096-byte block with the allocations `as`. -/
structure BlockInv (b : KernelHeapBlockBm) (as : List Alloc) : Prop where
  aligned  : pageSize ∣ b.addr
  addr     : 0 < b.addr ∧ b.addr < 2 ^ 32
  size     : b.size = 4076
  bsize    : b.bsize = 16
  lfb      : 15 ≤ b.lfb ∧ b.lfb ≤ 252
  reserved : ∀ i < 16, b.bm i ≠ 0
  holds    : ∀ a ∈ as, ∃ x, b.Holds a x
  apart    : as.Pairwise Alloc.Apart
  covered  : ∀ i, 16 ≤ i → i < 254 → b.bm i ≠ 0 →
               ∃ a ∈ as, ∃ x, b.Holds a x ∧ x ≤ i ∧ i < x + a.cells
  sum      : b.used = 16 + (as.map Alloc.cells).sum
  count    : b.used = usedCells b.bm 254

namespace BlockInv

variable {b : KernelHeapBlockBm} {as : List Alloc}

theorem used_le (h : BlockInv b as) : b.used ≤ 254 := by
  rw [h.count]
  exact usedCells_le _ _

theorem isPage (h : BlockInv b as) : b.IsPage := by
  have hUsed := h.used_le
  exact ⟨h.aligned, h.addr, h.size, h.bsize, by omega⟩

theorem bcnt (h : BlockInv b as) : b.bcnt = 254 := h.isPage.bcnt

theorem page_end (h : BlockInv b as) : b.addr + 4096 ≤ 2 ^ 32 := h.isPage.page_end

theorem lfbBounds (h : BlockInv b as) : b.LfbBounds := by
  have hBcnt := h.bcnt
  have hLfb := h.lfb
  exact ⟨by omega, by omega, by omega⟩

/-- The order of the allocations does not matter. -/
theorem perm {bs : List Alloc} (h : BlockInv b as) (hPerm : as.Perm bs) : BlockInv b bs := by
  have hSymm : ∀ {a a' : Alloc}, a.Apart a' → a'.Apart a := fun h => h.symm
  refine ⟨h.aligned, h.addr, h.size, h.bsize, h.lfb, h.reserved, ?_, ?_, ?_, ?_, h.count⟩
  · intro a ha
    exact h.holds a (hPerm.mem_iff.mpr ha)
  · exact (hPerm.pairwise_iff hSymm).mp h.apart
  · intro i hi hi' hUsed
    obtain ⟨a, ha, x, hx⟩ := h.covered i hi hi' hUsed
    exact ⟨a, hPerm.mem_iff.mp ha, x, hx⟩
  · rw [h.sum, (hPerm.map Alloc.cells).sum_eq]

/-- An allocation of a block is in its page, after the bitmap. -/
theorem in_page {a : Alloc} {x : Nat} (hx : b.Holds a x) :
    b.addr + 276 ≤ a.ptr ∧ a.ptr + 16 * a.cells ≤ b.addr + 4084 := by
  have := hx.ptr
  have := hx.low
  have := hx.high
  simp only [headerSize] at *
  omega

theorem owns_iff (h : BlockInv b as) (p : Nat) : b.Owns p ↔ b.addr < p ∧ p < b.addr + 4076 :=
  h.isPage.owns_iff p

theorem owns (h : BlockInv b as) {a : Alloc} {x : Nat} (hx : b.Holds a x) : b.Owns a.ptr := by
  have := hx.ptr
  have := hx.high
  have := hx.pos
  rw [h.owns_iff]
  simp only [headerSize] at *
  omega

-- ---------------------------------------------------------------------------
-- kalloc
-- ---------------------------------------------------------------------------

/-- A window lies behind the cells reserved for the bitmap. -/
theorem window_low (h : BlockInv b as) {n w : Nat} (hn : 1 ≤ n) (hw : b.Window n w) :
    16 ≤ w := by
  by_contra hc
  exact h.reserved w (by omega) (hw.2 w (le_refl w) (by omega))

/-- An allocation and a window are apart. -/
theorem holds_window {a : Alloc} {x n w : Nat} (hx : b.Holds a x) (hn : 1 ≤ n)
    (hw : b.Window n w) : x + a.cells ≤ w ∨ w + n ≤ x := by
  obtain ⟨id, hid, hCells, -⟩ := hx.cells
  have hPos := hx.pos
  by_contra hc
  -- the larger of the two first cells would be both free and used
  rcases Nat.le_total x w with hle | hle
  · exact hid (((hCells w hle (by omega)).symm).trans (hw.2 w (le_refl w) (by omega)))
  · exact hid (((hCells x (le_refl x) (by omega)).symm).trans (hw.2 x hle (by omega)))

/-- The cells of a window get an id that is neither 0 nor that of a neighbour. -/
theorem take_bm {w n : Nat} (hLow : 1 ≤ w) :
    ∃ nid, (b.take w n).bm = fill b.bm w n nid ∧ nid ≠ 0 ∧ nid ≠ b.bm (w - 1) ∧
      nid ≠ b.bm (w + n) := by
  obtain ⟨hNid, hLeft, hRight⟩ := kheapGetNid_spec (b.leftOf w) (b.bm (w + n))
  have hLeftOf : b.leftOf w = b.bm (w - 1) := if_neg (by omega)
  exact ⟨_, rfl, hNid, hLeftOf ▸ hLeft, hRight⟩

/-- An allocation of the block keeps its cells, and the cell after it differs still. -/
theorem holds_take {a : Alloc} {x w n : Nat} (hx : b.Holds a x) (hn : 1 ≤ n) (hLow : 1 ≤ w)
    (hApart : x + a.cells ≤ w ∨ w + n ≤ x) : (b.take w n).Holds a x := by
  obtain ⟨nid, hBm, -, hLeft, -⟩ := take_bm (b := b) (n := n) hLow
  obtain ⟨id, hid, hCells, hAfter⟩ := hx.cells
  refine ⟨hx.ptr, hx.low, hx.high, hx.pos, id, hid, ?_, ?_⟩
  · intro i hi hin
    rw [hBm, fill_out (by omega)]
    exact hCells i hi hin
  · intro hlt
    rw [hBm]
    by_cases hAdj : x + a.cells = w
    · have := hx.pos
      rw [fill_in (by omega) (by omega), ← hCells (w - 1) (by omega) (by omega)]
      exact hLeft
    · rw [fill_out (by omega)]
      exact hAfter hlt

/-- The new allocation. -/
theorem holds_take_self {a : Alloc} {w : Nat} (hPos : 1 ≤ a.cells) (hLow : 16 ≤ w)
    (hHigh : w + a.cells ≤ 254) (hAddr : a.ptr = b.addr + headerSize + 16 * w) :
    (b.take w a.cells).Holds a w := by
  obtain ⟨nid, hBm, hNid, -, hRight⟩ := take_bm (b := b) (w := w) (n := a.cells) (by omega)
  refine ⟨hAddr, hLow, hHigh, hPos, nid, hNid, ?_, ?_⟩
  · intro i hi hin
    rw [hBm, fill_in hi hin]
  · intro _
    rw [hBm, fill_out (by omega)]
    exact hRight.symm

/-- **Allocation.** Taking the cells of a window keeps the invariant, with one
allocation more. -/
theorem take (h : BlockInv b as) {a : Alloc} {w : Nat} (hPos : 1 ≤ a.cells)
    (hw : b.Window a.cells w) (hPtr : a.ptr = b.cellAddr w) :
    BlockInv (b.take w a.cells) (a :: as) ∧ (b.take w a.cells).Holds a w := by
  have hLow := h.window_low hPos hw
  have hHigh : w + a.cells ≤ 254 := by
    have := hw.1
    rwa [h.bcnt] at this
  have hUsed := h.used_le
  have hEnd := h.page_end
  have hAddr : a.ptr = b.addr + headerSize + 16 * w := by
    rw [hPtr, KernelHeapBlockBm.cellAddr, h.bsize,
      Nat.mod_eq_of_lt (by simp only [headerSize]; omega)]
    omega
  have hNew := holds_take_self hPos hLow hHigh hAddr
  have hOld : ∀ a' x, b.Holds a' x → (b.take w a.cells).Holds a' x := fun a' x hx =>
    holds_take hx hPos (by omega) (holds_window hx hPos hw)
  obtain ⟨nid, hBm, hNid, -, -⟩ := take_bm (b := b) (w := w) (n := a.cells) (by omega)
  have hUsedEq : (b.take w a.cells).used = b.used + a.cells := Nat.mod_eq_of_lt (by omega)
  have hLfbEq : (b.take w a.cells).lfb = w + a.cells - 2 := by
    show (w + a.cells + 2 ^ 32 - 2) % 2 ^ 32 = w + a.cells - 2
    omega
  refine ⟨⟨h.aligned, h.addr, h.size, h.bsize, by omega, ?_, ?_, ?_, ?_, ?_, ?_⟩, hNew⟩
  · intro i hi
    rw [hBm, fill_out (by omega)]
    exact h.reserved i hi
  · intro a' ha'
    rcases List.mem_cons.mp ha' with rfl | ha'
    · exact ⟨w, hNew⟩
    · obtain ⟨x, hx⟩ := h.holds a' ha'
      exact ⟨x, hOld a' x hx⟩
  · refine List.pairwise_cons.mpr ⟨?_, h.apart⟩
    intro a' ha'
    obtain ⟨x, hx⟩ := h.holds a' ha'
    have hApart := holds_window hx hPos hw
    have hx' := hx.ptr
    unfold Alloc.Apart
    omega
  · intro i hi hi' hUsedCell
    by_cases hIn : w ≤ i ∧ i < w + a.cells
    · exact ⟨a, List.mem_cons_self, w, hNew, hIn⟩
    · rw [hBm, fill_out (by omega)] at hUsedCell
      obtain ⟨a', ha', x, hx, hxi⟩ := h.covered i hi hi' hUsedCell
      exact ⟨a', List.mem_cons_of_mem a ha', x, hOld a' x hx, hxi⟩
  · rw [hUsedEq, h.sum, List.map_cons, List.sum_cons]
    omega
  · rw [hUsedEq, h.count]
    refine (usedCells_add hHigh hw.2 ?_ ?_).symm
    · intro i hi hin
      rw [hBm, fill_in hi hin]
      exact hNid
    · intro i hi
      rw [hBm, fill_out hi]

-- ---------------------------------------------------------------------------
-- kfree
-- ---------------------------------------------------------------------------

/-- `kfree` clears the cells of the allocation and no other cell. -/
theorem release_spec (h : BlockInv b as) {a : Alloc} {x : Nat} (hx : b.Holds a x)
    (hUsed : a.cells ≤ b.used) :
    (b.release a.ptr).addr = b.addr ∧ (b.release a.ptr).size = b.size ∧
      (b.release a.ptr).bsize = b.bsize ∧ (b.release a.ptr).lfb = b.lfb ∧
      (b.release a.ptr).bm = fill b.bm x a.cells 0 ∧
      (b.release a.ptr).used = b.used - a.cells := by
  obtain ⟨id, hid, hCells, hAfter⟩ := hx.cells
  have hPos := hx.pos
  have hHigh := hx.high
  have hEnd := h.page_end
  have hIndex : b.cellIndex a.ptr = x := by
    unfold KernelHeapBlockBm.cellIndex
    rw [hx.ptr, h.bsize]
    simp only [headerSize]
    omega
  have hRun : clearRun (b.bm x) (b.bcnt - x) x b.bm = (fill b.bm x a.cells 0, x + a.cells) := by
    rw [h.bcnt, hCells x (le_refl x) (by omega)]
    exact clearRun_eq (by omega) hCells (fun hlt => hAfter (by omega))
  have hMod : (b.used + 2 ^ 32 - (x + a.cells - x)) % 2 ^ 32 = b.used - a.cells := by
    have := h.used_le
    omega
  unfold KernelHeapBlockBm.release
  rw [hIndex]
  unfold KernelHeapBlockBm.releaseCell
  rw [hRun]
  exact ⟨rfl, rfl, rfl, rfl, rfl, hMod⟩

theorem cells_le_used {a : Alloc} (h : BlockInv b (a :: as)) : a.cells ≤ b.used := by
  have hSum := h.sum
  rw [List.map_cons, List.sum_cons] at hSum
  omega

/-- **Free.** Releasing an allocation keeps the invariant, with one allocation
less. -/
theorem release {a : Alloc} (h : BlockInv b (a :: as)) : BlockInv (b.release a.ptr) as := by
  obtain ⟨x, hx⟩ := h.holds a List.mem_cons_self
  obtain ⟨hApart, hRest⟩ := List.pairwise_cons.mp h.apart
  obtain ⟨id, hid, hCells, hAfter⟩ := hx.cells
  have hLow := hx.low
  have hHigh := hx.high
  have hSum := h.sum
  rw [List.map_cons, List.sum_cons] at hSum
  obtain ⟨hAddr, hSize, hBsize, hLfb, hBm, hUsed⟩ := h.release_spec hx h.cells_le_used
  -- the other allocations keep their cells; the cell after one may become 0
  have hOld : ∀ a' ∈ as, ∀ y, b.Holds a' y → (b.release a.ptr).Holds a' y := by
    intro a' ha' y hy
    have hDisjoint : x + a.cells ≤ y ∨ y + a'.cells ≤ x := by
      have hFar := hApart a' ha'
      have hx' := hx.ptr
      have hy' := hy.ptr
      unfold Alloc.Apart at hFar
      omega
    obtain ⟨id', hid', hCells', hAfter'⟩ := hy.cells
    refine ⟨by rw [hAddr]; exact hy.ptr, hy.low, hy.high, hy.pos, id', hid', ?_, ?_⟩
    · intro i hi hin
      rw [hBm, fill_out (by omega)]
      exact hCells' i hi hin
    · intro hlt
      rw [hBm]
      by_cases hIn : x ≤ y + a'.cells ∧ y + a'.cells < x + a.cells
      · rw [fill_in hIn.1 hIn.2]
        exact hid'.symm
      · rw [fill_out (by omega)]
        exact hAfter' hlt
  refine ⟨by rw [hAddr]; exact h.aligned, by rw [hAddr]; exact h.addr,
    by rw [hSize]; exact h.size, by rw [hBsize]; exact h.bsize, by rw [hLfb]; exact h.lfb,
    ?_, ?_, hRest, ?_, ?_, ?_⟩
  · intro i hi
    rw [hBm, fill_out (by omega)]
    exact h.reserved i hi
  · intro a' ha'
    obtain ⟨y, hy⟩ := h.holds a' (List.mem_cons_of_mem a ha')
    exact ⟨y, hOld a' ha' y hy⟩
  · intro i hi hi' hUsedCell
    rw [hBm] at hUsedCell
    by_cases hIn : x ≤ i ∧ i < x + a.cells
    · exact absurd (fill_in hIn.1 hIn.2) hUsedCell
    · rw [fill_out (by omega)] at hUsedCell
      obtain ⟨a', ha', y, hy, hyi⟩ := h.covered i hi hi' hUsedCell
      rcases List.mem_cons.mp ha' with rfl | ha'
      · have hyx : y = x := by
          have := hx.ptr
          have := hy.ptr
          omega
        omega
      · exact ⟨a', ha', y, hOld a' ha' y hy, hyi⟩
  · rw [hUsed]
    omega
  · have hCount : usedCells b.bm 254 = usedCells (fill b.bm x a.cells 0) 254 + a.cells :=
      usedCells_add hHigh (fun i hi hin => fill_in hi hin)
        (fun i hi hin => by rw [hCells i hi hin]; exact hid) (fun i hi => (fill_out hi).symm)
    have hTotal := h.count
    rw [hUsed, hBm]
    omega

-- ---------------------------------------------------------------------------
-- Writes of clients
-- ---------------------------------------------------------------------------

/-- The invariant is about the header and the cells below 254. -/
theorem congr {b' : KernelHeapBlockBm} (h : BlockInv b as) (hAddr : b'.addr = b.addr)
    (hSize : b'.size = b.size) (hBsize : b'.bsize = b.bsize) (hLfb : b'.lfb = b.lfb)
    (hUsed : b'.used = b.used) (hBm : ∀ i < 254, b'.bm i = b.bm i) : BlockInv b' as := by
  have hHolds : ∀ a x, b.Holds a x → b'.Holds a x := by
    intro a x hx
    have hHigh := hx.high
    obtain ⟨id, hid, hCells, hAfter⟩ := hx.cells
    refine ⟨by rw [hAddr]; exact hx.ptr, hx.low, hHigh, hx.pos, id, hid, ?_, ?_⟩
    · intro i hi hin
      rw [hBm i (by omega)]
      exact hCells i hi hin
    · intro hlt
      rw [hBm _ hlt]
      exact hAfter hlt
  refine ⟨by rw [hAddr]; exact h.aligned, by rw [hAddr]; exact h.addr,
    by rw [hSize]; exact h.size, by rw [hBsize]; exact h.bsize, by rw [hLfb]; exact h.lfb,
    ?_, ?_, h.apart, ?_, by rw [hUsed]; exact h.sum, ?_⟩
  · intro i hi
    rw [hBm i (by omega)]
    exact h.reserved i hi
  · intro a ha
    obtain ⟨x, hx⟩ := h.holds a ha
    exact ⟨x, hHolds a x hx⟩
  · intro i hi hi' hUsedCell
    rw [hBm i hi'] at hUsedCell
    obtain ⟨a, ha, x, hx, hxi⟩ := h.covered i hi hi' hUsedCell
    exact ⟨a, ha, x, hHolds a x hx, hxi⟩
  · rw [hUsed, h.count]
    unfold usedCells
    congr 1
    refine Finset.filter_congr ?_
    intro i hi
    rw [hBm i (Finset.mem_range.mp hi)]

/-- **Write.** A write behind the bitmap keeps the invariant. -/
theorem storeByte (h : BlockInv b as) {p : Nat} {v : UInt8}
    (hp : p < b.addr + headerSize ∨ b.addr + 276 ≤ p) : BlockInv (b.storeByte p v) as := by
  unfold KernelHeapBlockBm.storeByte
  split
  · next hIn =>
    refine h.congr rfl rfl rfl rfl rfl ?_
    intro i hi
    refine Function.update_of_ne ?_ _ _
    simp only [headerSize] at hIn hp ⊢
    omega
  · exact h

end BlockInv

end Hexos
