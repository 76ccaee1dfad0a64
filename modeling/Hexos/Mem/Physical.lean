import Hexos.Lib.Memory
import Hexos.Mem.Pages

/-!
# HexOS — the page allocator in memory

`kernel/kernel/mem.c` on bytes: the freemap is an array of words in the memory
that the allocator hands out, the boot loader's memory map is read from memory,
and a page that is asked for zero-filled is written byte for byte. Reading the
words of the freemap gives the page allocator on cells.

## Results

* `MemVars.toPageMem_memoryAllocPage`, `MemVars.toPageMem_memoryFreePage` — the
  allocator on bytes refines the allocator on cells.
* `MemVars.memoryAllocPage_takes` — an allocation takes a free page.
* `MemVars.memoryAllocPage_frame`, `MemVars.memoryFreePage_frame` — what a call
  leaves alone.
-/

namespace Hexos

open Transition

-- ---------------------------------------------------------------------------
-- The variables and the allocator
-- ---------------------------------------------------------------------------

/-- The static variables of `mem.c`. -/
structure MemVars where
  usableMemorySize : Nat
  totalMemorySize  : Nat
  pagesFree        : Nat
  pagesTotal       : Nat
  freemap          : Nat
  freemapBits      : Nat
  freemapBytes     : Nat
  freemapCells     : Nat
  freemapPages     : Nat
  deriving DecidableEq, Repr

namespace MemVars

/-- Their values in the loaded image. -/
def start : MemVars := ⟨0, 0, 0, 0, 0, 0, 0, 0, 0⟩

/-- `freemap[c]`. -/
def cell (g : MemVars) (m : Mem) (c : Nat) : BitVec 32 :=
  BitVec.ofNat 32 (m.load32 (g.freemap + 4 * c))

/-- `freemap[c] = v`. -/
def setCell (g : MemVars) (m : Mem) (c : Nat) (v : BitVec 32) : Mem :=
  m.store32 (g.freemap + 4 * c) v.toNat

/-- `memory_alloc_page`. -/
def memoryAllocPage (g : MemVars) (m : Mem) (zeroit : Bool) : Outcome (Nat × MemVars × Mem) :=
  if g.freemap = 0 then .done (0, g, m)
  else
    match PageMem.scanCells (g.cell m) g.freemapCells 0 with
    | none => .panic "memory_alloc_page: Out of memory!"
    | some (i, j) =>
      let cellmask := 1#32 <<< j
      let m := g.setCell m i (g.cell m i &&& ~~~cellmask)
      let pagenumber := (i * cellBits + j) % 2 ^ 32
      let pageaddr := (pagenumber * pageSize % 2 ^ 32 + allocMemoryStart) % 2 ^ 32
      let m := if zeroit then m.copyIn pageaddr pageSize (fun _ => 0) else m
      .done (pageaddr, { g with pagesFree := (g.pagesFree + 2 ^ 32 - 1) % 2 ^ 32 }, m)

/-- `memory_free_page`. -/
def memoryFreePage (g : MemVars) (m : Mem) (pageaddr : Nat) : MemVars × Mem :=
  let pagenumber := PageMem.pageNumberOf pageaddr
  let cellnumber := pagenumber / cellBits
  let celloffset := pagenumber % cellBits
  let cellmask := 1#32 <<< celloffset
  ({ g with pagesFree := (g.pagesFree + 1) % 2 ^ 32 },
    g.setCell m cellnumber (g.cell m cellnumber ||| cellmask))

-- ---------------------------------------------------------------------------
-- Start-up
-- ---------------------------------------------------------------------------

/-- The loop of `mem_check_avail` from the map entry at `mmap` on: the sizes
are added up in 32 bits. The texts it prints are left out. -/
def checkEntries (m : Mem) (stop : Nat) : Nat → Nat → MemVars → Outcome MemVars
  | 0, _, _ => .running
  | fuel + 1, mmap, g =>
    if mmap < stop then
      let length := m.load32 (mmap + 12) + 2 ^ 32 * m.load32 (mmap + 16)
      let g :=
        if m.load32 (mmap + 20) = 1 then
          { g with usableMemorySize := (g.usableMemorySize + length) % 2 ^ 32 }
        else g
      let g := { g with totalMemorySize := (g.totalMemorySize + length) % 2 ^ 32 }
      checkEntries m stop fuel ((mmap + m.load32 mmap + 4) % 2 ^ 32) g
    else .done g

/-- `mem_check_avail`; it returns `true` whenever it returns. -/
def memCheckAvail (g : MemVars) (m : Mem) (mbInfo fuel : Nat) : Outcome MemVars :=
  let mmapLength := m.load32 (mbInfo + 44)
  let mmapAddr := m.load32 (mbInfo + 48)
  checkEntries m ((mmapAddr + mmapLength) % 2 ^ 32) fuel mmapAddr g

/-- The assignments of `mem_init` to its variables. -/
def sized (g : MemVars) : MemVars :=
  let pagesTotal := g.usableMemorySize * 1024 % 2 ^ 32 / (pageSize / 1024)
  let freemapBits := pagesTotal
  let freemapBytes := 1 + freemapBits / 8
  { g with
    pagesTotal := pagesTotal
    pagesFree := pagesTotal
    freemap := allocMemoryStart
    freemapBits := freemapBits
    freemapBytes := freemapBytes
    freemapCells := 1 + freemapBits / cellBits
    freemapPages := 1 + freemapBytes / pageSize }

/-- `mem_init`, with the bound on the rounds of the loop in `mem_check_avail`. -/
def memInit (g : MemVars) (m : Mem) (mbInfo fuel : Nat) : Outcome (MemVars × Mem) :=
  (g.memCheckAvail m mbInfo fuel).map fun g => (g.sized, g.sized.setCell m 0 0)

-- ---------------------------------------------------------------------------
-- The freemap as cells
-- ---------------------------------------------------------------------------

/-- The allocator on cells. -/
def toPageMem (g : MemVars) (m : Mem) : PageMem :=
  ⟨g.freemap, g.cell m, g.freemapCells, g.pagesFree⟩

variable {g g' : MemVars} {m m' : Mem} {p : Nat} {zeroit : Bool}

theorem cell_setCell (g : MemVars) (m : Mem) (c : Nat) (v : BitVec 32) :
    g.cell (g.setCell m c v) = Function.update (g.cell m) c v := by
  funext k
  by_cases hk : k = c
  · subst hk
    rw [Function.update_self, cell, setCell, Mem.load32_store32 v.isLt, BitVec.ofNat_toNat,
      BitVec.setWidth_eq]
  · rw [Function.update_of_ne hk, cell, setCell, Mem.load32_store32_other (by omega), cell]

/-- The cells depend on the place of the freemap only. -/
theorem cell_congr (h : g'.freemap = g.freemap) (m : Mem) : g'.cell m = g.cell m := by
  funext c
  rw [cell, cell, h]

theorem bit_congr (h : g'.freemap = g.freemap) (m : Mem) (k : Nat) :
    (g'.toPageMem m).bit k = (g.toPageMem m).bit k :=
  PageMem.bit_congr (cell_congr h m) k

/-- Zeroing a page zeroes the cells in it. -/
theorem cell_zeroPage (hAligned : g.freemap % 4 = 0) (pageaddr : Nat) (hPage : pageaddr % 4 = 0) :
    g.cell (m.copyIn pageaddr pageSize fun _ => 0) = fun c =>
      if pageaddr ≤ g.freemap + 4 * c ∧ g.freemap + 4 * c < pageaddr + pageSize then 0
      else g.cell m c := by
  funext c
  by_cases hIn : pageaddr ≤ g.freemap + 4 * c ∧ g.freemap + 4 * c < pageaddr + pageSize
  · rw [if_pos hIn]
    obtain ⟨k, hk⟩ := Nat.exists_eq_add_of_le hIn.1
    rw [cell, hk, Mem.load32_copyIn (by simp only [pageSize] at hIn ⊢; omega)]
    rfl
  · rw [if_neg hIn]
    have hSame :=
      (Mem.copyIn_sameOff m pageaddr pageSize fun _ => 0).sameOn (k := g.freemap + 4 * c)
      (l := 4) (by simp only [pageSize] at hIn ⊢; omega)
    rw [cell, hSame.load32, cell]

theorem pageaddr_aligned (i j : Nat) :
    (((i * cellBits + j) % 2 ^ 32 * pageSize % 2 ^ 32 + allocMemoryStart) % 2 ^ 32) % 4096 = 0 := by
  simp only [pageSize, allocMemoryStart]
  omega

/-- **Refinement.** `memory_alloc_page` on bytes is `memory_alloc_page` on
cells. -/
theorem toPageMem_memoryAllocPage (m : Mem) (zeroit : Bool) (hAligned : g.freemap % 4 = 0) :
    (g.memoryAllocPage m zeroit).map (fun r => (r.1, r.2.1.toPageMem r.2.2)) =
      (g.toPageMem m).memoryAllocPage zeroit := by
  rw [memoryAllocPage, PageMem.memoryAllocPage]
  by_cases hFreemap : g.freemap = 0
  · rw [if_pos hFreemap, if_pos (show (g.toPageMem m).freemap = 0 from hFreemap), Outcome.map_done]
  rw [if_neg hFreemap, if_neg (show (g.toPageMem m).freemap ≠ 0 from hFreemap)]
  simp only [show (g.toPageMem m).cells = g.cell m from rfl,
    show (g.toPageMem m).freemapCells = g.freemapCells from rfl]
  cases PageMem.scanCells (g.cell m) g.freemapCells 0 with
  | none => rfl
  | some ij =>
    obtain ⟨i, j⟩ := ij
    simp only [Outcome.map_done, Outcome.done.injEq, Prod.mk.injEq, true_and]
    have hPage := pageaddr_aligned i j
    generalize hp :
      ((i * cellBits + j) % 2 ^ 32 * pageSize % 2 ^ 32 + allocMemoryStart) % 2 ^ 32 = p at hPage ⊢
    have hCells := cell_setCell g m i (g.cell m i &&& ~~~(1#32 <<< j))
    cases zeroit with
    | false =>
      simp only [toPageMem, Bool.false_eq_true, if_false, PageMem.mk.injEq, true_and, and_true]
      rw [cell_congr (g := g) (by rfl)]
      exact hCells
    | true =>
      simp only [if_true, toPageMem, PageMem.zeroPage, PageMem.mk.injEq, true_and, and_true]
      rw [cell_congr (g := g) (by rfl), ← hCells]
      exact cell_zeroPage hAligned p (by omega)

/-- **Refinement.** `memory_free_page` on bytes is `memory_free_page` on cells. -/
theorem toPageMem_memoryFreePage (g : MemVars) (m : Mem) (pageaddr : Nat) :
    (g.memoryFreePage m pageaddr).1.toPageMem (g.memoryFreePage m pageaddr).2 =
      (g.toPageMem m).memoryFreePage pageaddr := by
  simp only [memoryFreePage, PageMem.memoryFreePage, toPageMem, PageMem.mk.injEq,
    true_and, and_true]
  exact (cell_congr rfl _).trans (cell_setCell g m _ _)

-- ---------------------------------------------------------------------------
-- Frames
-- ---------------------------------------------------------------------------

/-- The freemap array. -/
def InFreemap (g : MemVars) (a : Nat) : Prop :=
  g.freemap ≤ a ∧ a < g.freemap + 4 * g.freemapCells

/-- The call in parts: the cell it changes, the page it returns and the memory
it leaves. -/
theorem memoryAllocPage_done (hFreemap : g.freemap ≠ 0)
    (h : g.memoryAllocPage m zeroit = .done (p, g', m')) :
    ∃ i j, PageMem.scanCells (g.cell m) g.freemapCells 0 = some (i, j) ∧
      p = ((i * cellBits + j) % 2 ^ 32 * pageSize % 2 ^ 32 + allocMemoryStart) % 2 ^ 32 ∧
      g' = { g with pagesFree := (g.pagesFree + 2 ^ 32 - 1) % 2 ^ 32 } ∧
      m' = if zeroit then
          (g.setCell m i (g.cell m i &&& ~~~(1#32 <<< j))).copyIn p pageSize (fun _ => 0)
        else g.setCell m i (g.cell m i &&& ~~~(1#32 <<< j)) := by
  rw [memoryAllocPage, if_neg hFreemap] at h
  cases hScan : PageMem.scanCells (g.cell m) g.freemapCells 0 with
  | none => simp only [hScan, reduceCtorEq] at h
  | some ij =>
    obtain ⟨i, j⟩ := ij
    simp only [hScan, Outcome.done.injEq, Prod.mk.injEq] at h
    obtain ⟨rfl, rfl, rfl⟩ := h
    exact ⟨i, j, rfl, rfl, rfl, rfl⟩

/-- No call changes the place or the size of the freemap. -/
theorem memoryAllocPage_freemap (h : g.memoryAllocPage m zeroit = .done (p, g', m')) :
    g'.freemap = g.freemap ∧ g'.freemapCells = g.freemapCells := by
  by_cases hFreemap : g.freemap = 0
  · rw [memoryAllocPage, if_pos hFreemap] at h
    obtain ⟨-, rfl, -⟩ : 0 = p ∧ g = g' ∧ m = m' := by simpa using h
    exact ⟨rfl, rfl⟩
  · obtain ⟨i, j, -, -, rfl, -⟩ := memoryAllocPage_done hFreemap h
    exact ⟨rfl, rfl⟩

theorem memoryFreePage_freemap (g : MemVars) (m : Mem) (pageaddr : Nat) :
    (g.memoryFreePage m pageaddr).1.freemap = g.freemap ∧
      (g.memoryFreePage m pageaddr).1.freemapCells = g.freemapCells := by
  simp only [memoryFreePage, and_self]

/-- **One allocation.** The page returned had its bit set; the bit is clear
afterwards, and no other bit is set by the call. -/
theorem memoryAllocPage_takes (hFreemap : g.freemap ≠ 0) (hAligned : g.freemap % 4 = 0)
    (h : g.memoryAllocPage m zeroit = .done (p, g', m')) :
    ∃ n < (g.toPageMem m).pages, p =
      (n % 2 ^ 32 * pageSize % 2 ^ 32 + allocMemoryStart) % 2 ^ 32 ∧
      (g.toPageMem m).bit n = true ∧ (g'.toPageMem m').bit n = false ∧
      ∀ k, (g'.toPageMem m').bit k = true → (g.toPageMem m).bit k = true := by
  obtain ⟨i, j, hScan, hp, rfl, rfl⟩ := memoryAllocPage_done hFreemap h
  obtain ⟨hi, hj, hBit, -⟩ := PageMem.scanCells_some (m := g.toPageMem m) hScan
  simp only [cellBits] at hBit
  let c := g.setCell m i (g.cell m i &&& ~~~(1#32 <<< j))
  have hCleared : ∀ k, (g.toPageMem c).bit k =
      ((g.toPageMem m).bit k && decide (k ≠ i * 32 + j)) :=
    fun k => PageMem.bit_clear (m := g.toPageMem m) hj (cell_setCell g m i _) k
  -- zeroing the page clears further bits at most
  have hZeroed :
      ∀ k, (g.toPageMem (if zeroit then c.copyIn p pageSize fun _ => 0 else c)).bit k = true →
      (g.toPageMem c).bit k = true := by
    intro k hk
    cases zeroit with
    | false => exact hk
    | true =>
      have hPage := pageaddr_aligned i j
      rw [← hp] at hPage
      have hZero := congrFun (cell_zeroPage (g := g) (m := c) hAligned p (by omega)) (k / cellBits)
      simp only [PageMem.bit, toPageMem, if_true, hZero] at hk ⊢
      split at hk
      · simp at hk
      · exact hk
  refine ⟨i * 32 + j, ?_, hp, hBit, ?_, ?_⟩
  · simp only [PageMem.pages, toPageMem, cellBits]
    omega
  · rw [bit_congr (g := g) (by rfl), Bool.eq_false_iff]
    intro hk
    have := hZeroed _ hk
    rw [hCleared] at this
    simp at this
  · intro k hk
    rw [bit_congr (g := g) (by rfl)] at hk
    have := hZeroed k hk
    rw [hCleared, Bool.and_eq_true] at this
    exact this.1

/-- **Progress.** With a free page the allocator does not panic. -/
theorem memoryAllocPage_returns (hFreemap : g.freemap ≠ 0) {n : Nat}
    (hn : n < (g.toPageMem m).pages) (hBit : (g.toPageMem m).bit n = true) (zeroit : Bool) :
    ∃ p g' m', g.memoryAllocPage m zeroit = .done (p, g', m') := by
  rw [memoryAllocPage, if_neg hFreemap]
  split
  · next hScan =>
    rw [PageMem.scanCells_none (m := g.toPageMem m) hScan n (by omega)
      (by simpa [PageMem.pages, toPageMem] using hn)] at hBit
    cases hBit
  · exact ⟨_, _, _, rfl⟩

/-- **Frame.** A byte outside the freemap and outside the page returned keeps
its value. -/
theorem memoryAllocPage_frame (h : g.memoryAllocPage m zeroit = .done (p, g', m')) {a : Nat}
    (hMap : ¬ g.InFreemap a) (hPage : a < p ∨ p + pageSize ≤ a) : m' a = m a := by
  by_cases hFreemap : g.freemap = 0
  · rw [memoryAllocPage, if_pos hFreemap] at h
    obtain ⟨-, -, rfl⟩ : 0 = p ∧ g = g' ∧ m = m' := by simpa using h
    rfl
  · obtain ⟨i, j, hScan, -, -, rfl⟩ := memoryAllocPage_done hFreemap h
    obtain ⟨hi, -⟩ := PageMem.scanCells_some (m := g.toPageMem m) hScan
    unfold InFreemap at hMap
    have hCell : g.setCell m i (g.cell m i &&& ~~~(1#32 <<< j)) a = m a := by
      refine Mem.store32_other ?_
      omega
    cases zeroit with
    | false => exact hCell
    | true =>
      rw [if_pos rfl]
      exact (Mem.copyIn_sameOff _ p pageSize _ a hPage).trans hCell

/-- The page returned is zero-filled when this was asked for. -/
theorem memoryAllocPage_zeroed (hFreemap : g.freemap ≠ 0)
    (h : g.memoryAllocPage m true = .done (p, g', m')) {k : Nat} (hk : k < pageSize) :
    m' (p + k) = 0 := by
  obtain ⟨i, j, -, -, -, rfl⟩ := memoryAllocPage_done hFreemap h
  rw [if_pos rfl]
  exact Mem.copyIn_in hk

/-- **Frame.** The free of a page with a freemap bit changes the freemap only. -/
theorem memoryFreePage_frame (hNumber : PageMem.pageNumberOf p < (g.toPageMem m).pages) {a : Nat}
    (hMap : ¬ g.InFreemap a) : (g.memoryFreePage m p).2 a = m a := by
  unfold InFreemap at hMap
  simp only [PageMem.pages, cellBits, toPageMem] at hNumber
  refine Mem.store32_other ?_
  simp only [cellBits]
  omega

end MemVars

end Hexos
