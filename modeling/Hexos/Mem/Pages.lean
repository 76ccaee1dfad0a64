import Hexos.Lib.Bits
import Hexos.Mem.Definitions
import Mathlib.Data.Finset.Insert

/-!
# HexOS — page ownership

A page is free (its freemap bit is set) or held by one client. The
allocator hands out the lowest-numbered free page, and the two directions of
the page number encoding (cell and bit to address, address to cell and bit)
are inverse to each other for up to `2^19` pages.

## Results

* `PageMem.scanCells_some` — the scan finds the lowest set bit.
* `PageMem.pageNumberOf_pageAddr` — the address encoding round-trips.
* `page_ownership` — ownership, first fit, frees and the counter over all
  runs.
-/

namespace Hexos

open Transition

namespace PageMem

variable {m : PageMem} {n : Nat}

/-! ## The scan -/

theorem scanBits_some {cell : BitVec 32} {k j r : Nat} (hk : j + k ≤ 32)
    (h : scanBits cell k j = some r) :
    j ≤ r ∧ r < j + k ∧ cell.getLsbD r = true ∧ ∀ i, j ≤ i → i < r →
      cell.getLsbD i = false := by
  induction k generalizing j with
  | zero => simp [scanBits] at h
  | succ k ih =>
    rw [scanBits] at h
    split at h
    · next hBit =>
      obtain rfl := Option.some.inj h
      refine ⟨le_rfl, by omega, (BitMask.and_mask_ne_zero cell (by omega)).mp hBit, ?_⟩
      omega
    · next hBit =>
      obtain ⟨h1, h2, h3, h4⟩ := ih (by omega) h
      refine ⟨by omega, by omega, h3, ?_⟩
      intro i hi hir
      by_cases hij : i = j
      · subst hij
        rw [BitMask.and_mask_ne_zero cell (by omega)] at hBit
        simpa using hBit
      · exact h4 i (by omega) hir

theorem scanBits_none {cell : BitVec 32} {k j : Nat} (hk : j + k ≤ 32)
    (h : scanBits cell k j = none) : ∀ i, j ≤ i → i < j + k → cell.getLsbD i = false := by
  induction k generalizing j with
  | zero => omega
  | succ k ih =>
    rw [scanBits] at h
    split at h
    · cases h
    · next hBit =>
      intro i hi hir
      by_cases hij : i = j
      · subst hij
        rw [BitMask.and_mask_ne_zero cell (by omega)] at hBit
        simpa using hBit
      · exact ih (by omega) h i (by omega) (by omega)

/-- The page numbers of one cell. -/
theorem bit_cell (m : PageMem) (i : Nat) {j : Nat} (hj : j < 32) :
    m.bit (i * cellBits + j) = (m.cells i).getLsbD j := by
  have h1 : (i * 32 + j) / 32 = i := by omega
  have h2 : (i * 32 + j) % 32 = j := by omega
  simp only [bit, cellBits, h1, h2]

/-- A cell with no set bit. -/
theorem bit_false_of_cell {i n : Nat} (hCell : ∀ j < 32, (m.cells i).getLsbD j = false)
    (hn : n / 32 = i) : m.bit n = false := by
  simp only [bit, cellBits, hn]
  exact hCell _ (by omega)

/-- The scan returns the lowest set bit. -/
theorem scanCells_some {k i c j : Nat} (h : scanCells m.cells k i = some (c, j)) :
    c < i + k ∧ j < 32 ∧ m.bit (c * cellBits + j) = true ∧
      ∀ n, i * cellBits ≤ n → n < c * cellBits + j → m.bit n = false := by
  induction k generalizing i with
  | zero => simp [scanCells] at h
  | succ k ih =>
    rw [scanCells] at h
    -- the rest of the scan, once cell `i` is known to have no set bit
    have hNext : (∀ j < 32, (m.cells i).getLsbD j = false) →
        scanCells m.cells k (i + 1) = some (c, j) →
        c < i + (k + 1) ∧ j < 32 ∧ m.bit (c * cellBits + j) = true ∧
          ∀ n, i * cellBits ≤ n → n < c * cellBits + j → m.bit n = false := by
      intro hCell hScan
      obtain ⟨h1, h2, h3, h4⟩ := ih hScan
      refine ⟨by omega, h2, h3, ?_⟩
      intro n hn hlt
      simp only [cellBits] at hn hlt h4
      by_cases hni : n / 32 = i
      · exact bit_false_of_cell hCell hni
      · exact h4 n (by omega) hlt
    split at h
    · split at h
      · next j' hBits =>
        obtain ⟨rfl, rfl⟩ : i = c ∧ j' = j := by simpa using h
        obtain ⟨-, hj, hBit, hLow⟩ := scanBits_some (by decide) hBits
        simp only [cellBits, Nat.zero_add] at hj
        refine ⟨by omega, hj, by rw [bit_cell m i hj]; exact hBit, ?_⟩
        intro n hn hlt
        simp only [cellBits] at hn hlt
        obtain ⟨d, rfl⟩ : ∃ d, n = i * cellBits + d :=
          ⟨n - i * 32, by simp only [cellBits]; omega⟩
        simp only [cellBits] at hlt
        rw [bit_cell m i (by omega)]
        exact hLow d (by omega) (by omega)
      · next hBits =>
        refine hNext ?_ h
        intro j hj
        exact scanBits_none (by decide) hBits j (by omega) (by simp only [cellBits]; omega)
    · next hZero =>
      refine hNext ?_ h
      intro j _
      rw [not_not.mp hZero]
      simp

/-- The scan fails only when no bit is set. -/
theorem scanCells_none {k i : Nat} (h : scanCells m.cells k i = none) :
    ∀ n, i * cellBits ≤ n → n < (i + k) * cellBits → m.bit n = false := by
  induction k generalizing i with
  | zero =>
    intro n hn hlt
    simp only [cellBits] at hn hlt
    omega
  | succ k ih =>
    rw [scanCells] at h
    intro n hn hlt
    simp only [cellBits] at hn hlt ih
    by_cases hni : n / 32 = i
    · refine bit_false_of_cell ?_ hni
      intro j hj
      split at h
      · split at h
        · cases h
        · next hBits =>
          exact scanBits_none (by decide) hBits j (by omega) (by simpa [cellBits] using hj)
      · next hZero =>
        rw [not_not.mp hZero]
        simp
    · have hNext : scanCells m.cells k (i + 1) = none := by
        split at h
        · split at h
          · cases h
          · exact h
        · exact h
      exact ih hNext n (by omega) (by omega)

/-! ## The address encoding -/

/-- **Round trip.** The address of a page below `2^19` leads back to it. -/
theorem pageNumberOf_pageAddr (hn : n < 2 ^ 19) : pageNumberOf (pageAddr n) = n := by
  have hDiff : (pageAddr n + 2 ^ 32 - allocMemoryStart) % 2 ^ 32 = 4096 * n := by
    simp only [pageAddr, allocMemoryStart, pageSize]
    omega
  simp only [pageNumberOf, hDiff]
  rw [if_pos (by omega)]
  omega

theorem pageAddr_injective {k : Nat} (h : pageAddr n = pageAddr k) : n = k := by
  simp only [pageAddr, pageSize] at h
  omega

/-! ## One call -/

/-- The bits depend on the cells only. -/
theorem bit_congr {m' : PageMem} (hCells : m'.cells = m.cells) (k : Nat) : m'.bit k = m.bit k := by
  simp only [bit, hCells]

/-- The bits after a write to cell `i`. -/
theorem bit_of_cells {m' : PageMem} {i : Nat} {v : BitVec 32}
    (hCells : m'.cells = Function.update m.cells i v) (k : Nat) :
    m'.bit k = if k / 32 = i then v.getLsbD (k % 32) else m.bit k := by
  by_cases h : k / 32 = i <;> simp [bit, cellBits, hCells, h]

/-- Clearing one bit of a cell clears the bit of one page. -/
theorem bit_clear {m' : PageMem} {i j : Nat} (hj : j < 32)
    (hCells : m'.cells = Function.update m.cells i (m.cells i &&& ~~~(1#32 <<< j))) (k : Nat) :
    m'.bit k = (m.bit k && decide (k ≠ i * 32 + j)) := by
  rw [bit_of_cells hCells]
  by_cases hk : k / 32 = i
  · rw [if_pos hk, BitMask.getLsbD_and_not_mask _ (by omega), bit, cellBits, hk]
    congr 1
    rw [decide_eq_decide]
    omega
  · have hkn : k ≠ i * 32 + j := by omega
    simp [hk, hkn]

/-- Setting one bit of a cell sets the bit of one page. -/
theorem bit_set {m' : PageMem} {i j : Nat} (hj : j < 32)
    (hCells : m'.cells = Function.update m.cells i (m.cells i ||| (1#32 <<< j))) (k : Nat) :
    m'.bit k = (m.bit k || decide (k = i * 32 + j)) := by
  rw [bit_of_cells hCells]
  by_cases hk : k / 32 = i
  · rw [if_pos hk, BitMask.getLsbD_or_mask _ (by omega), bit, cellBits, hk]
    congr 1
    rw [decide_eq_decide]
    omega
  · have hkn : k ≠ i * 32 + j := by omega
    simp [hk, hkn]

theorem zeroPage_bit {pageaddr k : Nat} (hClear : m.ClearOfFreemap pageaddr) (hk : k < m.pages) :
    (m.zeroPage pageaddr).bit k = m.bit k := by
  simp only [pages, cellBits] at hk
  have hCell := hClear (k / 32) (by omega)
  simp only [bit, zeroPage, cellBits, if_neg hCell]

/-- **One allocation.** The page returned is the lowest-numbered free page;
its bit is cleared and the counter goes down by one. -/
theorem memoryAllocPage_done {m' : PageMem} {zeroit : Bool} {p : Nat}
    (hPages : m.pages ≤ 2 ^ 19) (h : m.memoryAllocPage zeroit = .done (p, m')) (hp : p ≠ 0)
    (hZero : zeroit = true → m.ClearOfFreemap p) :
    ∃ n < m.pages, p = pageAddr n ∧ m.bit n = true ∧ (∀ k < n, m.bit k = false) ∧
      (∀ k < m.pages, m'.bit k = (m.bit k && decide (k ≠ n))) ∧
      m'.freemap = m.freemap ∧ m'.freemapCells = m.freemapCells ∧
      m'.pagesFree = (m.pagesFree + 2 ^ 32 - 1) % 2 ^ 32 := by
  rw [memoryAllocPage] at h
  split at h
  · simp only [Outcome.done.injEq, Prod.mk.injEq] at h
    exact absurd h.1.symm hp
  split at h
  · cases h
  · next i j hScan =>
    obtain ⟨hi, hj, hBit, hLow⟩ := scanCells_some hScan
    simp only [pages, cellBits] at hPages hBit hLow ⊢
    have hAddr : ((i * cellBits + j) % 2 ^ 32 * pageSize % 2 ^ 32 + allocMemoryStart) % 2 ^ 32 =
        pageAddr (i * 32 + j) := by
      simp only [cellBits, pageSize, allocMemoryStart, pageAddr]
      omega
    simp only [hAddr] at h
    refine ⟨i * 32 + j, by omega, ?_⟩
    cases zeroit with
    | false =>
      simp only [Outcome.done.injEq, Prod.mk.injEq] at h
      obtain ⟨rfl, rfl⟩ := h
      exact ⟨rfl, hBit, fun k hk => hLow k (by omega) hk, fun k _ => bit_clear hj rfl k,
        rfl, rfl, rfl⟩
    | true =>
      simp only [if_true, Outcome.done.injEq, Prod.mk.injEq] at h
      obtain ⟨rfl, rfl⟩ := h
      refine ⟨rfl, hBit, fun k hk => hLow k (by omega) hk, ?_, rfl, rfl, rfl⟩
      intro k hk
      let c : PageMem :=
        { m with cells := Function.update m.cells i (m.cells i &&& ~~~(1#32 <<< j)) }
      have hCleared : c.bit k = (m.bit k && decide (k ≠ i * 32 + j)) := bit_clear hj rfl k
      have hFrame : c.ClearOfFreemap (pageAddr (i * 32 + j)) := hZero rfl
      have hZeroed : (c.zeroPage (pageAddr (i * 32 + j))).bit k = c.bit k := zeroPage_bit hFrame hk
      rw [← hCleared, ← hZeroed]
      refine bit_congr ?_ k
      rfl

/-- No call changes the size of the freemap. -/
theorem memoryAllocPage_pages {m' : PageMem} {zeroit : Bool} {p : Nat}
    (h : m.memoryAllocPage zeroit = .done (p, m')) : m'.pages = m.pages := by
  rw [memoryAllocPage] at h
  split at h
  · obtain ⟨-, rfl⟩ : 0 = p ∧ m = m' := by simpa using h
    rfl
  split at h
  · cases h
  · simp only [Outcome.done.injEq, Prod.mk.injEq] at h
    obtain ⟨-, rfl⟩ := h
    cases zeroit <;> simp [pages, zeroPage]

/-- **Progress.** With a free page the allocator does not panic. -/
theorem memoryAllocPage_returns (hFreemap : m.freemap ≠ 0) (hn : n < m.pages)
    (hBit : m.bit n = true) (zeroit : Bool) :
    ∃ p m', m.memoryAllocPage zeroit = .done (p, m') := by
  rw [memoryAllocPage, if_neg hFreemap]
  split
  · next hScan =>
    rw [scanCells_none hScan n (by omega) (by simpa [pages] using hn)] at hBit
    cases hBit
  · exact ⟨_, _, rfl⟩

/-- **One free.** The bit of the page is set and the counter goes up by one. -/
theorem memoryFreePage_bit (hn : n < 2 ^ 19) (k : Nat) :
    (m.memoryFreePage (pageAddr n)).bit k = (m.bit k || decide (k = n)) := by
  have hCells : (m.memoryFreePage (pageAddr n)).cells =
      Function.update m.cells (n / 32) (m.cells (n / 32) ||| (1#32 <<< (n % 32))) := by
    simp only [memoryFreePage, pageNumberOf_pageAddr hn, cellBits]
  have hSplit : n / 32 * 32 + n % 32 = n := by omega
  rw [bit_set (by omega) hCells, hSplit]

/-! ## Counting free pages -/

theorem setBits_clear {m' : PageMem} (hSize : m'.freemapCells = m.freemapCells)
    (hn : n < m.pages) (hBit : m.bit n = true)
    (h : ∀ k < m.pages, m'.bit k = (m.bit k && decide (k ≠ n))) :
    m'.setBits + 1 = m.setBits := by
  have hPages : m'.pages = m.pages := by simp [pages, hSize]
  have hErase : (Finset.range m'.pages).filter (fun k => m'.bit k) =
      ((Finset.range m.pages).filter fun k => m.bit k).erase n := by
    ext k
    simp only [hPages, Finset.mem_filter, Finset.mem_range, Finset.mem_erase]
    constructor
    · rintro ⟨hk, hb⟩
      rw [h k hk] at hb
      simp only [Bool.and_eq_true, decide_eq_true_eq] at hb
      exact ⟨hb.2, hk, hb.1⟩
    · rintro ⟨hkn, hk, hb⟩
      exact ⟨hk, by rw [h k hk]; simp [hb, hkn]⟩
  have hMem : n ∈ (Finset.range m.pages).filter fun k => m.bit k := by simp [hn, hBit]
  rw [setBits, setBits, hErase]
  exact Finset.card_erase_add_one hMem

theorem setBits_set {m' : PageMem} (hSize : m'.freemapCells = m.freemapCells)
    (hn : n < m.pages) (hBit : m.bit n = false)
    (h : ∀ k, m'.bit k = (m.bit k || decide (k = n))) :
    m'.setBits = m.setBits + 1 := by
  have hPages : m'.pages = m.pages := by simp [pages, hSize]
  refine (setBits_clear hSize.symm (hPages ▸ hn) ?_ ?_).symm
  · simp [h]
  · intro k _
    by_cases hk : k = n
    · simp [hk, hBit]
    · simp [h, hk]

end PageMem

/-! ## Runs -/

/-- Held pages are distinct pages whose bits are clear; the counter and the
freemap move together. -/
structure PageRun.Inv (m₀ : PageMem) (r : PageRun) : Prop where
  freemap : r.mem.freemap = m₀.freemap
  cells   : r.mem.freemapCells = m₀.freemapCells
  held    : ∀ p ∈ r.held, ∃ n < r.mem.pages, p = PageMem.pageAddr n ∧ r.mem.bit n = false
  nodup   : r.held.Nodup
  counter : ((r.mem.pagesFree : Int) - r.mem.setBits) % 2 ^ 32 =
              ((m₀.pagesFree : Int) - m₀.setBits) % 2 ^ 32

namespace PageRun.Inv

open PageMem

variable {m₀ : PageMem} {r : PageRun}

theorem pages_eq (h : r.Inv m₀) : r.mem.pages = m₀.pages := by
  simp [pages, h.cells]

/-- A page whose bit is set is not held. -/
theorem not_held (h : r.Inv m₀) {n : Nat} (hBit : r.mem.bit n = true) :
    pageAddr n ∉ r.held := by
  intro hc
  obtain ⟨k, -, hk, hkBit⟩ := h.held _ hc
  rw [pageAddr_injective hk, hkBit] at hBit
  cases hBit

/-- **Step lemma.** -/
theorem step (hPages : m₀.pages ≤ 2 ^ 19)
    (h : r.Inv m₀) {r' : PageRun} (hs : PageStep r r') : r'.Inv m₀ := by
  cases hs with
  | @alloc zeroit p m hAlloc hp hZero =>
    obtain ⟨n, hn, rfl, hBit, -, hBits, hMap, hCells, hFree⟩ :=
      memoryAllocPage_done (by rwa [h.pages_eq]) hAlloc hp hZero
    have hPagesEq : m.pages = r.mem.pages := by simp [pages, hCells]
    have hCount := setBits_clear hCells hn hBit hBits
    refine ⟨hMap.trans h.freemap, hCells.trans h.cells, ?_,
      List.nodup_cons.mpr ⟨h.not_held hBit, h.nodup⟩, ?_⟩
    · intro p hp
      rw [hPagesEq]
      rcases List.mem_cons.mp hp with rfl | hp
      · exact ⟨n, hn, rfl, by simp [hBits n hn]⟩
      · obtain ⟨k, hk, hpk, hkBit⟩ := h.held p hp
        exact ⟨k, hk, hpk, by simp [hBits k hk, hkBit]⟩
    · have := h.counter
      simp only [hFree]
      omega
  | @free p hp =>
    obtain ⟨n, hn, rfl, hBit⟩ := h.held p hp
    have hLt : n < 2 ^ 19 := by
      have := h.pages_eq
      omega
    have hBits := memoryFreePage_bit (m := r.mem) hLt
    have hCount : (r.mem.memoryFreePage (pageAddr n)).setBits = r.mem.setBits + 1 :=
      setBits_set rfl hn hBit hBits
    refine ⟨h.freemap, h.cells, ?_, h.nodup.erase _, ?_⟩
    · intro p' hp'
      obtain ⟨k, hk, rfl, hkBit⟩ := h.held p' (List.mem_of_mem_erase hp')
      have hne : k ≠ n := by
        rintro rfl
        exact (h.nodup.mem_erase_iff.mp hp').1 rfl
      exact ⟨k, hk, rfl, by simp [hBits, hkBit, hne]⟩
    · have hCounter := h.counter
      have hFree : (r.mem.memoryFreePage (pageAddr n)).pagesFree =
          (r.mem.pagesFree + 1) % 2 ^ 32 := rfl
      simp only [hCount, hFree]
      omega

end PageRun.Inv

open PageMem in
/-- **Page ownership.** For every freemap of at most `2^19` pages and every run
of allocations and frees: held pages are distinct; an allocation returns the
lowest-numbered free page, which nobody holds, aligned to 4096 bytes from
`ALLOC_MEMORY_START`, and clears its bit only; it returns one as long as there
is one; the free of a held page sets exactly the bit its allocation cleared;
and `pages_free` minus the number of set bits is the same modulo `2^32` in
every reachable state. -/
theorem page_ownership (m₀ : PageMem) (hPages : m₀.freemapCells * cellBits ≤ 2 ^ 19)
    (r : PageRun) (hr : Reachable (pageSystem m₀) r) :
    r.held.Nodup ∧
    (∀ zeroit p m', r.mem.memoryAllocPage zeroit = .done (p, m') → p ≠ 0 →
      (zeroit = true → r.mem.ClearOfFreemap p) →
      p ∉ r.held ∧ ∃ n < r.mem.pages, p = pageAddr n ∧ r.mem.bit n = true ∧
        (∀ k < n, r.mem.bit k = false) ∧
        ∀ k < r.mem.pages, m'.bit k = (r.mem.bit k && decide (k ≠ n))) ∧
    (r.mem.freemap ≠ 0 → (∃ n < r.mem.pages, r.mem.bit n = true) →
      ∀ zeroit, ∃ p m', r.mem.memoryAllocPage zeroit = .done (p, m')) ∧
    (∀ p ∈ r.held, ∃ n < r.mem.pages, p = pageAddr n ∧ r.mem.bit n = false ∧
      ∀ k, (r.mem.memoryFreePage p).bit k = (r.mem.bit k || decide (k = n))) ∧
    ((r.mem.pagesFree : Int) - r.mem.setBits) % 2 ^ 32 =
      ((m₀.pagesFree : Int) - m₀.setBits) % 2 ^ 32 := by
  have h : r.Inv m₀ := by
    refine Reachable.invariant (I := fun r => r.Inv m₀) ?_ ?_ hr
    · rintro r rfl
      exact ⟨rfl, rfl, by simp, by simp, rfl⟩
    · intro r r' _ h hs
      exact h.step hPages hs
  have hSize : r.mem.pages ≤ 2 ^ 19 := by
    rw [h.pages_eq]
    exact hPages
  refine ⟨h.nodup, ?_, ?_, ?_, h.counter⟩
  · intro zeroit p m' hAlloc hp hZero
    obtain ⟨n, hn, rfl, hBit, hLow, hBits, -⟩ := memoryAllocPage_done hSize hAlloc hp hZero
    exact ⟨h.not_held hBit, n, hn, rfl, hBit, hLow, hBits⟩
  · rintro hFreemap ⟨n, hn, hBit⟩ zeroit
    exact memoryAllocPage_returns hFreemap hn hBit zeroit
  · intro p hp
    obtain ⟨n, hn, rfl, hBit⟩ := h.held p hp
    exact ⟨n, hn, rfl, hBit, memoryFreePage_bit (by omega)⟩

open PageMem in
/-- Pages 1 and 2 are allocated and page 1 is freed: the next allocation gives
page 1 again, which nobody holds, and page 2 is still held. -/
theorem page_ownership_two_pages :
    ∃ (m₀ : PageMem) (r : PageRun), m₀.freemapCells * cellBits ≤ 2 ^ 19 ∧
      Reachable (pageSystem m₀) r ∧ r.held = [0x102000] ∧ r.held.Nodup ∧
      ∃ m', r.mem.memoryAllocPage false = .done (0x101000, m') ∧ 0x101000 ∉ r.held := by
  let m₀ : PageMem := ⟨0x100000, fun c => if c = 0 then 6#32 else 0, 2, 2⟩
  let m₁ : PageMem :=
    { m₀ with
      cells := Function.update m₀.cells 0 (m₀.cells 0 &&& ~~~(1#32 <<< 1))
      pagesFree := (m₀.pagesFree + 2 ^ 32 - 1) % 2 ^ 32 }
  let m₂ : PageMem :=
    { m₁ with cells := Function.update m₁.cells 0 (m₁.cells 0 &&& ~~~(1#32 <<< 2)) }
  let m₃ : PageMem :=
    { m₂.zeroPage 0x102000 with pagesFree := (m₁.pagesFree + 2 ^ 32 - 1) % 2 ^ 32 }
  let m₄ : PageMem := m₃.memoryFreePage 0x101000
  have hScan₀ : scanCells m₀.cells m₀.freemapCells 0 = some (0, 1) := by decide +kernel
  have hScan₁ : scanCells m₁.cells m₁.freemapCells 0 = some (0, 2) := by decide +kernel
  have hScan₄ : scanCells m₄.cells m₄.freemapCells 0 = some (0, 1) := by decide +kernel
  have hAlloc₀ : m₀.memoryAllocPage false = .done (0x101000, m₁) := by
    rw [memoryAllocPage, hScan₀]
    rfl
  have hAlloc₁ : m₁.memoryAllocPage true = .done (0x102000, m₃) := by
    rw [memoryAllocPage, hScan₁]
    rfl
  have hAlloc₄ : ∃ m', m₄.memoryAllocPage false = .done (0x101000, m') := by
    rw [memoryAllocPage, hScan₄]
    exact ⟨_, rfl⟩
  have hClear : m₁.ClearOfFreemap 0x102000 := by
    intro c hc
    have : c < 2 := hc
    simp only [m₁, m₀, pageSize]
    omega
  have hSize : m₀.freemapCells * cellBits ≤ 2 ^ 19 := by decide
  have h₁ : Reachable (pageSystem m₀) ⟨m₁, [0x101000]⟩ :=
    .step (.init rfl) (.alloc hAlloc₀ (by omega) nofun)
  have h₃ : Reachable (pageSystem m₀) ⟨m₃, [0x102000, 0x101000]⟩ :=
    .step h₁ (.alloc hAlloc₁ (by omega) fun _ => hClear)
  have h₄ : Reachable (pageSystem m₀) ⟨m₄, [0x102000]⟩ := .step h₃ (.free (by decide))
  have hOwn := page_ownership m₀ hSize _ h₄
  obtain ⟨m', hm'⟩ := hAlloc₄
  exact ⟨m₀, _, hSize, h₄, rfl, hOwn.1, m', hm',
    (hOwn.2.1 false _ _ hm' (by omega) nofun).1⟩

end Hexos
