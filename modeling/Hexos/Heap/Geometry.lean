import Hexos.Heap.Misuse

/-!
# HexOS — the geometry of heap blocks

`kheap_add_block` takes a block of `size` bytes and cells of `bsize` bytes.
Three counts have to agree: it clears a bitmap of `size / bsize` bytes and
reserves the cells that these take, while `kalloc` scans `(size - 20) / bsize`
cells, and `kfree` tests a pointer against `size - 20` bytes measured from the
header and not from the cells.

## Results

* `kallocTraced_snd` — the reads of `kalloc` are recorded beside its result.
* `HeapRun.GeometryInv.request` — the reserved cells stay in use.
* `heap_geometry_iff` — the pairs for which the three counts agree.
-/

namespace Hexos

open Transition KernelHeapBlockBm

-- ---------------------------------------------------------------------------
-- The reads of kalloc
-- ---------------------------------------------------------------------------

namespace KernelHeapBlockBm

/-- The scan of `kalloc` with the indices of the bitmap it reads. The loop that
counts free blocks reads `bm[x + y]` before it looks at the other conditions, so
also at the `y` it stops at. -/
def tracedScan (b : KernelHeapBlockBm) (bneed : Nat) :
    Nat → Nat → List Int × Option (Option Nat)
  | 0, _ => ([], none)
  | fuel + 1, x =>
    if x = b.lfb then ([], some none)
    else
      let x := if x ≥ b.bcnt then 0 else x
      if b.bm x = 0 then
        let y := b.countFree bneed x
        let counted : List Int := (List.range (y + 1)).map fun (i : Nat) => (x : Int) + i
        if y = bneed then ((x : Int) :: counted ++ [(x : Int) - 1, (x : Int) + y], some (some x))
        else
          let rest := b.tracedScan bneed fuel (x + y)
          ((x : Int) :: counted ++ rest.1, rest.2)
      else
        let rest := b.tracedScan bneed fuel (x + 1)
        ((x : Int) :: rest.1, rest.2)

theorem tracedScan_snd (b : KernelHeapBlockBm) (bneed fuel x : Nat) :
    (b.tracedScan bneed fuel x).2 = b.kallocScan bneed fuel x := by
  induction fuel generalizing x with
  | zero => rfl
  | succ fuel ih =>
    rw [tracedScan, kallocScan]
    split
    · rfl
    · dsimp only
      generalize (if x ≥ b.bcnt then 0 else x) = v
      by_cases hFree : b.bm v = 0
      · rw [if_pos hFree, if_pos hFree]
        split
        · rfl
        · exact ih _
      · rw [if_neg hFree, if_neg hFree]
        exact ih _

end KernelHeapBlockBm

/-- `kalloc` with the indices of the bitmaps it reads. -/
def kallocTraced (fuel : Nat) : KernelHeap → Nat → List Int × Outcome (Nat × KernelHeap)
  | [], _ => ([], .panic "kalloc: Out of memory!")
  | b :: bs, size =>
    let rest := kallocTraced fuel bs size
    let next := rest.2.map fun (ptr, bs) => (ptr, b :: bs)
    if b.Room size then
      let bneed := blocksFor size b.bsize
      let scan := b.tracedScan bneed fuel b.scanStart
      match scan.2 with
      | none => (scan.1, .running)
      | some (some x) => (scan.1, .done (b.cellAddr x, b.take x bneed :: bs))
      | some none => (scan.1 ++ rest.1, next)
    else (rest.1, next)

/-- Recording the reads does not change the call. -/
theorem kallocTraced_snd (fuel : Nat) (heap : KernelHeap) (size : Nat) :
    (kallocTraced fuel heap size).2 = kalloc fuel heap size := by
  induction heap with
  | nil => rfl
  | cons b bs ih =>
    rw [kallocTraced, kalloc]
    dsimp only
    rw [tracedScan_snd, ih]
    split
    · rcases b.kallocScan (blocksFor size b.bsize) fuel b.scanStart with _ | _ | x <;> rfl
    · rfl

/-- Every read is one of the scan of some block. -/
theorem mem_kallocTraced {fuel size : Nat} {heap : KernelHeap} {i : Int}
    (h : i ∈ (kallocTraced fuel heap size).1) :
    ∃ b ∈ heap, i ∈ (b.tracedScan (blocksFor size b.bsize) fuel b.scanStart).1 := by
  induction heap with
  | nil => simp [kallocTraced] at h
  | cons b bs ih =>
    have hNext : i ∈ (kallocTraced fuel bs size).1 →
        ∃ c ∈ b :: bs, i ∈ (c.tracedScan (blocksFor size c.bsize) fuel c.scanStart).1 := by
      intro hi
      obtain ⟨c, hc, hic⟩ := ih hi
      exact ⟨c, List.mem_cons_of_mem b hc, hic⟩
    rw [kallocTraced] at h
    dsimp only at h
    split at h
    · split at h
      · exact ⟨b, List.mem_cons_self, h⟩
      · exact ⟨b, List.mem_cons_self, h⟩
      · rcases List.mem_append.mp h with h | h
        · exact ⟨b, List.mem_cons_self, h⟩
        · exact hNext h
    · exact hNext h

-- ---------------------------------------------------------------------------
-- Geometry
-- ---------------------------------------------------------------------------

/-- The cells that `kheap_add_block` reserves for the bitmap. -/
def reservedCells (size bsize : Nat) : Nat := blocksFor (size / bsize) bsize

/-- The number of cells that `kalloc` scans, `b->size / b->bsize`. -/
def scannedCells (size bsize : Nat) : Nat := (size + 2 ^ 32 - headerSize) % 2 ^ 32 / bsize

/-- Byte `i` of the bitmap is in the memory of the block and in the reserved
cells. -/
def InBitmap (size bsize : Nat) (i : Int) : Prop :=
  0 ≤ i ∧ headerSize + i < size ∧ i < reservedCells size bsize * bsize

/-- A heap of blocks with one geometry, at disjoint places of the 32-bit address
space, as `kheap_add_block` leaves it. -/
inductive HeapOf (size bsize : Nat) : KernelHeap → Prop
  | init : HeapOf size bsize kheapInit
  | add {heap : KernelHeap} {addr : Nat} {page : Nat → UInt8} :
      HeapOf size bsize heap → addr + size ≤ 2 ^ 32 →
      (∀ b ∈ heap, addr + size ≤ b.addr ∨ b.addr + size ≤ addr) →
      HeapOf size bsize (kheapAddBlock heap addr size bsize page)

/-- The geometry holds together: `kheap_add_block` writes inside the bitmap, and
in every state that requests reach, a call of `kalloc` reads inside the bitmaps
and returns a range in the memory of a block, with a pointer that passes the
test of `kfree` for this block. -/
def GeometryOk (size bsize : Nat) : Prop :=
  (∀ i : Nat, i < size / bsize ∨ i < reservedCells size bsize → InBitmap size bsize i) ∧
  ∀ heap₀, HeapOf size bsize heap₀ → ∀ r, Reachable (requestSystem heap₀) r →
  ∀ fuel n, n < 2 ^ 32 →
    (∀ i ∈ (kallocTraced fuel r.heap n).1, InBitmap size bsize i) ∧
    ∀ ptr heap', (kallocTraced fuel r.heap n).2 = .done (ptr, heap') →
      ∃ b ∈ r.heap, b.addr ≤ ptr ∧ ptr + blocksFor n bsize * bsize ≤ b.addr + size ∧
      b.Owns ptr

/-- The pairs for which it does. -/
structure Geometry (size bsize : Nat) : Prop where
  word   : size < 2 ^ 32
  pos    : 1 ≤ bsize
  -- there is an allocatable cell
  room   : reservedCells size bsize < scannedCells size bsize
  header : headerSize ≤ size
  -- the last cell starts below the bound that `kfree` tests
  range  : headerSize < (size - headerSize) % bsize + bsize
  -- the byte after the bitmap of the scanned cells is still reserved
  bitmap : (size - headerSize) / bsize < reservedCells size bsize * bsize

theorem le_blocksFor_mul {bsize : Nat} (n : Nat) (hPos : 1 ≤ bsize) :
    n ≤ blocksFor n bsize * bsize := by
  have hDiv := Nat.div_add_mod' n bsize
  have hMod := Nat.mod_lt n hPos
  unfold blocksFor
  split
  · rw [Nat.succ_mul]
    omega
  · omega

namespace Geometry

variable {size bsize : Nat}

theorem scannedCells_eq (hWord : size < 2 ^ 32) (hHeader : headerSize ≤ size) :
    scannedCells size bsize = (size - headerSize) / bsize := by
  have hWrap : (size + 2 ^ 32 - headerSize) % 2 ^ 32 = size - headerSize := by
    unfold headerSize at *
    omega
  unfold scannedCells
  rw [hWrap]

/-- The scanned cells, in bytes. -/
theorem scanned_mul (h : Geometry size bsize) :
    scannedCells size bsize * bsize + (size - headerSize) % bsize = size - headerSize := by
  rw [scannedCells_eq h.word h.header]
  exact Nat.div_add_mod' _ _

/-- The cells from `x` on to `x + n` are among the scanned ones. -/
theorem cells_le (h : Geometry size bsize) {x n : Nat} (hn : x + n ≤ scannedCells size bsize) :
    x * bsize + n * bsize ≤ size - headerSize := by
  have hMul := h.scanned_mul
  have hLe := Nat.mul_le_mul_right bsize hn
  rw [Nat.add_mul] at hLe
  omega

theorem reserved_pos (h : Geometry size bsize) : 1 ≤ reservedCells size bsize := by
  have hBitmap := h.bitmap
  rcases Nat.eq_zero_or_pos (reservedCells size bsize) with h0 | h0
  · rw [h0, Nat.zero_mul] at hBitmap
    exact absurd hBitmap (Nat.not_lt_zero _)
  · exact h0

theorem reserved_le_mul (h : Geometry size bsize) :
    reservedCells size bsize ≤ reservedCells size bsize * bsize :=
  Nat.le_mul_of_pos_right _ h.pos

/-- The cells that are not reserved leave a byte behind the bitmap. -/
theorem reserved_mul_lt (h : Geometry size bsize) :
    reservedCells size bsize * bsize < size - headerSize := by
  have hLe := h.cells_le (x := reservedCells size bsize) (n := 1) h.room
  have hPos := h.pos
  omega

theorem inBitmap (h : Geometry size bsize) {i : Int} (hLow : 0 ≤ i)
    (hHigh : i ≤ scannedCells size bsize) : InBitmap size bsize i := by
  have hBitmap := h.bitmap
  have hLt := h.reserved_mul_lt
  have hHeader := h.header
  rw [scannedCells_eq h.word hHeader] at hHigh
  refine ⟨hLow, ?_, ?_⟩ <;> unfold headerSize at * <;> omega

/-- What `kheap_add_block` writes. -/
theorem inBitmap_write (h : Geometry size bsize) {i : Nat}
    (hi : i < size / bsize ∨ i < reservedCells size bsize) : InBitmap size bsize i := by
  have hLt := h.reserved_mul_lt
  have hMul := h.reserved_le_mul
  have hCeil : size / bsize ≤ reservedCells size bsize * bsize := le_blocksFor_mul _ h.pos
  refine ⟨by omega, ?_, ?_⟩ <;> unfold headerSize at * <;> omega

end Geometry

-- ---------------------------------------------------------------------------
-- The reserved cells over runs
-- ---------------------------------------------------------------------------

/-- A block of the given geometry whose reserved cells are in use. -/
structure KernelHeapBlockBm.HasGeometry (b : KernelHeapBlockBm) (size bsize : Nat) : Prop where
  addr     : 0 < b.addr ∧ b.addr + size ≤ 2 ^ 32
  reserved : ∀ i < reservedCells size bsize, b.bm i ≠ 0
  size     : b.size = size - headerSize
  bsize    : b.bsize = bsize

/-- An allocation starts at the cell `x` of the block at `addr`. -/
structure Alloc.AtCell (a : Alloc) (size bsize addr x : Nat) : Prop where
  ptr  : a.ptr = addr + headerSize + x * bsize
  low  : reservedCells size bsize ≤ x
  high : x + max (blocksFor a.size bsize) 1 ≤ scannedCells size bsize

/-- Disjoint blocks of the given geometry, and live allocations in their cells. -/
structure HeapRun.GeometryInv (size bsize : Nat) (r : HeapRun) : Prop where
  block : ∀ b ∈ r.heap, b.HasGeometry size bsize
  apart : (r.heap.map (·.addr)).Pairwise fun p q => p + size ≤ q ∨ q + size ≤ p
  live  : ∀ a ∈ r.live, ∃ p ∈ r.heap.map (·.addr), ∃ x, a.AtCell size bsize p x

namespace KernelHeapBlockBm.HasGeometry

variable {b : KernelHeapBlockBm} {size bsize : Nat}

theorem bcnt (hb : b.HasGeometry size bsize) (h : Geometry size bsize) :
    b.bcnt = scannedCells size bsize := by
  unfold KernelHeapBlockBm.bcnt
  rw [hb.size, hb.bsize, Geometry.scannedCells_eq h.word h.header]

theorem owns_iff (hb : b.HasGeometry size bsize) (h : Geometry size bsize) (p : Nat) :
    b.Owns p ↔ b.addr < p ∧ p < b.addr + (size - headerSize) := by
  have hAddr := hb.addr
  have hHeader := h.header
  unfold KernelHeapBlockBm.Owns
  rw [hb.size, Nat.mod_eq_of_lt (by unfold headerSize at *; omega)]

theorem take (hb : b.HasGeometry size bsize) {x : Nat} (hx : reservedCells size bsize ≤ x)
    (n : Nat) :
    (b.take x n).HasGeometry size bsize := by
  refine ⟨by rw [take_addr]; exact hb.addr, ?_, by rw [take_size]; exact hb.size,
    by rw [take_bsize]; exact hb.bsize⟩
  intro i hi
  have hBm : (b.take x n).bm i = b.bm i := by
    unfold KernelHeapBlockBm.take
    exact fill_out (by omega)
  rw [hBm]
  exact hb.reserved i hi

theorem release (hb : b.HasGeometry size bsize) {p x : Nat} (hIndex : b.cellIndex p = x)
    (hx : reservedCells size bsize ≤ x) : (b.release p).HasGeometry size bsize := by
  refine ⟨by rw [release_addr]; exact hb.addr, ?_, by rw [release_size]; exact hb.size,
    by rw [release_bsize]; exact hb.bsize⟩
  intro i hi
  obtain ⟨n, -, hRun, -⟩ := clearRun_spec (b.bm x) b.bm (b.bcnt - x) x
  rw [(b.release_of_clearRun hIndex hRun).1, fill_out (by omega)]
  exact hb.reserved i hi

/-- A byte written behind the bitmap of the reserved cells. -/
theorem storeByte (hb : b.HasGeometry size bsize) {p : Nat} {v : UInt8}
    (hp : b.addr + headerSize ≤ p → p < b.addr + headerSize + b.size →
      reservedCells size bsize ≤ p - (b.addr + headerSize)) :
    (b.storeByte p v).HasGeometry size bsize := by
  unfold KernelHeapBlockBm.storeByte
  split
  · next hByte =>
    have hLow := hp hByte.1 hByte.2
    refine ⟨hb.addr, ?_, hb.size, hb.bsize⟩
    intro i hi
    show Function.update b.bm _ v i ≠ 0
    rw [Function.update_of_ne (by omega)]
    exact hb.reserved i hi
  · exact hb

/-- Free cells are not among the reserved ones. -/
theorem reserved_le (hb : b.HasGeometry size bsize) {x : Nat} (hx : b.bm x = 0) :
    reservedCells size bsize ≤ x := by
  by_contra hc
  exact hb.reserved x (by omega) hx

/-- The reads of a scan stay in the bitmap. -/
theorem reads (hb : b.HasGeometry size bsize) (h : Geometry size bsize) (n fuel x : Nat) :
    ∀ i ∈ (b.tracedScan n fuel x).1, InBitmap size bsize i := by
  have hPos := h.reserved_pos
  have hRoom := h.room
  have hBcnt := hb.bcnt h
  induction fuel generalizing x with
  | zero =>
    intro i hi
    cases hi
  | succ fuel ih =>
    intro i hi
    rw [tracedScan] at hi
    split at hi
    · cases hi
    · dsimp only at hi
      have hLt : (if x ≥ b.bcnt then 0 else x) < b.bcnt := by
        split <;> omega
      generalize (if x ≥ b.bcnt then 0 else x) = v at hi hLt
      split at hi
      · next hFree =>
        have hv := hb.reserved_le hFree
        -- the count stops at the end of the bitmap
        have hCount : v + b.countFree n v ≤ b.bcnt := by
          rcases Nat.eq_zero_or_pos (b.countFree n v) with h0 | h0
          · omega
          · have := (countFree_free (b := b) (k := n) (i := v) (j := v + b.countFree n v - 1)
              (by omega) (by omega)).2
            omega
        have hHead : i ∈ (v : Int) :: (List.range (b.countFree n v + 1)).map
            (fun (j : Nat) => (v : Int) + j) →
            InBitmap size bsize i := by
          intro hi
          rcases List.mem_cons.mp hi with rfl | hi
          · exact h.inBitmap (by omega) (by omega)
          · obtain ⟨j, hj, rfl⟩ := List.mem_map.mp hi
            have := List.mem_range.mp hj
            exact h.inBitmap (by omega) (by omega)
        split at hi
        · rcases List.mem_append.mp hi with hi | hi
          · exact hHead hi
          · -- the cells next to the allocation
            have : i = (v : Int) - 1 ∨ i = (v : Int) + b.countFree n v := by simpa using hi
            exact h.inBitmap (by omega) (by omega)
        · rcases List.mem_append.mp hi with hi | hi
          · exact hHead hi
          · exact ih _ i hi
      · rcases List.mem_cons.mp hi with rfl | hi
        · exact h.inBitmap (by omega) (by omega)
        · exact ih _ i hi

end KernelHeapBlockBm.HasGeometry

namespace Alloc.AtCell

variable {a : Alloc} {size bsize addr x : Nat}

/-- The bytes of the allocation are behind the header, in the block. -/
theorem in_block (ha : a.AtCell size bsize addr x) (h : Geometry size bsize) :
    addr + headerSize + x * bsize + blocksFor a.size bsize * bsize ≤ addr + size ∧
      addr + headerSize ≤ a.ptr ∧ a.ptr < addr + size ∧
      a.size ≤ blocksFor a.size bsize * bsize := by
  have hPtr := ha.ptr
  have hLe := h.cells_le ha.high
  have hCells : blocksFor a.size bsize * bsize ≤ max (blocksFor a.size bsize) 1 * bsize :=
    Nat.mul_le_mul_right bsize (le_max_left _ _)
  have hOne : 1 * bsize ≤ max (blocksFor a.size bsize) 1 * bsize :=
    Nat.mul_le_mul_right bsize (le_max_right _ _)
  have hHeader := h.header
  have hPos := h.pos
  refine ⟨by omega, by omega, by omega, le_blocksFor_mul a.size hPos⟩

/-- The start of the last cell is below the bound that `kfree` tests. -/
theorem below (ha : a.AtCell size bsize addr x) (h : Geometry size bsize) :
    a.ptr < addr + (size - headerSize) := by
  have hPtr := ha.ptr
  have hHigh := ha.high
  have hOne : (x + 1) * bsize ≤ scannedCells size bsize * bsize :=
    Nat.mul_le_mul_right bsize (by omega)
  have hMul := h.scanned_mul
  have hRange := h.range
  rw [Nat.succ_mul] at hOne
  omega

end Alloc.AtCell

namespace HeapRun.GeometryInv

variable {size bsize : Nat} {r : HeapRun} {pre post : KernelHeap} {b b' : KernelHeapBlockBm}

/-- **Frame.** One block is replaced by one at the same address. -/
theorem replace (hr : r.GeometryInv size bsize) (hHeap : r.heap = pre ++ b :: post)
    (hAddr : b'.addr = b.addr) (hb' : b'.HasGeometry size bsize) {live' : List Alloc}
    (hLive : ∀ a ∈ live', a ∈ r.live ∨ ∃ x, a.AtCell size bsize b.addr x) :
    GeometryInv size bsize ⟨pre ++ b' :: post, live'⟩ := by
  have hMap : (pre ++ b' :: post).map (·.addr) = r.heap.map (·.addr) := by simp [hHeap, hAddr]
  refine ⟨?_, ?_, ?_⟩
  · intro c hc
    rcases List.mem_append.mp hc with hc | hc
    · exact hr.block c (by simp [hHeap, hc])
    · rcases List.mem_cons.mp hc with rfl | hc
      · exact hb'
      · exact hr.block c (by simp [hHeap, hc])
  · rw [hMap]
    exact hr.apart
  · intro a ha
    rw [hMap]
    rcases hLive a ha with ha | ⟨x, hx⟩
    · exact hr.live a ha
    · exact ⟨b.addr, by simp [hHeap], x, hx⟩

/-- A block that shares a byte with the block at `p` is the block at `p`. -/
theorem addr_eq (hr : r.GeometryInv size bsize) (hb : b ∈ r.heap) {p q : Nat}
    (hp : p ∈ r.heap.map (·.addr)) (hpq : p ≤ q ∧ q < p + size)
    (hbq : b.addr ≤ q ∧ q < b.addr + size) : b.addr = p := by
  by_contra hne
  have : Std.Symm fun p q : Nat => p + size ≤ q ∨ q + size ≤ p := ⟨fun _ _ h => h.symm⟩
  have := hr.apart.forall (List.mem_map.mpr ⟨b, hb, rfl⟩) hp hne
  omega

/-- The cell that a `kalloc` that returns takes. -/
theorem kalloc_cell (hr : r.GeometryInv size bsize) (h : Geometry size bsize) {fuel n ptr : Nat}
    {heap' : KernelHeap} (hAlloc : Hexos.kalloc fuel r.heap n = .done (ptr, heap')) :
    ∃ pre b post x, r.heap = pre ++ b :: post ∧
      heap' = pre ++ b.take x (blocksFor n bsize) :: post ∧
      Alloc.AtCell ⟨ptr, n⟩ size bsize b.addr x := by
  obtain ⟨pre, b, post, x, hHeap, hScan, hPtr, rfl⟩ := kalloc_done hAlloc
  have hb := hr.block b (by simp [hHeap])
  have hBcnt := hb.bcnt h
  have hRoom := h.room
  rw [hb.bsize] at hScan ⊢
  have hWindow := scan_window (by omega) hScan
  have hFree : b.bm x = 0 := hWindow.2 x (le_refl x) (by omega)
  have hLe := h.cells_le (hBcnt ▸ hWindow.1)
  have hOne : 1 * bsize ≤ max (blocksFor n bsize) 1 * bsize :=
    Nat.mul_le_mul_right bsize (le_max_right _ _)
  have hAddr := hb.addr
  have hHeader := h.header
  have hPos := h.pos
  refine ⟨pre, b, post, x, hHeap, rfl, ?_, hb.reserved_le hFree, hBcnt ▸ hWindow.1⟩
  show ptr = b.addr + headerSize + x * bsize
  rw [hPtr]
  unfold KernelHeapBlockBm.cellAddr
  rw [hb.bsize, Nat.mod_eq_of_lt (by omega)]
  omega

/-- The free of a live allocation clears cells behind the bitmap. -/
theorem kfree (hr : r.GeometryInv size bsize) (h : Geometry size bsize) {a : Alloc}
    (ha : a ∈ r.live) {heap : KernelHeap} (hFree : Hexos.kfree r.heap a.ptr = .done heap) :
    GeometryInv size bsize ⟨heap, r.live.erase a⟩ := by
  obtain ⟨p, hp, x, hx⟩ := hr.live a ha
  have hIn := hx.in_block h
  rcases kfree_cases r.heap a.ptr with ⟨hPanic, -⟩ | ⟨pre, b, post, hHeap, hOwns, hDone⟩
  · rw [hPanic] at hFree
    cases hFree
  · obtain rfl : pre ++ b.release a.ptr :: post = heap := by simpa [hDone] using hFree
    have hb := hr.block b (by simp [hHeap])
    have hAddr := hb.addr
    have hHeader := h.header
    rw [hb.owns_iff h] at hOwns
    have hEq : b.addr = p :=
      hr.addr_eq (by simp [hHeap]) hp ⟨by omega, hIn.2.2.1⟩ ⟨by omega, by omega⟩
    have hIndex : b.cellIndex a.ptr = x := by
      unfold KernelHeapBlockBm.cellIndex
      have hPtr := hx.ptr
      have hOff : (a.ptr + 2 ^ 32 - (b.addr + headerSize)) % 2 ^ 32 = x * bsize := by omega
      rw [hOff, hb.bsize, Nat.mul_div_cancel x h.pos]
    exact hr.replace hHeap (b.release_addr a.ptr) (hb.release hIndex hx.low)
      (fun a' ha' => Or.inl (List.mem_of_mem_erase ha'))

/-- A byte written to a live allocation is behind the bitmap of its block. -/
theorem write (hr : r.GeometryInv size bsize) (h : Geometry size bsize) {a : Alloc}
    (ha : a ∈ r.live) {i : Nat} (hi : i < a.size) (v : UInt8) :
    GeometryInv size bsize ⟨r.heap.map (·.storeByte (a.ptr + i) v), r.live⟩ := by
  obtain ⟨p, hp, x, hx⟩ := hr.live a ha
  have hIn := hx.in_block h
  have hMap : (r.heap.map (·.storeByte (a.ptr + i) v)).map (·.addr) = r.heap.map (·.addr) := by
    simp
  refine ⟨?_, ?_, ?_⟩
  · intro c hc
    obtain ⟨b, hb, rfl⟩ := List.mem_map.mp hc
    refine (hr.block b hb).storeByte ?_
    intro hLow hHigh
    have hSize := (hr.block b hb).size
    have hPtr := hx.ptr
    have hHeader := h.header
    have hEq : b.addr = p :=
      hr.addr_eq (q := a.ptr + i) hb hp ⟨by omega, by omega⟩ ⟨by omega, by omega⟩
    have hMul : x ≤ x * bsize := Nat.le_mul_of_pos_right x h.pos
    have := hx.low
    omega
  · show ((r.heap.map (·.storeByte (a.ptr + i) v)).map (·.addr)).Pairwise _
    rw [hMap]
    exact hr.apart
  · show ∀ a' ∈ r.live, ∃ q ∈ (r.heap.map (·.storeByte (a.ptr + i) v)).map (·.addr), _
    rw [hMap]
    exact hr.live

/-- **Step lemma.** Every request keeps the geometry. -/
theorem request (hr : r.GeometryInv size bsize) (h : Geometry size bsize) {fuel : Nat} {op : HeapOp}
    {r' : HeapRun} (hs : r.request fuel op = some r') : r'.GeometryInv size bsize := by
  obtain ⟨n, ptr, heap, -, hAlloc, rfl⟩ | ⟨a, ha, heap, -, hFree, rfl⟩ |
    ⟨a, ha, i, hi, v, -, rfl⟩ := request_cases hs
  · obtain ⟨pre, b, post, x, hHeap, rfl, hx⟩ := hr.kalloc_cell h hAlloc
    have hb := hr.block b (by simp [hHeap])
    refine hr.replace hHeap (b.take_addr x _) (hb.take hx.low _) ?_
    intro a ha
    rcases List.mem_cons.mp ha with rfl | ha
    · exact Or.inr ⟨x, hx⟩
    · exact Or.inl ha
  · exact hr.kfree h ha hFree
  · exact hr.write h ha hi v

end HeapRun.GeometryInv

-- ---------------------------------------------------------------------------
-- A new block
-- ---------------------------------------------------------------------------

/-- The block that `kheap_add_block` makes. -/
def newBlock (addr size bsize : Nat) (page : Nat → UInt8) : KernelHeapBlockBm where
  addr := addr
  size := (size + 2 ^ 32 - headerSize) % 2 ^ 32
  used := reservedCells size bsize
  bsize := bsize
  lfb := (reservedCells size bsize + 2 ^ 32 - 1) % 2 ^ 32
  bm := fill (fill page 0 (size / bsize) 0) 0 (reservedCells size bsize) 5

theorem kheapAddBlock_newBlock (heap : KernelHeap) {addr : Nat} (size bsize : Nat)
    (page : Nat → UInt8) (h : addr ≠ 0) :
    kheapAddBlock heap addr size bsize page = newBlock addr size bsize page :: heap := by
  unfold kheapAddBlock
  rw [if_neg h]
  rfl

theorem HeapOf.geometryInv {size bsize : Nat} {heap : KernelHeap} (h : Geometry size bsize)
    (hHeap : HeapOf size bsize heap) : HeapRun.GeometryInv size bsize ⟨heap, []⟩ := by
  induction hHeap with
  | init => exact ⟨by simp [kheapInit], by simp [kheapInit], by simp⟩
  | @add heap addr page _ hEnd hApart ih =>
    rcases Nat.eq_zero_or_pos addr with rfl | hPos
    · have hEmpty : kheapAddBlock heap 0 size bsize page = [] := rfl
      rw [hEmpty]
      exact ⟨by simp, by simp, by simp⟩
    · rw [kheapAddBlock_newBlock heap size bsize page (by omega)]
      refine ⟨?_, ?_, by simp⟩
      · intro b hb
        rcases List.mem_cons.mp hb with rfl | hb
        · refine ⟨⟨hPos, hEnd⟩, ?_, ?_, rfl⟩
          · intro i hi
            show fill _ 0 _ 5 i ≠ 0
            rw [fill_in (by omega) (by omega)]
            decide
          · have hHeader := h.header
            have hWord := h.word
            show (size + 2 ^ 32 - headerSize) % 2 ^ 32 = size - headerSize
            unfold headerSize at *
            omega
        · exact ih.block b hb
      · rw [List.map_cons, List.pairwise_cons]
        refine ⟨?_, ih.apart⟩
        intro q hq
        obtain ⟨b, hb, rfl⟩ := List.mem_map.mp hq
        exact hApart b hb

theorem geometry_reachable {size bsize : Nat} {heap₀ : KernelHeap} (h : Geometry size bsize)
    (hHeap : HeapOf size bsize heap₀) {r : HeapRun} (hr : Reachable (requestSystem heap₀) r) :
    r.GeometryInv size bsize := by
  refine Reachable.invariant (I := HeapRun.GeometryInv size bsize) ?_ ?_ hr
  · rintro r rfl
    exact hHeap.geometryInv h
  · rintro r r' - hInv ⟨fuel, op, hs⟩
    exact hInv.request h hs

/-- **Sound geometry.** -/
theorem Geometry.ok {size bsize : Nat} (h : Geometry size bsize) : GeometryOk size bsize := by
  refine ⟨fun i hi => h.inBitmap_write hi, ?_⟩
  intro heap₀ hHeap r hr fuel n _
  have hInv := geometry_reachable h hHeap hr
  refine ⟨?_, ?_⟩
  · intro i hi
    obtain ⟨b, hb, hScan⟩ := mem_kallocTraced hi
    exact (hInv.block b hb).reads h _ fuel _ i hScan
  · intro ptr heap' hAlloc
    rw [kallocTraced_snd] at hAlloc
    obtain ⟨pre, b, post, x, hHeap', -, hx⟩ := hInv.kalloc_cell h hAlloc
    have hb := hInv.block b (by simp [hHeap'])
    have hPtr : ptr = b.addr + headerSize + x * bsize := hx.ptr
    have hEnd : b.addr + headerSize + x * bsize + blocksFor n bsize * bsize ≤ b.addr + size :=
      (hx.in_block h).1
    have hHeader : 0 < headerSize := by decide
    refine ⟨b, by simp [hHeap'], by omega, by omega, ?_⟩
    rw [hb.owns_iff h]
    exact ⟨by omega, hx.below h⟩

-- ---------------------------------------------------------------------------
-- Where the geometry fails
-- ---------------------------------------------------------------------------

theorem blocksFor_mul {bsize : Nat} (n : Nat) (hPos : 1 ≤ bsize) :
    blocksFor (n * bsize) bsize = n := by
  unfold blocksFor
  rw [Nat.mul_div_cancel n hPos, if_neg (lt_irrefl _)]

theorem countFree_eq {b : KernelHeapBlockBm} {n x : Nat}
    (hFree : ∀ i, x ≤ i → i < x + n → b.bm i = 0) (hEnd : x + n ≤ b.bcnt) :
    b.countFree n x = n := by
  by_contra hne
  have hLt : b.countFree n x < n := by
    have := countFree_le (b := b) n x
    omega
  exact countFree_stop hLt ⟨hFree _ (by omega) (by omega), by omega⟩

/-- The round at a free run that is long enough. -/
theorem tracedScan_take {b : KernelHeapBlockBm} {n x : Nat} (hx : x ≠ b.lfb) (hPos : 1 ≤ n)
    (hFree : ∀ i, x ≤ i → i < x + n → b.bm i = 0) (hEnd : x + n ≤ b.bcnt) (fuel : Nat) :
    ∃ reads, b.tracedScan n (fuel + 1) x = (reads, some (some x)) ∧
      (x : Int) ∈ reads ∧ (x : Int) + n ∈ reads := by
  have hWrap : (if x ≥ b.bcnt then 0 else x) = x := if_neg (by omega)
  rw [tracedScan, if_neg hx]
  simp only [hWrap]
  rw [if_pos (hFree x (le_refl x) (by omega)), countFree_eq hFree hEnd, if_pos rfl]
  exact ⟨_, rfl, by simp, by simp⟩

section

variable {size bsize : Nat}

theorem bcnt_newBlock (addr : Nat) (page : Nat → UInt8) :
    (newBlock addr size bsize page).bcnt = scannedCells size bsize := rfl

/-- A block at address 1 in zeroed memory. -/
def zeroBlock (size bsize : Nat) : KernelHeapBlockBm := newBlock 1 size bsize fun _ => 0

theorem zeroBlock_free {i : Nat} (hi : reservedCells size bsize ≤ i) :
    (zeroBlock size bsize).bm i = 0 := by
  show fill (fill (fun _ => 0) 0 (size / bsize) 0) 0 (reservedCells size bsize) 5 i = 0
  rw [fill_out (by omega)]
  by_cases h : i < size / bsize
  · exact fill_in (by omega) (by omega)
  · exact fill_out (by omega)

/-- The heap of this block is one that `kheap_add_block` leaves. -/
theorem zeroBlock_heap (hWord : size < 2 ^ 32) : HeapOf size bsize [zeroBlock size bsize] := by
  have hAdd : HeapOf size bsize (kheapAddBlock kheapInit 1 size bsize fun _ => 0) :=
    .add .init (by omega) (by simp [kheapInit])
  rwa [kheapAddBlock_newBlock _ size bsize _ (by omega)] at hAdd

/-- `kalloc` in a heap of one block. -/
theorem kallocTraced_one {b : KernelHeapBlockBm} {fuel n : Nat} {reads : List Int} {x : Nat}
    (hRoom : b.Room n)
    (hScan : b.tracedScan (blocksFor n b.bsize) fuel b.scanStart = (reads, some (some x))) :
    kallocTraced fuel [b] n = (reads, .done (b.cellAddr x, [b.take x (blocksFor n b.bsize)])) := by
  rw [kallocTraced]
  dsimp only
  rw [if_pos hRoom, hScan]

/-- Room for as many cells as are not in use. -/
theorem room_of_used {b : KernelHeapBlockBm} {n : Nat} (hWord : b.size < 2 ^ 32)
    (hn : b.used + n ≤ b.bcnt) : b.Room (n * b.bsize) := by
  have hBytes : b.bcnt * b.bsize ≤ b.size := Nat.div_mul_le_self _ _
  have hMul := Nat.mul_le_mul_right b.bsize hn
  rw [Nat.add_mul] at hMul
  unfold KernelHeapBlockBm.Room
  rw [Nat.mod_eq_of_lt (b := 2 ^ 32) (a := b.used * b.bsize) (by omega)]
  omega

/-- A block at address 1 with only the last of its cells free. -/
structure LastFree (size bsize : Nat) (b : KernelHeapBlockBm) : Prop where
  addr  : b.addr = 1
  lfb   : b.lfb = scannedCells size bsize - 3
  used  : b.used = scannedCells size bsize - 1
  busy  : b.bm (scannedCells size bsize - 2) ≠ 0
  free  : b.bm (scannedCells size bsize - 1) = 0
  size  : b.size = (size + 2 ^ 32 - headerSize) % 2 ^ 32
  bsize : b.bsize = bsize

variable (hPos : 1 ≤ bsize) (hRoom : reservedCells size bsize < scannedCells size bsize)

include hPos hRoom

/-- The first allocation starts at the first cell that is not reserved. -/
theorem zeroBlock_alloc {n : Nat} (hn : 1 ≤ n)
    (hEnd : reservedCells size bsize + n ≤ scannedCells size bsize) :
    ∃ reads, kallocTraced 1 [zeroBlock size bsize] (n * bsize) =
        (reads, .done ((zeroBlock size bsize).cellAddr (reservedCells size bsize),
          [(zeroBlock size bsize).take (reservedCells size bsize) n])) ∧
      (reservedCells size bsize : Int) ∈ reads ∧
      (reservedCells size bsize : Int) + n ∈ reads := by
  have hWord : (zeroBlock size bsize).size < 2 ^ 32 := Nat.mod_lt _ (by omega)
  have hBcnt : (zeroBlock size bsize).bcnt = scannedCells size bsize := bcnt_newBlock _ _
  have hLt : scannedCells size bsize < 2 ^ 32 :=
    lt_of_le_of_lt (Nat.div_le_self _ _) (Nat.mod_lt _ (by omega))
  have hLfb : (zeroBlock size bsize).lfb = (reservedCells size bsize + 2 ^ 32 - 1) % 2 ^ 32 := rfl
  have hStart : (zeroBlock size bsize).scanStart = reservedCells size bsize := by
    unfold scanStart
    rw [hBcnt, hLfb, if_neg (by omega)]
    omega
  have hNe : reservedCells size bsize ≠ (zeroBlock size bsize).lfb := by
    rw [hLfb]
    omega
  obtain ⟨reads, hScan, hFirst, hLast⟩ := tracedScan_take hNe hn
    (fun i hi _ => zeroBlock_free hi) (by rw [hBcnt]; exact hEnd) 0
  have hCells : blocksFor (n * bsize) (zeroBlock size bsize).bsize = n := blocksFor_mul n hPos
  refine ⟨reads, ?_, hFirst, hLast⟩
  have hRoomFor : (zeroBlock size bsize).Room (n * bsize) :=
    room_of_used (b := zeroBlock size bsize) hWord (by rw [hBcnt]; exact hEnd)
  rw [kallocTraced_one hRoomFor (by rw [hCells, hStart]; exact hScan), hCells]

omit hPos hRoom in
/-- The size of a request for scanned cells is a 32-bit number. -/
theorem cells_word {n : Nat} (hn : n ≤ scannedCells size bsize) : n * bsize < 2 ^ 32 := by
  have hMul := Nat.mul_le_mul_right bsize hn
  have hBytes : scannedCells size bsize * bsize ≤ (size + 2 ^ 32 - headerSize) % 2 ^ 32 :=
    Nat.div_mul_le_self _ _
  have hWord := Nat.mod_lt (size + 2 ^ 32 - headerSize) (y := 2 ^ 32) (by omega)
  omega

/-- What the first allocation of `n` cells reads, when the geometry holds
together. -/
theorem GeometryOk.first_reads (h : GeometryOk size bsize) (hWord : size < 2 ^ 32) {n : Nat}
    (hn : 1 ≤ n) (hEnd : reservedCells size bsize + n ≤ scannedCells size bsize) :
    InBitmap size bsize (reservedCells size bsize) ∧
      InBitmap size bsize ((reservedCells size bsize : Int) + n) := by
  obtain ⟨reads, hAlloc, hFirst, hLast⟩ := zeroBlock_alloc hPos hRoom hn hEnd
  obtain ⟨hReads, -⟩ := h.2 _ (zeroBlock_heap hWord) ⟨_, []⟩ (.init rfl) 1 (n * bsize)
    (cells_word (Nat.le_of_add_left_le hEnd))
  rw [hAlloc] at hReads
  exact ⟨hReads _ hFirst, hReads _ hLast⟩

/-- The header fits: otherwise every cell is outside the block. -/
theorem GeometryOk.header (h : GeometryOk size bsize) (hWord : size < 2 ^ 32) :
    headerSize ≤ size := by
  obtain ⟨-, hInside, -⟩ := (h.first_reads hPos hRoom hWord (le_refl 1) (by omega)).1
  omega

/-- A request for all cells reads the byte after their bitmap. -/
theorem GeometryOk.bitmap (h : GeometryOk size bsize) (hWord : size < 2 ^ 32) :
    (size - headerSize) / bsize < reservedCells size bsize * bsize := by
  have hHeader := h.header hPos hRoom hWord
  obtain ⟨-, -, hReserved⟩ := (h.first_reads hPos hRoom hWord
    (n := scannedCells size bsize - reservedCells size bsize) (by omega) (by omega)).2
  rw [← Geometry.scannedCells_eq hWord hHeader]
  omega

omit hPos hRoom in
theorem scannedCells_lt : scannedCells size bsize < 2 ^ 32 :=
  lt_of_le_of_lt (Nat.div_le_self _ _) (Nat.mod_lt _ (by omega))

omit hRoom in
/-- `kalloc` of one cell, in a block with only the last cell free. -/
theorem LastFree.kalloc {b : KernelHeapBlockBm} (h : LastFree size bsize b)
    (hMore : 3 ≤ scannedCells size bsize) :
    ∃ heap', Hexos.kalloc 2 [b] bsize =
      .done ((zeroBlock size bsize).cellAddr (scannedCells size bsize - 1), heap') := by
  have hLt : scannedCells size bsize < 2 ^ 32 := scannedCells_lt
  have hBcnt : b.bcnt = scannedCells size bsize := by
    unfold KernelHeapBlockBm.bcnt scannedCells
    rw [h.size, h.bsize]
  have hLfb := h.lfb
  have hUsed := h.used
  have hStart : b.scanStart = scannedCells size bsize - 2 := by
    unfold scanStart
    rw [hBcnt, hLfb, if_neg (by omega)]
    omega
  -- the scan passes the cell in use and comes to the last one
  have hFree : ∀ i, scannedCells size bsize - 1 ≤ i → i < scannedCells size bsize - 1 + 1 →
      b.bm i = 0 := by
    intro i hi hi'
    obtain rfl : i = scannedCells size bsize - 1 := by omega
    exact h.free
  obtain ⟨reads, hLast, -⟩ :=
    tracedScan_take (n := 1) (b := b) (x := scannedCells size bsize - 1)
    (by omega) (le_refl 1) hFree (by omega) 0
  have hScan : (b.tracedScan 1 2 b.scanStart).2 = some (some (scannedCells size bsize - 1)) := by
    have hWrap :
        (if scannedCells size bsize - 2 ≥ b.bcnt then 0 else scannedCells size bsize - 2) =
        scannedCells size bsize - 2 := if_neg (by omega)
    have hNext : scannedCells size bsize - 2 + 1 = scannedCells size bsize - 1 := by omega
    rw [hStart, tracedScan, if_neg (by omega)]
    simp only [hWrap]
    rw [Nat.zero_add] at hLast
    rw [if_neg h.busy, hNext, hLast]
  have hRoomFor : b.Room bsize := by
    have hOne := room_of_used (b := b) (n := 1) (by rw [h.size]; exact Nat.mod_lt _ (by omega))
      (by omega)
    rwa [h.bsize, Nat.one_mul] at hOne
  have hCells : blocksFor bsize b.bsize = 1 := by
    have hOne := blocksFor_mul 1 hPos
    rw [Nat.one_mul] at hOne
    rw [h.bsize, hOne]
  have hCell : b.cellAddr (scannedCells size bsize - 1) =
      (zeroBlock size bsize).cellAddr (scannedCells size bsize - 1) := by
    have hAddr : (zeroBlock size bsize).addr = 1 := rfl
    have hBsize : (zeroBlock size bsize).bsize = bsize := rfl
    unfold KernelHeapBlockBm.cellAddr
    rw [h.addr, h.bsize, hAddr, hBsize]
  refine ⟨[b.take (scannedCells size bsize - 1) 1], ?_⟩
  rw [← kallocTraced_snd, kallocTraced_one (x := scannedCells size bsize - 1) hRoomFor
    (Prod.ext rfl (by rw [hCells]; exact hScan)), hCells, hCell]

omit hPos hRoom in
/-- All cells but the last one are taken at once. -/
theorem zeroBlock_lastFree (hReserved : 1 ≤ reservedCells size bsize)
    (hMore : reservedCells size bsize + 1 < scannedCells size bsize) :
    LastFree size bsize ((zeroBlock size bsize).take (reservedCells size bsize)
      (scannedCells size bsize - 1 - reservedCells size bsize)) := by
  have hLt : scannedCells size bsize < 2 ^ 32 := scannedCells_lt
  obtain ⟨m, hm⟩ : ∃ m, m = scannedCells size bsize - 1 - reservedCells size bsize :=
    ⟨_, rfl⟩
  rw [← hm]
  refine ⟨take_addr _ _ _, ?_, ?_, ?_, ?_, take_size _ _ _, take_bsize _ _ _⟩
  · unfold KernelHeapBlockBm.take
    show (reservedCells size bsize + m + 2 ^ 32 - 2) % 2 ^ 32 = _
    omega
  · unfold KernelHeapBlockBm.take
    show (reservedCells size bsize + m) % 2 ^ 32 = _
    omega
  · unfold KernelHeapBlockBm.take
    show fill _ _ m _ (scannedCells size bsize - 2) ≠ 0
    rw [fill_in (by omega) (by omega)]
    exact (kheapGetNid_spec _ _).1
  · unfold KernelHeapBlockBm.take
    show fill _ _ m _ (scannedCells size bsize - 1) = 0
    rw [fill_out (by omega)]
    exact zeroBlock_free (by omega)

/-- Some run hands out the last cell: the cells before it are allocated at once,
if there are any, and the next request gets it. -/
theorem zeroBlock_last_cell (hReserved : 1 ≤ reservedCells size bsize) :
    ∃ r b fuel, Reachable (requestSystem [zeroBlock size bsize]) r ∧ r.heap = [b] ∧
      b.addr = 1 ∧ b.size = (size + 2 ^ 32 - headerSize) % 2 ^ 32 ∧
      ∃ heap', kalloc fuel r.heap bsize =
        .done ((zeroBlock size bsize).cellAddr (scannedCells size bsize - 1), heap') := by
  rcases Nat.lt_or_ge (reservedCells size bsize + 1) (scannedCells size bsize) with hMore | hOne
  · have hLast := zeroBlock_lastFree hReserved hMore
    obtain ⟨m, hm⟩ : ∃ m, m = scannedCells size bsize - 1 - reservedCells size bsize :=
      ⟨_, rfl⟩
    rw [← hm] at hLast
    obtain ⟨reads, hAlloc, -⟩ := zeroBlock_alloc hPos hRoom (n := m) (by omega) (by omega)
    have hAlloc' := congrArg Prod.snd hAlloc
    rw [kallocTraced_snd] at hAlloc'
    have hBytes : 1 ≤ m * bsize := Nat.mul_pos (by omega) hPos
    have hWord : m * bsize < 2 ^ 32 := cells_word (show m ≤ scannedCells size bsize by omega)
    have hStep :=
      HeapRun.request_kalloc (r := ⟨[zeroBlock size bsize], []⟩) hBytes hWord hAlloc'
    exact ⟨_, _, 2, .step (.init rfl) ⟨1, _, hStep⟩, rfl, hLast.addr, hLast.size,
      hLast.kalloc hPos (by omega)⟩
  · -- the first cell is the last one
    obtain ⟨reads, hAlloc, -⟩ := zeroBlock_alloc hPos hRoom (n := 1) (le_refl 1) (by omega)
    have hAlloc' := congrArg Prod.snd hAlloc
    rw [kallocTraced_snd, Nat.one_mul] at hAlloc'
    have hFirst : reservedCells size bsize = scannedCells size bsize - 1 := by omega
    rw [hFirst] at hAlloc'
    exact ⟨⟨[zeroBlock size bsize], []⟩, zeroBlock size bsize, 1, .init rfl, rfl, rfl, rfl,
      _, hAlloc'⟩

/-- The last cell passes the test of `kfree`. -/
theorem GeometryOk.range (h : GeometryOk size bsize) (hWord : size < 2 ^ 32) :
    headerSize < (size - headerSize) % bsize + bsize := by
  have hHeader := h.header hPos hRoom hWord
  have hBitmap := h.bitmap hPos hRoom hWord
  have hReserved : 1 ≤ reservedCells size bsize := by
    rcases Nat.eq_zero_or_pos (reservedCells size bsize) with h0 | h0
    · rw [h0, Nat.zero_mul] at hBitmap
      exact absurd hBitmap (Nat.not_lt_zero _)
    · exact h0
  obtain ⟨r, b, fuel, hr, hHeap, hAddr, hSize, heap', hAlloc⟩ :=
    zeroBlock_last_cell hPos hRoom hReserved
  have hBsize : bsize < 2 ^ 32 := by
    have hCell : 1 * bsize < 2 ^ 32 := cells_word (show 1 ≤ scannedCells size bsize by omega)
    omega
  obtain ⟨-, hReturns⟩ := h.2 _ (zeroBlock_heap hWord) r hr fuel bsize hBsize
  rw [← kallocTraced_snd] at hAlloc
  obtain ⟨c, hc, -, -, -, hOwns⟩ := hReturns _ _ hAlloc
  obtain rfl : c = b := by simpa [hHeap] using hc
  -- the last cell starts `bsize` bytes before the end of the scanned ones
  have hCells : scannedCells size bsize = (size - headerSize) / bsize :=
    Geometry.scannedCells_eq hWord hHeader
  have hDiv := Nat.div_add_mod' (size - headerSize) bsize
  have hMul : (scannedCells size bsize - 1) * bsize + bsize =
      (size - headerSize) / bsize * bsize := by
    rw [← hCells, ← Nat.succ_mul]
    congr 1
    omega
  have hPtr : (zeroBlock size bsize).cellAddr (scannedCells size bsize - 1) =
      1 + headerSize + (scannedCells size bsize - 1) * bsize := by
    show ((scannedCells size bsize - 1) * bsize + (1 + headerSize)) % 2 ^ 32 = _
    rw [Nat.mod_eq_of_lt (by omega)]
    omega
  rw [hPtr, hAddr, hSize] at hOwns
  unfold headerSize at *
  omega

end

/-- **Heap geometry.** Take a pair for which a block has an allocatable cell. The
geometry holds together exactly when the header fits, the last cell starts below
the bound that `kfree` tests, and the byte that `kalloc` reads after the bitmap
of its cells is a reserved one. -/
theorem heap_geometry_iff (size bsize : Nat) (hWord : size < 2 ^ 32) (hPos : 1 ≤ bsize)
    (hRoom : reservedCells size bsize < scannedCells size bsize) :
    GeometryOk size bsize ↔
      headerSize ≤ size ∧ headerSize < (size - headerSize) % bsize + bsize ∧
        (size - headerSize) / bsize < reservedCells size bsize * bsize := by
  constructor
  · intro h
    exact ⟨h.header hPos hRoom hWord, h.range hPos hRoom hWord, h.bitmap hPos hRoom hWord⟩
  · rintro ⟨hHeader, hRange, hBitmap⟩
    exact Geometry.ok ⟨hWord, hPos, hRoom, hHeader, hRange, hBitmap⟩

/-- The pages of `main_heap_init`. -/
theorem heap_geometry_page : reservedCells 4096 16 = 16 ∧ scannedCells 4096 16 = 254 ∧
    GeometryOk 4096 16 :=
  ⟨by decide, by decide, (heap_geometry_iff 4096 16 (by omega) (by omega) (by decide)).mpr
    (by decide)⟩

/-- With cells of 8 bytes the last cells of a page start at or above the bound
that `kfree` tests. -/
theorem heap_geometry_small_cells : reservedCells 4096 8 = 64 ∧ scannedCells 4096 8 = 509 ∧
    ¬ GeometryOk 4096 8 := by
  refine ⟨by decide, by decide, ?_⟩
  intro h
  have hRange := h.range (by omega) (by decide) (by omega)
  revert hRange
  decide

end Hexos
