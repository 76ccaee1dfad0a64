import Hexos.Mem.Physical

/-!
# HexOS — the addresses of the freemap bits

`memory_alloc_page` turns a bit of the freemap into an address by a shift in 32
bits, `memory_free_page` goes back by the difference of two pointers, a signed
word. The freemap that `mem_init` sizes may have up to `2^30` bits: the shift
loses the page numbers from `2^20` on, and the way back is wrong from `2^19` on.

## Results

* `pageNumberOf_bitAddr` — the way back from the address of a bit.
* `bitAddr_eq_iff` — which bits share an address.
* `page_round_trip_iff` — for which bits, and for which sizes of the memory, the
  round trip holds.
-/

namespace Hexos

-- ---------------------------------------------------------------------------
-- Addresses
-- ---------------------------------------------------------------------------

/-- The address that `memory_alloc_page` computes for the bit number `n`. -/
def bitAddr (n : Nat) : Nat := (n % 2 ^ 32 * pageSize % 2 ^ 32 + allocMemoryStart) % 2 ^ 32

/-- **Back from the address.** -/
theorem pageNumberOf_bitAddr {n : Nat} (hn : n < 2 ^ 30) :
    PageMem.pageNumberOf (bitAddr n) = n ↔ n < 2 ^ 19 := by
  have hDiff : (bitAddr n + 2 ^ 32 - allocMemoryStart) % 2 ^ 32 = n % 2 ^ 20 * 4096 := by
    simp only [bitAddr, allocMemoryStart, pageSize]
    omega
  unfold PageMem.pageNumberOf
  simp only [hDiff]
  by_cases hLow : n % 2 ^ 20 * 4096 < 2 ^ 31
  · rw [if_pos hLow]
    omega
  · rw [if_neg hLow]
    omega

/-- Two bits share an address when they are a multiple of `2^20` apart. -/
theorem bitAddr_eq_iff {n k : Nat} : bitAddr n = bitAddr k ↔ n % 2 ^ 20 = k % 2 ^ 20 := by
  simp only [bitAddr, allocMemoryStart, pageSize]
  omega

-- ---------------------------------------------------------------------------
-- Round trips
-- ---------------------------------------------------------------------------

/-- The number of freemap cells that `mem_init` computes for `U` bytes of usable
memory. -/
def freemapCellsOf (U : Nat) : Nat :=
  { MemVars.start with usableMemorySize := U }.sized.freemapCells

theorem freemapCellsOf_eq (U : Nat) : freemapCellsOf U = 1 + 8 * (U % 2 ^ 22) := by
  simp only [freemapCellsOf, MemVars.sized, pageSize, cellBits]
  omega

/-- Some call returns the address `p` for the bit `j` of the cell `i`, with a freemap
of that size. -/
def Returned (U i j p : Nat) : Prop :=
  ∃ (g : MemVars) (m : Mem) (zeroit : Bool) (g' : MemVars) (m' : Mem),
    g.freemap = allocMemoryStart ∧ g.freemapCells = freemapCellsOf U ∧
    PageMem.scanCells (g.cell m) g.freemapCells 0 = some (i, j) ∧
    g.memoryAllocPage m zeroit = .done (p, g', m')

/-- The address of the bit is that of no other bit, and freeing it sets exactly this
bit, whatever the memory holds. -/
def RoundTrips (U i j : Nat) : Prop :=
  ∀ p, Returned U i j p →
    (∀ i' j' p', Returned U i' j' p' → (i', j') ≠ (i, j) → p' ≠ p) ∧
    ∀ (g : MemVars) (m : Mem), g.freemap = allocMemoryStart →
      g.freemapCells = freemapCellsOf U →
      (g.memoryFreePage m p).2 = g.setCell m i (g.cell m i ||| 1#32 <<< j)

variable {U i j p : Nat}

/-- Every bit of the freemap has its address. -/
theorem returned_iff :
    Returned U i j p ↔ i < freemapCellsOf U ∧ j < 32 ∧ p = bitAddr (i * 32 + j) := by
  constructor
  · rintro ⟨g, m, zeroit, g', m', hFreemap, hCells, hScan, hAlloc⟩
    obtain ⟨i', j', hScan', hp, -⟩ :=
      MemVars.memoryAllocPage_done (by rw [hFreemap]; decide) hAlloc
    obtain ⟨rfl, rfl⟩ : i = i' ∧ j = j' := by simpa using hScan.symm.trans hScan'
    obtain ⟨hi, hj, -⟩ := PageMem.scanCells_some (m := g.toPageMem m) hScan
    refine ⟨by omega, hj, ?_⟩
    unfold bitAddr
    exact hp
  · rintro ⟨hi, hj, hAddr⟩
    -- a freemap in which no other bit is set
    let g : MemVars := { MemVars.start with
      freemap := allocMemoryStart
      freemapCells := freemapCellsOf U }
    let zeroed : Mem := fun _ => 0
    let m := g.setCell zeroed i (g.cell zeroed i ||| 1#32 <<< j)
    have hBit : ∀ n, (g.toPageMem m).bit n = decide (n = i * 32 + j) := by
      intro n
      rw [PageMem.bit_set (m := g.toPageMem zeroed) hj (MemVars.cell_setCell g zeroed i _) n]
      have hZero : (g.toPageMem zeroed).bit n = false := BitVec.getLsbD_zero
      rw [hZero, Bool.false_or]
    have hPages : i * 32 + j < (g.toPageMem m).pages := by
      show i * 32 + j < freemapCellsOf U * 32
      omega
    obtain ⟨p', g', m', hAlloc⟩ :=
      MemVars.memoryAllocPage_returns (show allocMemoryStart ≠ 0 by decide)
      hPages (by rw [hBit]; exact decide_eq_true rfl) false
    obtain ⟨i', j', hScan, hp, -⟩ :=
      MemVars.memoryAllocPage_done (show allocMemoryStart ≠ 0 by decide) hAlloc
    obtain ⟨-, hj', hSet, -⟩ := PageMem.scanCells_some (m := g.toPageMem m) hScan
    rw [hBit, decide_eq_true_eq, cellBits] at hSet
    obtain ⟨rfl, rfl⟩ : i' = i ∧ j' = j := by omega
    refine ⟨g, m, false, g', m', rfl, rfl, hScan, ?_⟩
    rw [hAlloc, hp, hAddr]
    rfl

/-- The bits of a memory of zeros in which one bit has been set. -/
theorem bit_setCell_zeroed (g : MemVars) (n k : Nat) :
    (g.toPageMem
      (g.setCell (fun _ => 0) (n / 32) (g.cell (fun _ => 0) (n / 32) ||| 1#32 <<< (n % 32)))).bit
      k = decide (k = n) := by
  have hZero : (g.toPageMem fun _ => 0).bit k = false := BitVec.getLsbD_zero
  rw [PageMem.bit_set (m := g.toPageMem fun _ => 0) (Nat.mod_lt n (by omega))
    (MemVars.cell_setCell g _ _ _) k, hZero, Bool.false_or, Nat.div_add_mod']

/-- A free sets the bit that the address leads back to. -/
theorem memoryFreePage_sets_iff (g : MemVars) {n : Nat} (hn : n < 2 ^ 30) :
    (∀ m, (g.memoryFreePage m (bitAddr n)).2 =
      g.setCell m (n / 32) (g.cell m (n / 32) ||| 1#32 <<< (n % 32))) ↔ n < 2 ^ 19 := by
  rw [← pageNumberOf_bitAddr hn]
  constructor
  · intro h
    -- in a memory of zeros the bit set shows which one it was
    have hBit := congrArg (fun m => (g.toPageMem m).bit n) (h fun _ => 0)
    unfold MemVars.memoryFreePage at hBit
    simp only [cellBits, bit_setCell_zeroed, decide_true, decide_eq_true_eq] at hBit
    exact hBit.symm
  · intro hBack m
    unfold MemVars.memoryFreePage
    simp only [hBack, cellBits]

/-- One bit. -/
theorem roundTrips_iff (hi : i < freemapCellsOf U) (hj : j < 32) :
    RoundTrips U i j ↔ i * 32 + j < 2 ^ 19 ∧ freemapCellsOf U * 32 ≤ i * 32 + j + 2 ^ 20 := by
  have hSize := freemapCellsOf_eq U
  have hn : i * 32 + j < 2 ^ 30 := by omega
  have hCell : (i * 32 + j) / 32 = i := by omega
  have hOffset : (i * 32 + j) % 32 = j := by omega
  constructor
  · intro h
    obtain ⟨hApart, hFree⟩ := h _ (returned_iff.mpr ⟨hi, hj, rfl⟩)
    let g : MemVars := { MemVars.start with
      freemap := allocMemoryStart
      freemapCells := freemapCellsOf U }
    refine ⟨(memoryFreePage_sets_iff g hn).mp ?_, ?_⟩
    · intro m
      rw [hCell, hOffset]
      exact hFree g m rfl rfl
    · by_contra hMore
      -- the bit `2^20` further on has the same address
      refine hApart (i + 2 ^ 15) j _ (returned_iff.mpr ⟨by omega, hj, rfl⟩) ?_
        (bitAddr_eq_iff.mpr (by omega))
      rw [Ne, Prod.mk.injEq]
      omega
  · rintro ⟨hLow, hAll⟩ p hp
    obtain ⟨-, -, hAddr⟩ := returned_iff.mp hp
    rw [hAddr]
    refine ⟨fun i' j' p' hp' hNe hEq => hNe ?_, fun g m _ _ => ?_⟩
    · obtain ⟨hi', hj', hAddr'⟩ := returned_iff.mp hp'
      have hMod := bitAddr_eq_iff.mp (hAddr'.symm.trans hEq)
      rw [Prod.mk.injEq]
      omega
    · have hSet := (memoryFreePage_sets_iff g hn).mpr hLow m
      rwa [hCell, hOffset] at hSet

/-- **Round trip.** Exactly the bits below `2^19` whose address no later bit shares
make the round trip, and all bits of the freemap do exactly when the usable memory
is less than 2 KiB above a multiple of 4 MiB. -/
theorem page_round_trip_iff (U : Nat) :
    (∀ i j, i < freemapCellsOf U → j < 32 → (RoundTrips U i j ↔
      i * 32 + j < 2 ^ 19 ∧ freemapCellsOf U * 32 ≤ i * 32 + j + 2 ^ 20)) ∧
    ((∀ i j, i < freemapCellsOf U → j < 32 → RoundTrips U i j) ↔ U % 2 ^ 22 < 2 ^ 11) := by
  have hSize := freemapCellsOf_eq U
  refine ⟨fun i j hi hj => roundTrips_iff hi hj, ?_,
    fun h i j hi hj => (roundTrips_iff hi hj).mpr ⟨by omega, by omega⟩⟩
  intro h
  by_contra hLarge
  have hFirst := h (2 ^ 14) 0 (by omega) (by omega)
  have := ((roundTrips_iff (by omega) (by omega)).mp hFirst).1
  omega

/-- With 2 KiB of usable memory the freemap has 16385 cells. The page of the first
bit of the last one is at `0x80100000`, and freeing it writes to what would be cell
`0x7FFC000`. -/
theorem page_free_misses_bit :
    freemapCellsOf 2048 = 16385 ∧ Returned 2048 16384 0 0x80100000 ∧
    ¬ RoundTrips 2048 16384 0 ∧
      ∀ (g : MemVars) (m : Mem), (g.memoryFreePage m 0x80100000).2 =
        g.setCell m 0x7FFC000 (g.cell m 0x7FFC000 ||| 1#32 <<< 0) := by
  have hSize : freemapCellsOf 2048 = 16385 := (freemapCellsOf_eq 2048).trans (by omega)
  refine ⟨hSize, returned_iff.mpr ⟨by omega, by omega, rfl⟩, ?_, fun g m => rfl⟩
  intro h
  have := ((roundTrips_iff (by omega) (by omega)).mp h).1
  omega

end Hexos
