import Hexos.Heap.Block
import Hexos.Mem.Pages
import Mathlib.Data.List.Perm.Basic

/-!
# HexOS — heap safety over whole runs

Clients call `kalloc` and `kfree` in any order and write inside what they
hold. The blocks are disjoint pages, so a pointer belongs to one block, and the
invariant of the heap is the invariant of each block with the live allocations
it owns.

## Results

* `HeapInit.inv` — the heap after `kheap_add_block` calls.
* `mainHeapInit_init` — the heap of `main_heap_init` is such a heap.
* `HeapRun.Inv.exec` — every operation of a client keeps the invariant.
* `heap_run_safety` — live ranges are disjoint and in their pages, frees are
  exact and `used` counts, in every reachable state.
-/

namespace Hexos

open Transition KernelHeapBlockBm

-- ---------------------------------------------------------------------------
-- The walks over the list of blocks
-- ---------------------------------------------------------------------------

/-- A `kalloc` that returns took the cells its scan found in one block. -/
theorem kalloc_done {fuel size ptr : Nat} {heap heap' : KernelHeap}
    (h : kalloc fuel heap size = .done (ptr, heap')) :
    ∃ pre b post x, heap = pre ++ b :: post ∧
      b.kallocScan (blocksFor size b.bsize) fuel b.scanStart = some (some x) ∧
      ptr = b.cellAddr x ∧ heap' = pre ++ b.take x (blocksFor size b.bsize) :: post := by
  induction heap generalizing heap' with
  | nil => simp [kalloc] at h
  | cons b bs ih =>
    -- the block is left as it is and the walk goes on
    have hNext : (kalloc fuel bs size).map (fun r => (r.1, b :: r.2)) = .done (ptr, heap') →
        ∃ pre c post x, b :: bs = pre ++ c :: post ∧
          c.kallocScan (blocksFor size c.bsize) fuel c.scanStart = some (some x) ∧
          ptr = c.cellAddr x ∧ heap' = pre ++ c.take x (blocksFor size c.bsize) :: post := by
      intro hMap
      obtain ⟨⟨p, bs'⟩, hTail, hEq⟩ := Outcome.map_eq_done.mp hMap
      obtain ⟨rfl, rfl⟩ : p = ptr ∧ b :: bs' = heap' := by simpa using hEq
      obtain ⟨pre, c, post, x, rfl, hScan, hPtr, rfl⟩ := ih hTail
      exact ⟨b :: pre, c, post, x, rfl, hScan, hPtr, rfl⟩
    rw [kalloc] at h
    dsimp only at h
    split at h
    · split at h
      · cases h
      · next x hScan =>
        obtain ⟨rfl, rfl⟩ : b.cellAddr x = ptr ∧
            b.take x (blocksFor size b.bsize) :: bs = heap' := by simpa using h
        exact ⟨[], b, bs, x, rfl, hScan, rfl, rfl⟩
      · exact hNext h
    · exact hNext h

/-- `kfree` works on the first block that owns the pointer. -/
theorem kfree_eq {pre post : KernelHeap} {b : KernelHeapBlockBm} {ptr : Nat}
    (hPre : ∀ c ∈ pre, ¬ c.Owns ptr) (hOwns : b.Owns ptr) :
    kfree (pre ++ b :: post) ptr = .done (pre ++ b.release ptr :: post) := by
  induction pre with
  | nil =>
    unfold kfree
    exact if_pos hOwns
  | cons c pre ih =>
    have hTail := ih fun d hd => hPre d (List.mem_cons_of_mem c hd)
    rw [List.cons_append, kfree, if_neg (hPre c List.mem_cons_self), hTail]
    rfl

-- ---------------------------------------------------------------------------
-- The invariant
-- ---------------------------------------------------------------------------

namespace HeapRun

/-- The live allocations that a block owns. -/
def liveIn (r : HeapRun) (b : KernelHeapBlockBm) : List Alloc := r.live.filter fun a => b.Owns a.ptr

/-- The blocks are distinct pages, each with its live allocations; every live
allocation is in some block, apart from the others. -/
structure Inv (r : HeapRun) : Prop where
  block    : ∀ b ∈ r.heap, BlockInv b (r.liveIn b)
  distinct : r.heap.Pairwise fun b c => b.addr ≠ c.addr
  owned    : ∀ a ∈ r.live, ∃ b ∈ r.heap, b.Owns a.ptr
  apart    : r.live.Pairwise Alloc.Apart

variable {r : HeapRun} {pre post : KernelHeap} {b : KernelHeapBlockBm}

/-- Pages with different addresses do not own the same pointer. -/
theorem not_owns {c : KernelHeapBlockBm} {as bs : List Alloc} {p : Nat} (hb : BlockInv b as)
    (hc : BlockInv c bs) (hne : c.addr ≠ b.addr) (hOwns : b.Owns p) : ¬ c.Owns p :=
  hb.isPage.not_owns hc.isPage hne hOwns

/-- Allocations in two pages are apart. -/
theorem apart_of_addr_ne {c : KernelHeapBlockBm} {as bs : List Alloc} {a a' : Alloc}
    (hb : BlockInv b as) (hc : BlockInv c bs) (hne : c.addr ≠ b.addr)
    (ha : b.addr + 276 ≤ a.ptr ∧ a.ptr + 16 * a.cells ≤ b.addr + 4084)
    (ha' : c.addr + 276 ≤ a'.ptr ∧ a'.ptr + 16 * a'.cells ≤ c.addr + 4084) : a.Apart a' := by
  obtain ⟨k, hk⟩ := hb.aligned
  obtain ⟨l, hl⟩ := hc.aligned
  simp only [pageSize] at hk hl
  unfold Alloc.Apart
  omega

namespace Inv

theorem ne_of_split (h : r.Inv) (hHeap : r.heap = pre ++ b :: post) {c : KernelHeapBlockBm}
    (hc : c ∈ pre ∨ c ∈ post) : c.addr ≠ b.addr := by
  have hPairs := h.distinct
  rw [hHeap, List.pairwise_append, List.pairwise_cons] at hPairs
  obtain ⟨-, ⟨hPost, -⟩, hPre⟩ := hPairs
  rcases hc with hc | hc
  · exact hPre c hc b List.mem_cons_self
  · exact (hPost c hc).symm

/-- **Frame.** One block is replaced by one at the same address. The other
blocks keep their allocations when those that came or went are in this one. -/
theorem replace (h : r.Inv) (hHeap : r.heap = pre ++ b :: post) {b' : KernelHeapBlockBm}
    {live' : List Alloc} (hAddr : b'.addr = b.addr)
    (hBlock : BlockInv b' (live'.filter fun a => b'.Owns a.ptr))
    (hOther : ∀ c ∈ r.heap, c.addr ≠ b.addr →
      (r.liveIn c).Perm (live'.filter fun a => c.Owns a.ptr))
    (hLive : ∀ a ∈ live', a ∈ r.live ∨ b.Owns a.ptr) (hApart : live'.Pairwise Alloc.Apart) :
    Inv ⟨pre ++ b' :: post, live'⟩ := by
  have hMem : b ∈ r.heap := by simp [hHeap]
  have hSame : ∀ p, b.Owns p ↔ b'.Owns p := by
    intro p
    rw [(h.block b hMem).owns_iff, hBlock.owns_iff, hAddr]
  refine ⟨?_, ?_, ?_, hApart⟩
  · intro c hc
    have hRest : c ∈ pre ∨ c ∈ post → BlockInv c (live'.filter fun a => c.Owns a.ptr) := by
      intro hc
      have hcHeap : c ∈ r.heap := by
        rcases hc with hc | hc <;> simp [hHeap, hc]
      exact (h.block c hcHeap).perm (hOther c hcHeap (h.ne_of_split hHeap hc))
    rcases List.mem_append.mp hc with hc | hc
    · exact hRest (Or.inl hc)
    · rcases List.mem_cons.mp hc with rfl | hc
      · exact hBlock
      · exact hRest (Or.inr hc)
  · have hPairs := h.distinct
    rw [hHeap, List.pairwise_append, List.pairwise_cons] at hPairs
    obtain ⟨hPre, ⟨hPost, hTail⟩, hCross⟩ := hPairs
    refine List.pairwise_append.mpr ⟨hPre, List.pairwise_cons.mpr ⟨?_, hTail⟩, ?_⟩
    · rw [hAddr]
      exact hPost
    · intro c hc d hd
      rcases List.mem_cons.mp hd with rfl | hd
      · rw [hAddr]
        exact hCross c hc b List.mem_cons_self
      · exact hCross c hc d (List.mem_cons_of_mem b hd)
  · intro a ha
    have hNew : b.Owns a.ptr → ∃ c ∈ pre ++ b' :: post, c.Owns a.ptr := fun hOwns =>
      ⟨b', by simp, (hSame a.ptr).mp hOwns⟩
    rcases hLive a ha with ha | hOwns
    · obtain ⟨c, hc, hOwns⟩ := h.owned a ha
      rw [hHeap, List.mem_append, List.mem_cons] at hc
      rcases hc with hc | rfl | hc
      · exact ⟨c, by simp [hc], hOwns⟩
      · exact hNew hOwns
      · exact ⟨c, by simp [hc], hOwns⟩
    · exact hNew hOwns

-- ---------------------------------------------------------------------------
-- The operations of clients
-- ---------------------------------------------------------------------------

/-- **kalloc.** A call that returns keeps the invariant. -/
theorem kalloc (h : r.Inv) {fuel size ptr : Nat} {heap' : KernelHeap} (hSize : 1 ≤ size)
    (hAlloc : Hexos.kalloc fuel r.heap size = .done (ptr, heap')) :
    Inv ⟨heap', ⟨ptr, size⟩ :: r.live⟩ := by
  obtain ⟨pre, b, post, x, hHeap, hScan, hPtr, rfl⟩ := kalloc_done hAlloc
  have hMem : b ∈ r.heap := by simp [hHeap]
  have hb := h.block b hMem
  let a : Alloc := ⟨ptr, size⟩
  have hCells : blocksFor size b.bsize = a.cells := by
    rw [hb.bsize]
    rfl
  have hPos : 1 ≤ a.cells := by
    have : size ≤ 16 * a.cells := a.cells_bounds.1
    omega
  rw [hCells] at hScan ⊢
  have hWindow : b.Window a.cells x := by
    have hStart : b.scanStart ≤ b.bcnt := by
      have := hb.lfbBounds.below
      rw [hb.lfbBounds.scanStart]
      omega
    have := (scan_sound hb.lfbBounds hStart hScan).2
    rwa [max_eq_left hPos] at this
  obtain ⟨hTake, hHolds⟩ := hb.take hPos hWindow hPtr
  have hAddr : (b.take x a.cells).addr = b.addr := by
    unfold KernelHeapBlockBm.take
    rfl
  have hSame : ∀ p, (b.take x a.cells).Owns p ↔ b.Owns p := by
    intro p
    rw [hTake.owns_iff, hb.owns_iff, hAddr]
  have hOwns : b.Owns ptr := (hSame ptr).mp (hTake.owns hHolds)
  refine h.replace hHeap hAddr ?_ ?_ ?_ ?_
  · have hFilter : (a :: r.live).filter (fun a' => (b.take x a.cells).Owns a'.ptr) =
        a :: r.liveIn b := by
      unfold HeapRun.liveIn
      simp [hSame, a, hOwns]
    rw [hFilter]
    exact hTake
  · intro c hc hne
    have hNot : ¬ c.Owns ptr := not_owns hb (h.block c hc) hne hOwns
    rw [List.filter_cons_of_neg (by simpa using hNot)]
    exact List.Perm.refl _
  · intro a' ha'
    rcases List.mem_cons.mp ha' with rfl | ha'
    · exact Or.inr hOwns
    · exact Or.inl ha'
  · refine List.pairwise_cons.mpr ⟨?_, h.apart⟩
    intro a' ha'
    obtain ⟨c, hc, hcOwns⟩ := h.owned a' ha'
    by_cases hne : c.addr = b.addr
    · -- both in the block that was taken from
      have hMem' : a' ∈ r.liveIn b := by
        refine List.mem_filter.mpr ⟨ha', ?_⟩
        rw [(h.block c hc).owns_iff, hne, ← hb.owns_iff] at hcOwns
        simpa using hcOwns
      exact (List.pairwise_cons.mp hTake.apart).1 a' hMem'
    · -- in two pages
      obtain ⟨x', hx'⟩ :=
        (h.block c hc).holds a' (List.mem_filter.mpr ⟨ha', by simpa using hcOwns⟩)
      exact apart_of_addr_ne hb (h.block c hc) hne (hAddr ▸ BlockInv.in_page hHolds)
        (BlockInv.in_page hx')

/-- The block and the cells of a live allocation. -/
theorem exists_holds (h : r.Inv) {a : Alloc} (ha : a ∈ r.live) :
    ∃ pre b post x, r.heap = pre ++ b :: post ∧ b.Owns a.ptr ∧ b.Holds a x := by
  obtain ⟨b, hb, hOwns⟩ := h.owned a ha
  obtain ⟨pre, post, hHeap⟩ := List.append_of_mem hb
  obtain ⟨x, hx⟩ := (h.block b hb).holds a (List.mem_filter.mpr ⟨ha, by simpa using hOwns⟩)
  exact ⟨pre, b, post, x, hHeap, hOwns, hx⟩

/-- **kfree.** The free of a live pointer returns and works on its block. -/
theorem kfree_live (h : r.Inv) {a : Alloc} (hHeap : r.heap = pre ++ b :: post)
    (hOwns : b.Owns a.ptr) : Hexos.kfree r.heap a.ptr = .done (pre ++ b.release a.ptr :: post) := by
  rw [hHeap]
  refine kfree_eq ?_ hOwns
  intro c hc
  exact not_owns (h.block b (by simp [hHeap])) (h.block c (by simp [hHeap, hc]))
    (h.ne_of_split hHeap (Or.inl hc)) hOwns

/-- The live allocations of the block of `a` with `a` in front. -/
theorem block_erase (h : r.Inv) {a : Alloc} (ha : a ∈ r.live) (hb : b ∈ r.heap)
    (hOwns : b.Owns a.ptr) :
    BlockInv b (a :: (r.live.erase a).filter fun a' => b.Owns a'.ptr) := by
  refine (h.block b hb).perm ?_
  have hPerm := (List.perm_cons_erase ha).filter fun a' => decide (b.Owns a'.ptr)
  rwa [List.filter_cons_of_pos (by simpa using hOwns)] at hPerm

theorem kfree (h : r.Inv) {a : Alloc} {heap' : KernelHeap} (ha : a ∈ r.live)
    (hFree : Hexos.kfree r.heap a.ptr = .done heap') : Inv ⟨heap', r.live.erase a⟩ := by
  obtain ⟨pre, b, post, x, hHeap, hOwns, hx⟩ := h.exists_holds ha
  have hMem : b ∈ r.heap := by simp [hHeap]
  have hb := h.block_erase ha hMem hOwns
  rw [h.kfree_live hHeap hOwns] at hFree
  obtain rfl : pre ++ b.release a.ptr :: post = heap' := by simpa using hFree
  have hRelease := hb.release
  have hAddr : (b.release a.ptr).addr = b.addr := (hb.release_spec hx hb.cells_le_used).1
  have hSame : ∀ p, (b.release a.ptr).Owns p ↔ b.Owns p := by
    intro p
    rw [hRelease.owns_iff, hb.owns_iff, hAddr]
  refine h.replace hHeap hAddr ?_ ?_ ?_ (h.apart.sublist List.erase_sublist)
  · simpa only [hSame] using hRelease
  · intro c hc hne
    have hNot : ¬ c.Owns a.ptr := not_owns hb (h.block c hc) hne hOwns
    have hPerm := (List.perm_cons_erase ha).filter fun a' => decide (c.Owns a'.ptr)
    rwa [List.filter_cons_of_neg (by simpa using hNot)] at hPerm
  · intro a' ha'
    exact Or.inl (List.mem_of_mem_erase ha')

/-- **Write.** A write inside a live allocation keeps the invariant. -/
theorem write (h : r.Inv) {a : Alloc} {i : Nat} {v : UInt8} (ha : a ∈ r.live) (hi : i < a.size) :
    Inv { r with heap := r.heap.map (·.storeByte (a.ptr + i) v) } := by
  obtain ⟨pre, b, post, x, hHeap, hOwns, hx⟩ := h.exists_holds ha
  have hPage := BlockInv.in_page hx
  have hSize := a.cells_bounds
  -- the byte is behind the bitmap of its own page, so it is in no header and no bitmap
  have hOut : ∀ c ∈ r.heap, a.ptr + i < c.addr + headerSize ∨ c.addr + 276 ≤ a.ptr + i := by
    intro c hc
    obtain ⟨k, hk⟩ := (h.block b (by simp [hHeap])).aligned
    obtain ⟨l, hl⟩ := (h.block c hc).aligned
    simp only [pageSize, headerSize] at hk hl ⊢
    omega
  have hAddr : ∀ c : KernelHeapBlockBm, (c.storeByte (a.ptr + i) v).addr = c.addr := by
    intro c
    unfold KernelHeapBlockBm.storeByte
    split <;> rfl
  have hOwnsEq : ∀ c : KernelHeapBlockBm, ∀ p, (c.storeByte (a.ptr + i) v).Owns p ↔
      c.Owns p := by
    intro c p
    unfold KernelHeapBlockBm.storeByte
    split <;> rfl
  refine ⟨?_, ?_, ?_, h.apart⟩
  · intro c hc
    obtain ⟨d, hd, rfl⟩ := List.mem_map.mp hc
    unfold HeapRun.liveIn
    simp only [hOwnsEq]
    exact (h.block d hd).storeByte (hOut d hd)
  · rw [List.pairwise_map]
    simpa only [hAddr] using h.distinct
  · intro a' ha'
    obtain ⟨c, hc, hcOwns⟩ := h.owned a' ha'
    exact ⟨_, List.mem_map.mpr ⟨c, hc, rfl⟩, (hOwnsEq c a'.ptr).mpr hcOwns⟩

/-- **Step lemma.** Every operation of a client keeps the invariant. -/
theorem exec (h : r.Inv) {fuel : Nat} {op : HeapOp} {r' : HeapRun}
    (hs : r.exec fuel op = some r') : r'.Inv := by
  have hFind : ∀ {ptr a}, r.live.find? (·.ptr = ptr) = some a → a ∈ r.live ∧
      a.ptr = ptr := by
    intro ptr a hf
    exact ⟨List.mem_of_find?_eq_some hf, by simpa using List.find?_some hf⟩
  cases op with
  | kalloc size =>
    simp only [HeapRun.exec] at hs
    split at hs
    · next hSize =>
      split at hs
      · next hAlloc =>
        obtain rfl := Option.some.inj hs
        exact h.kalloc hSize.1 hAlloc
      · cases hs
    · cases hs
  | kfree ptr =>
    simp only [HeapRun.exec] at hs
    split at hs
    · next a heap hf hFree =>
      obtain rfl := Option.some.inj hs
      obtain ⟨ha, rfl⟩ := hFind hf
      exact h.kfree ha hFree
    · cases hs
  | write ptr i v =>
    simp only [HeapRun.exec] at hs
    split at hs
    · next a hf =>
      split at hs
      · next hi =>
        obtain rfl := Option.some.inj hs
        obtain ⟨ha, rfl⟩ := hFind hf
        exact h.write ha hi
      · cases hs
    · cases hs

end Inv

end HeapRun

-- ---------------------------------------------------------------------------
-- The heap after initialisation
-- ---------------------------------------------------------------------------

/-- The block that `kheap_add_block` makes of a page. -/
def pageBlock (addr : Nat) (page : Nat → UInt8) : KernelHeapBlockBm where
  addr := addr
  size := 4076
  used := 16
  bsize := 16
  lfb := 15
  bm := fill (fill page 0 256 0) 0 16 5

theorem kheapAddBlock_eq (heap : KernelHeap) {addr : Nat} (page : Nat → UInt8) (h : addr ≠ 0) :
    kheapAddBlock heap addr pageSize 16 page = pageBlock addr page :: heap := by
  unfold kheapAddBlock pageBlock
  rw [if_neg h]
  simp [pageSize, blocksFor, headerSize]

theorem pageBlock_inv {addr : Nat} (page : Nat → UInt8) (hAligned : pageSize ∣ addr)
    (hAddr : 0 < addr ∧ addr < 2 ^ 32) : BlockInv (pageBlock addr page) [] := by
  have hReserved : ∀ i < 16, (pageBlock addr page).bm i = 5 :=
    fun i hi => fill_in (by omega) (by omega)
  have hFree : ∀ i, 16 ≤ i → i < 254 → (pageBlock addr page).bm i = 0 := by
    intro i hi hi'
    show fill (fill page 0 256 0) 0 16 5 i = 0
    rw [fill_out (by omega), fill_in (by omega) (by omega)]
  refine ⟨hAligned, hAddr, rfl, rfl, ⟨le_refl 15, Nat.le_of_ble_eq_true rfl⟩,
    ?_, by simp, by simp,
    fun i hi hi' hUsed => absurd (hFree i hi hi') hUsed, rfl, ?_⟩
  · intro i hi
    rw [hReserved i hi]
    decide
  · have hCells : (Finset.range 254).filter (fun i => (pageBlock addr page).bm i ≠ 0) =
        Finset.range 16 := by
      ext i
      rw [Finset.mem_filter, Finset.mem_range, Finset.mem_range]
      constructor
      · rintro ⟨hi', hUsed⟩
        by_contra hc
        exact hUsed (hFree i (by omega) hi')
      · intro hi
        refine ⟨by omega, ?_⟩
        rw [hReserved i hi]
        decide
    unfold usedCells
    rw [hCells, Finset.card_range]
    rfl

/-- **Initial heap.** Pages added to an empty heap, with nothing live. -/
theorem HeapInit.inv {heap : KernelHeap} (h : HeapInit heap) : HeapRun.Inv ⟨heap, []⟩ := by
  induction h with
  | init => exact ⟨by simp [kheapInit], by simp [kheapInit], by simp, by simp⟩
  | @add heap addr page _ hAligned hLt hNew ih =>
    rcases Nat.eq_zero_or_pos addr with rfl | hPos
    · have hEmpty : kheapAddBlock heap 0 pageSize 16 page = [] := rfl
      rw [hEmpty]
      exact ⟨by simp, by simp, by simp, by simp⟩
    · rw [kheapAddBlock_eq heap page (by omega)]
      refine ⟨?_, List.pairwise_cons.mpr ⟨fun b hb => (hNew b hb).symm, ih.distinct⟩,
        by simp, by simp⟩
      intro b hb
      rcases List.mem_cons.mp hb with rfl | hb
      · exact pageBlock_inv page hAligned ⟨hPos, hLt⟩
      · exact ih.block b hb

/-- The loop of `main_heap_init` adds pages that the page allocator still had. -/
theorem addPages_init {mem : Nat → UInt8} {n : Nat} {heap heap' : KernelHeap} {m m' : PageMem}
    (hPages : m.pages ≤ 2 ^ 19) (hInit : HeapInit heap)
    (hHeap : ∀ b ∈ heap, ∃ k < m.pages, b.addr = PageMem.pageAddr k ∧ m.bit k = false)
    (h : addPages mem n heap m = .done (heap', m')) : HeapInit heap' := by
  induction n generalizing heap m with
  | zero =>
    unfold addPages at h
    obtain ⟨rfl, rfl⟩ : heap = heap' ∧ m = m' := by simpa using h
    exact hInit
  | succ n ih =>
    rw [addPages, Outcome.bind_eq_done] at h
    obtain ⟨⟨block, m₁⟩, hAlloc, hNext⟩ := h
    have hPagesEq : m₁.pages = m.pages := PageMem.memoryAllocPage_pages hAlloc
    rcases Nat.eq_zero_or_pos block with rfl | hPos
    · -- the page allocator is not initialised: the heap becomes empty
      exact ih (by rw [hPagesEq]; exact hPages) .init (by simp [kheapInit]) hNext
    · obtain ⟨k, hk, rfl, hBit, -, hBits, -⟩ :=
        PageMem.memoryAllocPage_done hPages hAlloc (by omega) (by simp)
      have hFresh : ∀ b ∈ heap, b.addr ≠ PageMem.pageAddr k := by
        intro b hb hEq
        obtain ⟨l, -, hl, hlBit⟩ := hHeap b hb
        rw [PageMem.pageAddr_injective (hl.symm.trans hEq), hBit] at hlBit
        cases hlBit
      refine ih (by rw [hPagesEq]; exact hPages) (.add hInit ?_ ?_ hFresh) ?_ hNext
      · simp only [PageMem.pageAddr, allocMemoryStart, pageSize]
        omega
      · simp only [PageMem.pageAddr, allocMemoryStart, pageSize]
        omega
      · rw [kheapAddBlock_eq heap _ (by omega), hPagesEq]
        intro b hb
        rcases List.mem_cons.mp hb with rfl | hb
        · exact ⟨k, hk, rfl, by simp [hBits k hk]⟩
        · obtain ⟨l, hl, hlAddr, hlBit⟩ := hHeap b hb
          exact ⟨l, hl, hlAddr, by simp [hBits l hl, hlBit]⟩

/-- **`main_heap_init`.** Its heap consists of disjoint page-aligned pages. -/
theorem mainHeapInit_init {mem : Nat → UInt8} {heap : KernelHeap} {m m' : PageMem}
    (hPages : m.freemapCells * cellBits ≤ 2 ^ 19)
    (h : mainHeapInit mem m = .done (heap, m')) : HeapInit heap :=
  addPages_init hPages .init (by simp [kheapInit]) h

theorem heap_reachable_inv {heap₀ : KernelHeap} (hInit : HeapInit heap₀) {r : HeapRun}
    (hr : Reachable (heapSystem heap₀) r) : r.Inv := by
  refine Reachable.invariant (I := HeapRun.Inv) ?_ ?_ hr
  · rintro r rfl
    exact hInit.inv
  · rintro r r' - h ⟨fuel, op, hs⟩
    exact h.exec hs

/-- A run of operations leads from a reachable state to a reachable state. -/
theorem HeapRun.run_reachable {heap₀ : KernelHeap} {fuel : Nat} {ops : List HeapOp}
    {r r' : HeapRun} (hr : Reachable (heapSystem heap₀) r) (h : r.run fuel ops = some r') :
    Reachable (heapSystem heap₀) r' := by
  induction ops generalizing r with
  | nil =>
    obtain rfl : r = r' := by simpa [run] using h
    exact hr
  | cons op ops ih =>
    unfold run at h
    rw [List.foldlM_cons, Option.bind_eq_bind, Option.bind_eq_some_iff] at h
    obtain ⟨r₁, hStep, hRest⟩ := h
    exact ih (.step hr ⟨fuel, op, hStep⟩) hRest

-- ---------------------------------------------------------------------------
-- Safety
-- ---------------------------------------------------------------------------

/-- The range of an allocation lies in the page of a block, after the header
and the 256 bytes of the bitmap. -/
def Alloc.InPage (a : Alloc) (b : KernelHeapBlockBm) : Prop :=
  b.addr + headerSize + 256 ≤ a.ptr ∧ a.ptr + a.size ≤ b.addr + pageSize

/-- The effect of `kfree` on a live allocation: its block `b` becomes `b'`, in
which the cells of the allocation, all in use before, are free and the others
are as they were. -/
def HeapRun.FreesExactly (r : HeapRun) (a : Alloc) : Prop :=
  ∃ pre b post x b', r.heap = pre ++ b :: post ∧ a.InPage b ∧
    a.ptr = b.addr + headerSize + 16 * x ∧
    kfree r.heap a.ptr = .done (pre ++ b' :: post) ∧
    (∀ i, x ≤ i → i < x + blocksFor a.size 16 → b.bm i ≠ 0) ∧
    b'.bm = fill b.bm x (blocksFor a.size 16) 0

theorem HeapRun.Inv.freesExactly {r : HeapRun} (h : r.Inv) {a : Alloc} (ha : a ∈ r.live) :
    r.FreesExactly a := by
  obtain ⟨pre, b, post, x, hHeap, hOwns, hx⟩ := h.exists_holds ha
  have hb := h.block_erase ha (by simp [hHeap]) hOwns
  have hPage := BlockInv.in_page hx
  have hSize := a.cells_bounds
  obtain ⟨id, hid, hCells, -⟩ := hx.cells
  refine ⟨pre, b, post, x, b.release a.ptr, hHeap, ?_, hx.ptr, h.kfree_live hHeap hOwns, ?_, ?_⟩
  · unfold Alloc.InPage
    simp only [headerSize, pageSize]
    omega
  · intro i hi hin
    rw [hCells i hi hin]
    exact hid
  · obtain ⟨-, -, -, -, hBm, -⟩ := hb.release_spec hx hb.cells_le_used
    exact hBm

/-- The live allocations in the page of a block are those `kfree` looks for in
it. -/
theorem HeapRun.Inv.liveIn_eq {r : HeapRun} (h : r.Inv) {b : KernelHeapBlockBm}
    (hb : b ∈ r.heap) :
    r.liveIn b =
      r.live.filter fun a => decide (b.addr ≤ a.ptr ∧ a.ptr < b.addr + pageSize) := by
  unfold HeapRun.liveIn
  refine List.filter_congr ?_
  intro a ha
  obtain ⟨pre, c, post, x, hHeap, hOwns, hx⟩ := h.exists_holds ha
  have hc : c ∈ r.heap := by simp [hHeap]
  obtain ⟨k, hk⟩ := (h.block b hb).aligned
  obtain ⟨l, hl⟩ := (h.block c hc).aligned
  rw [(h.block c hc).owns_iff] at hOwns
  rw [decide_eq_decide, (h.block b hb).owns_iff]
  simp only [pageSize] at hk hl ⊢
  omega

/-- **Heap safety.** Start from any number of disjoint page-aligned pages. In
every state that client calls and writes reach: (a) the ranges of live
allocations are pairwise disjoint; (b) each lies in a page, after its header
and bitmap; (c) `kfree` of a live pointer picks the block it came from and
zeroes exactly the cells of the allocation; (d) `used` of a block is 16 plus
the cells of its live allocations, which is the number of cells in use. -/
theorem heap_run_safety (heap₀ : KernelHeap) (hInit : HeapInit heap₀) (r : HeapRun)
    (hr : Reachable (heapSystem heap₀) r) :
    r.live.Pairwise (fun a a' => a.ptr + a.size ≤ a'.ptr ∨ a'.ptr + a'.size ≤ a.ptr) ∧
    (∀ a ∈ r.live, ∃ b ∈ r.heap, a.InPage b) ∧
    (∀ a ∈ r.live, r.FreesExactly a) ∧
    (∀ b ∈ r.heap,
      b.used =
        16 + ((r.live.filter fun a => decide (b.addr ≤ a.ptr ∧ a.ptr < b.addr + pageSize)).map
        fun a => blocksFor a.size 16).sum ∧
      b.used = usedCells b.bm (b.size / b.bsize)) := by
  have h := heap_reachable_inv hInit hr
  refine ⟨h.apart.imp fun {a a'} hApart => ?_, fun a ha => ?_, fun a ha => h.freesExactly ha,
    fun b hb => ⟨?_, ?_⟩⟩
  · have := a.cells_bounds
    have := a'.cells_bounds
    unfold Alloc.Apart at hApart
    omega
  · obtain ⟨pre, b, post, x, b', hHeap, hPage, -⟩ := h.freesExactly ha
    exact ⟨b, by simp [hHeap], hPage⟩
  · rw [← h.liveIn_eq hb]
    exact (h.block b hb).sum
  · rw [(h.block b hb).size, (h.block b hb).bsize]
    exact (h.block b hb).count

/-- Two pages; three allocations, a write and a free. What is live is disjoint,
and the free of the allocation in the middle is exact. -/
theorem heap_run_safety_two_pages :
    ∃ heap₀ r, HeapInit heap₀ ∧ Reachable (heapSystem heap₀) r ∧
      r.live = [⟨0x102154, 24⟩, ⟨0x102144, 5⟩] ∧
      r.live.Pairwise (fun a a' => a.ptr + a.size ≤ a'.ptr ∨ a'.ptr + a'.size ≤ a.ptr) ∧
      r.FreesExactly ⟨0x102144, 5⟩ := by
  let heap₀ := kheapAddBlock (kheapAddBlock kheapInit 0x101000 pageSize 16 fun _ => 7)
    0x102000 pageSize 16 fun _ => 7
  let ops : List HeapOp :=
    [.kalloc 40, .kalloc 5, .kalloc 24, .write 0x102144 4 255, .kfree 0x102114]
  have hInit : HeapInit heap₀ :=
    .add (.add .init (by decide) (by omega) (by simp [kheapInit])) (by decide) (by omega)
      (by decide)
  have hEval : ((HeapRun.mk heap₀ []).run 300 ops).map (·.live) =
      some [⟨0x102154, 24⟩, ⟨0x102144, 5⟩] := by decide +kernel
  obtain ⟨r, hRun, hLive⟩ := Option.map_eq_some_iff.mp hEval
  have hr : Reachable (heapSystem heap₀) r := HeapRun.run_reachable (.init rfl) hRun
  have hSafe := heap_run_safety heap₀ hInit r hr
  exact ⟨heap₀, r, hInit, hr, hLive, hSafe.1, hSafe.2.2.1 _ (by rw [hLive]; decide)⟩

end Hexos
