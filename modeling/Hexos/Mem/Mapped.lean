import Hexos.Mem.Paging
import Hexos.Mem.Physical

/-!
# HexOS — paging and the page allocator

The page allocator meets the contract that `paging_init` relies on, as long as
its freemap has at most `2^19` bits and no free page lies in the freemap array.
The map that `paging_init` loads is fixed: it covers the first 12 MiB, wherever
the allocator finds its pages.

## Results

* `memoryAllocPage_source` — the page allocator meets the contract.
* `paging_identity` — the first 12 MiB are mapped to themselves, nothing else is
  mapped.
* `held_pages_mapped` — which of the pages held are mapped.
-/

namespace Hexos

open Transition

-- ---------------------------------------------------------------------------
-- The page allocator
-- ---------------------------------------------------------------------------

namespace MemVars

/-- The page at `p` does not meet the freemap array. -/
def PageClear (g : MemVars) (p : Nat) : Prop :=
  p + pageSize ≤ g.freemap ∨ g.freemap + 4 * g.freemapCells ≤ p

/-- The pages `held` have been handed out and not been freed, and neither they
nor the free pages meet the freemap array. -/
structure OwnsPages (g : MemVars) (m : Mem) (held : List Nat) : Prop where
  freemap : g.freemap ≠ 0 ∧ g.freemap % 4 = 0
  pages   : (g.toPageMem m).pages ≤ 2 ^ 19
  free    : ∀ n < (g.toPageMem m).pages, (g.toPageMem m).bit n = true →
      g.PageClear (PageMem.pageAddr n)
  owned   : ∀ p ∈ held, ∃ n < (g.toPageMem m).pages, p = PageMem.pageAddr n ∧
              (g.toPageMem m).bit n = false ∧ g.PageClear p
  nodup   : held.Nodup

variable {g g' : MemVars} {m m' : Mem} {held : List Nat} {p : Nat} {zeroit : Bool}

theorem PageClear.congr (h : g.PageClear p) (hMap : g'.freemap = g.freemap)
    (hCells : g'.freemapCells = g.freemapCells) : g'.PageClear p := by
  unfold PageClear
  rw [hMap, hCells]
  exact h

theorem PageClear.not_inFreemap (h : g.PageClear p) {a : Nat} (hl : p ≤ a) (hr : a < p + 4096) :
    ¬ g.InFreemap a := by
  unfold PageClear at h
  unfold InFreemap
  simp only [pageSize] at h
  omega

theorem pages_congr (m m' : Mem) (hCells : g'.freemapCells = g.freemapCells) :
    (g'.toPageMem m').pages = (g.toPageMem m).pages := by
  simp only [PageMem.pages, toPageMem, hCells]

/-- An allocation returns a page that is not held, and holds it. -/
theorem OwnsPages.alloc (h : g.OwnsPages m held)
    (hAlloc : g.memoryAllocPage m zeroit = .done (p, g', m')) :
    (∃ n < (g.toPageMem m).pages, p = PageMem.pageAddr n ∧ g.PageClear p) ∧ p ∉ held ∧
      (∀ q ∈ held, Mem.SameOn m m' q 4096) ∧ g'.OwnsPages m' (p :: held) := by
  obtain ⟨n, hn, hp, hBit, hBit', hBits⟩ := memoryAllocPage_takes h.freemap.1 h.freemap.2 hAlloc
  obtain ⟨hMap, hCells⟩ := memoryAllocPage_freemap hAlloc
  have hPages := pages_congr m m' hCells
  have hSize := h.pages
  have hAddr : p = PageMem.pageAddr n := by
    rw [hp]
    simp only [pageSize, allocMemoryStart, PageMem.pageAddr]
    omega
  have hClear : g.PageClear p := hAddr ▸ h.free n hn hBit
  have hNew : p ∉ held := by
    intro hc
    obtain ⟨k, -, hk, hkBit, -⟩ := h.owned p hc
    rw [PageMem.pageAddr_injective (hAddr.symm.trans hk)] at hBit
    rw [hBit] at hkBit
    cases hkBit
  refine ⟨⟨n, hn, hAddr, hClear⟩, hNew, ?_, ?_⟩
  · intro q hq i hi hlt
    obtain ⟨k, -, hk, -, hkClear⟩ := h.owned q hq
    refine memoryAllocPage_frame hAlloc (hkClear.not_inFreemap hi hlt) ?_
    have hne : q ≠ p := by
      rintro rfl
      exact hNew hq
    rw [hk] at hi hlt hne
    rw [hAddr] at hne ⊢
    simp only [PageMem.pageAddr, pageSize] at hi hlt hne ⊢
    omega
  · refine ⟨hMap ▸ h.freemap, hPages ▸ hSize, ?_, ?_,
      List.nodup_cons.mpr ⟨hNew, h.nodup⟩⟩
    · intro k hk hkBit
      exact (h.free k (hPages ▸ hk) (hBits k hkBit)).congr hMap hCells
    · intro q hq
      rcases List.mem_cons.mp hq with rfl | hq
      · exact ⟨n, hPages.symm ▸ hn, hAddr, hBit', hClear.congr hMap hCells⟩
      · obtain ⟨k, hk, hqk, hkBit, hkClear⟩ := h.owned q hq
        refine ⟨k, hPages.symm ▸ hk, hqk, ?_, hkClear.congr hMap hCells⟩
        rw [Bool.eq_false_iff] at hkBit ⊢
        exact fun hc => hkBit (hBits k hc)

/-- Writing to held pages does not change a bit. -/
theorem OwnsPages.bit_frame (h : g.OwnsPages m held)
    (hSame : ∀ i, (∀ q ∈ held, i < q ∨ q + 4096 ≤ i) → m' i = m i) {n : Nat}
    (hn : n < (g.toPageMem m).pages) : (g.toPageMem m').bit n = (g.toPageMem m).bit n := by
  have hCell : g.cell m' (n / cellBits) = g.cell m (n / cellBits) := by
    have hWord : Mem.SameOn m m' (g.freemap + 4 * (n / cellBits)) 4 := by
      intro i hi hlt
      refine hSame i ?_
      intro q hq
      obtain ⟨k, -, -, -, hClear⟩ := h.owned q hq
      unfold PageClear at hClear
      simp only [PageMem.pages, toPageMem, cellBits, pageSize] at hn hClear hi hlt
      omega
    rw [cell, cell, hWord.load32]
  simp only [PageMem.bit, toPageMem, hCell]

theorem OwnsPages.frame (h : g.OwnsPages m held)
    (hSame : ∀ i, (∀ q ∈ held, i < q ∨ q + 4096 ≤ i) → m' i = m i) :
    g.OwnsPages m' held := by
  have hBit := fun n (hn : n < (g.toPageMem m).pages) => h.bit_frame hSame hn
  refine ⟨h.freemap, h.pages, ?_, ?_, h.nodup⟩
  · intro n hn hBitn
    exact h.free n hn (by rw [← hBit n hn]; exact hBitn)
  · intro p hp
    obtain ⟨n, hn, hpn, hBitn, hClear⟩ := h.owned p hp
    exact ⟨n, hn, hpn, (hBit n hn).trans hBitn, hClear⟩

end MemVars

/-- **The contract.** `memory_alloc_page(1)` meets it. -/
theorem memoryAllocPage_source :
    PageSource (fun (g : MemVars) m => g.memoryAllocPage m true) MemVars.OwnsPages where
  page := by
    intro g g' m m' held p h hAlloc
    obtain ⟨⟨n, hn, rfl, -⟩, hNew, hKeep, hOwns⟩ := h.alloc hAlloc
    have hSize := h.pages
    refine ⟨?_, ?_, hNew, fun k hk => MemVars.memoryAllocPage_zeroed h.freemap.1 hAlloc hk,
      hKeep, hOwns⟩
    · simp only [PageMem.pageAddr, allocMemoryStart, pageSize]
      omega
    · simp only [PageMem.pageAddr, allocMemoryStart, pageSize]
      omega
  frame := fun h hSame => h.frame hSame

/-- **Identity map.** Assume that `memory_alloc_page(1)` meets its contract for
four pages. Then `paging_init` returns, and the directory it loads maps every
address below `0xC00000` to itself, present and writable, and no other address
of 32 bits. -/
theorem paging_identity {A : Type} (alloc : A → Mem → Outcome (Nat × A × Mem))
    (Owns : A → Mem → List Nat → Prop) (hSource : PageSource alloc Owns)
    (hSupply : ∀ s m held, Owns s m held → held.length < 4 → ∃ r, alloc s m = .done r)
    (s : A) (m : Mem) (hOwns : Owns s m []) :
    ∃ pagedir s' m', pagingInit alloc s m = .done (pagedir, s', m') ∧
      (∀ va < 0xC00000, walk m' pagedir va = some (va, true)) ∧
      ∀ va, 0xC00000 ≤ va → va < 2 ^ 32 → walk m' pagedir va = none := by
  obtain ⟨pagedir, s₂, m₂, hRun⟩ := hSource.pagingInit_returns 4 hSupply hOwns (by decide)
  obtain ⟨table, pages, hBuilt⟩ := hSource.pagingInit_built hOwns hRun
  refine ⟨pagedir, s₂, m₂, hRun, ?_, ?_⟩
  · intro va hva
    exact hBuilt.map.walk_low (fun d hd => hBuilt.aligned _ (hBuilt.tables d hd).1) (by omega)
  · intro va hLow hva
    exact hBuilt.map.walk_high (by omega) hva

namespace MemVars

variable {g g' : MemVars} {m m' : Mem} {held spare : List Nat} {p : Nat} {zeroit : Bool}

/-- The pages `spare` are free as long as they have not been handed out. -/
structure OwnsSpare (spare : List Nat) (g : MemVars) (m : Mem) (held : List Nat) : Prop where
  owns  : g.OwnsPages m held
  spare : ∀ n ∈ spare, n < (g.toPageMem m).pages ∧
            (PageMem.pageAddr n ∉ held → (g.toPageMem m).bit n = true)

/-- An allocation clears the bit of its own page only. -/
theorem OwnsPages.alloc_bit (h : g.OwnsPages m held)
    (hAlloc : g.memoryAllocPage m zeroit = .done (p, g', m')) {k : Nat}
    (hk : k < (g.toPageMem m).pages) (hne : PageMem.pageAddr k ≠ p) :
    (g'.toPageMem m').bit k = (g.toPageMem m).bit k := by
  obtain ⟨⟨n, hn, hp, hClear⟩, -⟩ := h.alloc hAlloc
  have hView := toPageMem_memoryAllocPage m zeroit h.freemap.2
  rw [hAlloc, Outcome.map_done] at hView
  have hZero : (g.toPageMem m).ClearOfFreemap p := by
    intro c hc
    unfold PageClear at hClear
    simp only [toPageMem, pageSize] at hc hClear ⊢
    omega
  have hPos : p ≠ 0 := by
    rw [hp]
    simp only [PageMem.pageAddr, allocMemoryStart]
    omega
  obtain ⟨n', -, hp', -, -, hBits, -⟩ :=
    PageMem.memoryAllocPage_done h.pages hView.symm hPos fun _ => hZero
  have hkn : k ≠ n' := by
    rintro rfl
    exact hne hp'.symm
  rw [hBits k hk, decide_eq_true hkn, Bool.and_true]

theorem memoryAllocPage_source_spare (spare : List Nat) :
    PageSource (fun (g : MemVars) m => g.memoryAllocPage m true) (OwnsSpare spare) where
  page := by
    intro g g' m m' held p h hAlloc
    obtain ⟨hAligned, hBound, hNew, hZero, hKeep, hOwns⟩ :=
      memoryAllocPage_source.page h.owns hAlloc
    have hPages := pages_congr m m' (memoryAllocPage_freemap hAlloc).2
    refine ⟨hAligned, hBound, hNew, hZero, hKeep, hOwns, ?_⟩
    intro n hn
    obtain ⟨hLt, hFree⟩ := h.spare n hn
    refine ⟨hPages.symm ▸ hLt, ?_⟩
    intro hNot
    rw [List.mem_cons, not_or] at hNot
    exact (h.owns.alloc_bit hAlloc hLt hNot.1).trans (hFree hNot.2)
  frame := by
    intro g m m' held h hSame
    refine ⟨h.owns.frame hSame, ?_⟩
    intro n hn
    obtain ⟨hLt, hFree⟩ := h.spare n hn
    exact ⟨hLt, fun hNot => (h.owns.bit_frame hSame hLt).trans (hFree hNot)⟩

/-- As long as fewer pages are held than are to spare, a call returns. -/
theorem OwnsSpare.returns (h : OwnsSpare spare g m held) (hNodup : spare.Nodup)
    (hLength : held.length < spare.length) : ∃ r, g.memoryAllocPage m true = .done r := by
  have hLeft : ∃ n ∈ spare, PageMem.pageAddr n ∉ held := by
    by_contra hAll
    have hSub : spare.map PageMem.pageAddr ⊆ held := by
      intro p hp
      obtain ⟨n, hn, rfl⟩ := List.mem_map.mp hp
      by_contra hNot
      exact hAll ⟨n, hn, hNot⟩
    have hPages := hNodup.map fun a b hab => PageMem.pageAddr_injective hab
    have := hPages.length_le_of_subset hSub
    rw [List.length_map] at this
    omega
  obtain ⟨n, hn, hNot⟩ := hLeft
  obtain ⟨hLt, hFree⟩ := h.spare n hn
  obtain ⟨p, g', m', hAlloc⟩ := memoryAllocPage_returns h.owns.freemap.1 hLt (hFree hNot) true
  exact ⟨_, hAlloc⟩

end MemVars

/-- A memory whose freemap has the cell `c` as its last and only nonzero one. -/
def lastCell (c v : Nat) : Mem := Mem.store32 (fun _ => 0) (allocMemoryStart + 4 * c) v

/-- The variables of that freemap. -/
def lastCellVars (c : Nat) : MemVars :=
  { MemVars.start with freemap := allocMemoryStart, freemapCells := c + 1 }

theorem lastCell_bit (c n : Nat) :
    ((lastCellVars c).toPageMem (lastCell c 0x1F)).bit n =
      decide (32 * c ≤ n ∧ n < 32 * c + 5) := by
  have hWord : (lastCell c 0x1F).load32 (allocMemoryStart + 4 * (n / 32)) =
      if n / 32 = c then 0x1F else 0 := by
    unfold lastCell
    by_cases hc : n / 32 = c
    · rw [hc, if_pos rfl, Mem.load32_store32 (by omega)]
    · rw [if_neg hc, Mem.load32_store32_other (by omega)]
      rfl
  simp only [PageMem.bit, MemVars.toPageMem, MemVars.cell, cellBits]
  rw [show (lastCellVars c).freemap = allocMemoryStart from rfl, hWord, BitVec.getLsbD_ofNat]
  by_cases hc : n / 32 = c
  · rw [if_pos hc, decide_eq_true (by omega), Bool.true_and, show 0x1F = 2 ^ 5 - 1 from rfl,
      Nat.testBit_two_pow_sub_one, decide_eq_decide]
    omega
  · rw [if_neg hc, Nat.zero_testBit, Bool.and_false, decide_eq_false (by omega)]

/-- Five free pages, from number `32 * c` on. -/
theorem lastCell_owns {c : Nat} (hc : 0 < c) (hSize : c < 1000) :
    MemVars.OwnsSpare [32 * c, 32 * c + 1, 32 * c + 2, 32 * c + 3, 32 * c + 4] (lastCellVars c)
      (lastCell c 0x1F) [] := by
  have hPages : ((lastCellVars c).toPageMem (lastCell c 0x1F)).pages = 32 * (c + 1) :=
    Nat.mul_comm _ _
  have hFreemap : (lastCellVars c).freemap = 0x100000 := rfl
  refine ⟨⟨⟨by omega, by omega⟩, by omega, fun n hn hBit => .inr ?_, by simp, List.nodup_nil⟩,
    fun n hn => ?_⟩
  · rw [lastCell_bit, decide_eq_true_eq] at hBit
    simp only [PageMem.pageAddr, lastCellVars, pageSize]
    omega
  · simp only [List.mem_cons, List.not_mem_nil, or_false] at hn
    refine ⟨by omega, ?_⟩
    intro _
    rw [lastCell_bit, decide_eq_true_eq]
    omega

theorem lastCell_owns_low :
    MemVars.OwnsSpare [32, 33, 34, 35, 36] (lastCellVars 1) (lastCell 1 0x1F) [] :=
  lastCell_owns (c := 1) (by omega) (by omega)

/-- `paging_init` with five free pages from number 32 on. -/
theorem paging_identity_five_pages :
    ∃ pagedir s' m',
      pagingInit (fun (g : MemVars) m => g.memoryAllocPage m true) (lastCellVars 1)
        (lastCell 1 0x1F) =
        .done (pagedir, s', m') ∧
      walk m' pagedir 0xBFFFFF = some (0xBFFFFF, true) ∧ walk m' pagedir 0xC00000 = none := by
  obtain ⟨pagedir, s', m', hRun, hLow, hHigh⟩ :=
    paging_identity _ _ (MemVars.memoryAllocPage_source_spare [32, 33, 34, 35, 36])
      (fun _ _ _ h hLength => h.returns (by decide) (Nat.lt_succ_of_lt hLength)) (lastCellVars 1)
      (lastCell 1 0x1F) lastCell_owns_low
  exact ⟨pagedir, s', m', hRun, hLow _ (by omega), hHigh _ (by omega) (by omega)⟩

-- ---------------------------------------------------------------------------
-- Pages held before and after `paging_init`
-- ---------------------------------------------------------------------------

/-- The allocator, the memory and the pages that its callers hold. -/
structure HeldPages where
  vars : MemVars
  mem  : Mem
  held : List Nat

/-- A call of the allocator, or a write of a holder to its own pages. -/
inductive HeldStep : HeldPages → HeldPages → Prop
  | alloc {r : HeldPages} {zeroit : Bool} {p : Nat} {g : MemVars} {m : Mem} :
      r.vars.memoryAllocPage r.mem zeroit = .done (p, g, m) → HeldStep r ⟨g, m, p :: r.held⟩
  | free {r : HeldPages} {p : Nat} {g : MemVars} {m : Mem} :
      p ∈ r.held → r.vars.memoryFreePage r.mem p = (g, m) →
      HeldStep r ⟨g, m, r.held.erase p⟩
  | write {r : HeldPages} {m : Mem} :
      (∀ i, (∀ q ∈ r.held, i < q ∨ q + 4096 ≤ i) → m i = r.mem i) →
      HeldStep r ⟨r.vars, m, r.held⟩

/-- All runs from the state `r₀`. -/
def heldSystem (r₀ : HeldPages) : System HeldPages where
  init r := r = r₀
  step := HeldStep

namespace MemVars

variable {g g' : MemVars} {m m' : Mem} {held pages : List Nat} {p : Nat}

/-- Fewer pages held. -/
theorem OwnsPages.mono {held' : List Nat} (h : g.OwnsPages m held) (hSub : held' ⊆ held)
    (hNodup : held'.Nodup) : g.OwnsPages m held' :=
  ⟨h.freemap, h.pages, h.free, fun p hp => h.owned p (hSub hp), hNodup⟩

/-- Distinct held pages do not overlap. -/
theorem OwnsPages.apart (h : g.OwnsPages m held) {q : Nat} (hp : p ∈ held) (hq : q ∈ held)
    (hne : p ≠ q) :
    p + 4096 ≤ q ∨ q + 4096 ≤ p := by
  obtain ⟨n, -, hn, -⟩ := h.owned p hp
  obtain ⟨k, -, hk, -⟩ := h.owned q hq
  rw [hn, hk] at hne ⊢
  simp only [PageMem.pageAddr, pageSize] at hne ⊢
  omega

/-- The free of a held page sets its bit. -/
theorem OwnsPages.free_bit (h : g.OwnsPages m held) (hp : p ∈ held)
    (hFree : g.memoryFreePage m p = (g', m')) (k : Nat) :
    (g'.toPageMem m').bit k = ((g.toPageMem m).bit k || decide (PageMem.pageAddr k = p)) := by
  obtain ⟨n, hn, rfl, -⟩ := h.owned p hp
  have hSize := h.pages
  have hView := toPageMem_memoryFreePage g m (PageMem.pageAddr n)
  rw [hFree] at hView
  rw [hView, PageMem.memoryFreePage_bit (by omega)]
  exact congrArg _
    (decide_eq_decide.mpr ⟨congrArg _, fun hEq => PageMem.pageAddr_injective hEq⟩)

/-- ... and it writes to the freemap only. -/
theorem OwnsPages.free_page (h : g.OwnsPages m held) (hp : p ∈ held)
    (hFree : g.memoryFreePage m p = (g', m')) :
    (∀ q ∈ held, Mem.SameOn m m' q 4096) ∧ g'.OwnsPages m' (held.erase p) := by
  have hBits := h.free_bit hp hFree
  obtain ⟨n, hn, rfl, hBit, hClear⟩ := h.owned p hp
  have hSize := h.pages
  obtain ⟨hMap, hCells⟩ := memoryFreePage_freemap g m (PageMem.pageAddr n)
  rw [hFree] at hMap hCells
  have hPages := pages_congr m m' hCells
  refine ⟨?_, ⟨?_, hPages ▸ hSize, ?_, ?_, h.nodup.erase _⟩⟩
  · intro q hq i hi hlt
    obtain ⟨k, -, -, -, hkClear⟩ := h.owned q hq
    have := memoryFreePage_frame (g := g) (m := m) (p := PageMem.pageAddr n)
      (by rw [PageMem.pageNumberOf_pageAddr (by omega)]; exact hn) (hkClear.not_inFreemap hi hlt)
    rwa [hFree] at this
  · rw [hMap]
    exact h.freemap
  · intro k hk hkBit
    rw [hBits, Bool.or_eq_true, decide_eq_true_eq] at hkBit
    rcases hkBit with hkBit | hkn
    · exact (h.free k (hPages ▸ hk) hkBit).congr hMap hCells
    · rw [hkn]
      exact hClear.congr hMap hCells
  · intro q hq
    obtain ⟨hne, hq⟩ := h.nodup.mem_erase_iff.mp hq
    obtain ⟨k, hk, rfl, hkBit, hkClear⟩ := h.owned q hq
    refine ⟨k, hPages.symm ▸ hk, rfl, ?_, hkClear.congr hMap hCells⟩
    rw [hBits, hkBit, decide_eq_false hne, Bool.or_false]

/-- A page that has been freed can be taken again. -/
theorem OwnsPages.free_alloc (h : g.OwnsPages m held) (hp : p ∈ held)
    (hFree : g.memoryFreePage m p = (g', m')) (zeroit : Bool) :
    ∃ q g'' m'', g'.memoryAllocPage m' zeroit = .done (q, g'', m'') := by
  have hBits := h.free_bit hp hFree
  obtain ⟨-, hOwns⟩ := h.free_page hp hFree
  obtain ⟨n, hn, hpn, -⟩ := h.owned p hp
  have hCells := (memoryFreePage_freemap g m p).2
  rw [hFree] at hCells
  have hBit : (g'.toPageMem m').bit n = true := by
    rw [hBits, decide_eq_true hpn.symm, Bool.or_true]
  exact memoryAllocPage_returns hOwns.freemap.1 (pages_congr m m' hCells ▸ hn) hBit zeroit

/-- `paging_init` leaves the size of the freemap alone. -/
theorem OwnsPages.pagingInit_pages {pagedir : Nat} (h : g.OwnsPages m held)
    (hRun : pagingInit (fun (g : MemVars) m => g.memoryAllocPage m true) g m =
      .done (pagedir, g', m')) :
    (g'.toPageMem m').pages = (g.toPageMem m).pages := by
  have hSource := memoryAllocPage_source.keeping (fun s => s.freemapCells = g.freemapCells)
    fun hAlloc hCells => (memoryAllocPage_freemap hAlloc).2.trans hCells
  have hOwns : g.OwnsPages m held ∧ g.freemapCells = g.freemapCells := ⟨h, rfl⟩
  obtain ⟨table, pages, hBuilt⟩ := hSource.pagingInit_built hOwns hRun
  exact pages_congr m m' hBuilt.owns.2

end MemVars

/-- **Step lemma.** Pages that nobody frees are left alone by the calls and by
the writes of the other holders. -/
theorem HeldStep.owns {r r' : HeldPages} {pages : List Nat} (hs : HeldStep r r')
    (h : r.vars.OwnsPages r.mem (pages ++ r.held)) :
    r'.vars.OwnsPages r'.mem (pages ++ r'.held) ∧
    ∀ q ∈ pages, Mem.SameOn r.mem r'.mem q 4096 := by
  have hNodup := List.nodup_append.mp h.nodup
  cases hs with
  | @alloc zeroit p g m hAlloc =>
    obtain ⟨-, hNew, hKeep, hOwns⟩ := h.alloc hAlloc
    refine ⟨hOwns.mono ?_ ?_, fun q hq => hKeep q (List.mem_append_left _ hq)⟩
    · intro q hq
      simp only [List.mem_append, List.mem_cons] at hq ⊢
      tauto
    · exact (List.perm_middle.nodup_iff).mpr hOwns.nodup
  | @free p g m hp hFree =>
    obtain ⟨hKeep, hOwns⟩ := h.free_page (List.mem_append_right _ hp) hFree
    have hNot : p ∉ pages := fun hc => hNodup.2.2 p hc p hp rfl
    rw [List.erase_append_right _ hNot] at hOwns
    exact ⟨hOwns, fun q hq => hKeep q (List.mem_append_left _ hq)⟩
  | @write m hSame =>
    refine ⟨h.frame fun i hi => hSame i fun q hq => hi q (List.mem_append_right _ hq), ?_⟩
    intro q hq i hi hlt
    refine hSame i ?_
    intro p hp
    have := h.apart (List.mem_append_left _ hq) (List.mem_append_right _ hp) fun hEq =>
      hNodup.2.2 q hq p hp hEq
    omega

/-- **Run lemma.** -/
theorem heldSystem_owns {r₀ r : HeldPages} (pages : List Nat) (hr : Reachable (heldSystem r₀) r)
    (h₀ : r₀.vars.OwnsPages r₀.mem (pages ++ r₀.held)) :
    r.vars.OwnsPages r.mem (pages ++ r.held) ∧
    ∀ q ∈ pages, Mem.SameOn r₀.mem r.mem q 4096 := by
  refine Reachable.invariant (I := fun r => r.vars.OwnsPages r.mem (pages ++ r.held) ∧
    ∀ q ∈ pages, Mem.SameOn r₀.mem r.mem q 4096) ?_ ?_ hr
  · rintro r rfl
    exact ⟨h₀, fun q _ => Mem.SameOn.refl _ _ _⟩
  · intro r r' _ hInv hStep
    obtain ⟨hOwns, hSame⟩ := HeldStep.owns hStep hInv.1
    exact ⟨hOwns, fun q hq => (hInv.2 q hq).trans (hSame q hq)⟩

/-- **Pages held.** Take a freemap of at most `2^19` bits none of whose free
pages lies in the freemap array. In every run with a call of `paging_init` in
it, the pages held afterwards, those of the directory and its tables among
them, are mapped to themselves, present and writable, if they end at or below
`0xC00000`, and not mapped at all otherwise. -/
theorem held_pages_mapped (g₀ : MemVars) (m₀ : Mem)
    (hFreemap : g₀.freemap ≠ 0 ∧ g₀.freemap % 4 = 0)
    (hPages : (g₀.toPageMem m₀).pages ≤ 2 ^ 19)
    (hFree : ∀ n < (g₀.toPageMem m₀).pages, (g₀.toPageMem m₀).bit n = true →
      g₀.PageClear (PageMem.pageAddr n))
    (r₁ : HeldPages) (hr₁ : Reachable (heldSystem ⟨g₀, m₀, []⟩) r₁) (pagedir : Nat)
    (g₂ : MemVars) (m₂ : Mem)
    (hRun : pagingInit (fun (g : MemVars) m => g.memoryAllocPage m true) r₁.vars r₁.mem =
      .done (pagedir, g₂, m₂))
    (r : HeldPages) (hr : Reachable (heldSystem ⟨g₂, m₂, r₁.held⟩) r) :
    ∃ pages, pagedir ∈ pages ∧ ∀ p ∈ pages ++ r.held,
      (p + 4096 ≤ 0xC00000 → ∀ k < 4096, walk r.mem pagedir (p + k) = some (p + k, true)) ∧
      (0xC00000 < p + 4096 → ∀ k < 4096, walk r.mem pagedir (p + k) = none) := by
  have hOwns₀ : g₀.OwnsPages m₀ [] := ⟨hFreemap, hPages, hFree, by simp, List.nodup_nil⟩
  obtain ⟨hOwns₁, -⟩ := heldSystem_owns [] hr₁ hOwns₀
  obtain ⟨table, pages, hBuilt⟩ := memoryAllocPage_source.pagingInit_built hOwns₁ hRun
  obtain ⟨hOwns, hSame⟩ := heldSystem_owns pages hr hBuilt.owns
  have hMap : IdentityMap r.mem pagedir 3 table :=
    hBuilt.map.congr (hSame _ hBuilt.directory) (fun d hd => hSame _ (hBuilt.tables d hd).1)
      (by omega)
  refine ⟨pages, hBuilt.directory, ?_⟩
  intro p hp
  obtain ⟨n, hn, hpn, -⟩ := hOwns.owned p hp
  have hSize := hOwns.pages
  refine ⟨?_, ?_⟩
  · intro hLow k hk
    exact hMap.walk_low (fun d hd => hBuilt.aligned _ (hBuilt.tables d hd).1) (by omega)
  · intro hHigh k hk
    simp only [PageMem.pageAddr, allocMemoryStart, pageSize] at hpn
    exact hMap.walk_high (by omega) (by omega)

/-- With five free pages, a caller takes one and `paging_init` four. -/
theorem MemVars.OwnsSpare.run {spare : List Nat} {g : MemVars} {m : Mem}
    (h : MemVars.OwnsSpare spare g m []) (hNodup : spare.Nodup) (hLength : spare.length = 5) :
    ∃ p g₁ m₁ pagedir g₂ m₂, g.memoryAllocPage m true = .done (p, g₁, m₁) ∧
      MemVars.OwnsSpare spare g₁ m₁ [p] ∧
      pagingInit (fun (g : MemVars) m => g.memoryAllocPage m true) g₁ m₁ =
        .done (pagedir, g₂, m₂) := by
  have hSource := MemVars.memoryAllocPage_source_spare spare
  obtain ⟨⟨p, g₁, m₁⟩, hAlloc⟩ := h.returns hNodup (by rw [hLength]; decide)
  obtain ⟨-, -, -, -, -, hOwns⟩ := hSource.page h hAlloc
  obtain ⟨pagedir, g₂, m₂, hRun⟩ := hSource.pagingInit_returns 5
    (fun _ _ _ h hLt => h.returns hNodup (by rw [hLength]; exact hLt)) hOwns (Nat.le_refl 5)
  exact ⟨p, g₁, m₁, pagedir, g₂, m₂, hAlloc, hOwns, hRun⟩

/-- Five free pages from number 32 on: after `paging_init` the caller frees the page
that it holds and takes one again, and that page is mapped. -/
theorem held_pages_mapped_after_free :
    ∃ p g₁ m₁ pagedir g₂ m₂ g₃ m₃ q g₄ m₄,
      (lastCellVars 1).memoryAllocPage (lastCell 1 0x1F) true = .done (p, g₁, m₁) ∧
      pagingInit (fun (g : MemVars) m => g.memoryAllocPage m true) g₁ m₁ =
        .done (pagedir, g₂, m₂) ∧
      g₂.memoryFreePage m₂ p = (g₃, m₃) ∧
      g₃.memoryAllocPage m₃ true = .done (q, g₄, m₄) ∧
      ∀ k < 4096, walk m₄ pagedir (q + k) = some (q + k, true) := by
  have h := lastCell_owns_low
  obtain ⟨p, g₁, m₁, pagedir, g₂, m₂, hAlloc, hOwns, hRun⟩ := h.run (by decide) rfl
  obtain ⟨table, built, hBuilt⟩ := memoryAllocPage_source.pagingInit_built hOwns.owns hRun
  have hHeld : p ∈ built ++ [p] := List.mem_append_right _ (List.mem_singleton.mpr rfl)
  obtain ⟨g₃, m₃, hFree⟩ : ∃ g₃ m₃, g₂.memoryFreePage m₂ p = (g₃, m₃) :=
    ⟨_, _, rfl⟩
  obtain ⟨q, g₄, m₄, hAgain⟩ := hBuilt.owns.free_alloc hHeld hFree true
  have hBefore :
      Reachable (heldSystem ⟨lastCellVars 1, lastCell 1 0x1F, []⟩) ⟨g₁, m₁, [p]⟩ :=
    .step (.init rfl) (.alloc hAlloc)
  have hAfter : Reachable (heldSystem ⟨g₂, m₂, [p]⟩) ⟨g₄, m₄, q :: [p].erase p⟩ :=
    .step (.step (.init rfl) (.free (List.mem_singleton.mpr rfl) hFree)) (.alloc hAgain)
  obtain ⟨pages, -, hMapped⟩ :=
    held_pages_mapped (lastCellVars 1) (lastCell 1 0x1F) h.owns.freemap h.owns.pages
    h.owns.free ⟨g₁, m₁, [p]⟩ hBefore pagedir g₂ m₂ hRun _ hAfter
  refine ⟨p, g₁, m₁, pagedir, g₂, m₂, g₃, m₃, q, g₄, m₄, hAlloc, hRun, hFree,
    hAgain, (hMapped q (by simp)).1 ?_⟩
  -- `q` is one of the 64 pages of the freemap, whose size no call changes.
  obtain ⟨⟨n, hn, hq, -⟩, -⟩ := (hBuilt.owns.free_page hHeld hFree).2.alloc hAgain
  have hFreemap := (MemVars.memoryFreePage_freemap g₂ m₂ p).2
  rw [hFree] at hFreemap
  have hPages : (g₃.toPageMem m₃).pages = 64 :=
    calc (g₃.toPageMem m₃).pages
      _ = (g₂.toPageMem m₂).pages := MemVars.pages_congr m₂ m₃ hFreemap
      _ = (g₁.toPageMem m₁).pages := hOwns.owns.pagingInit_pages hRun
      _ = ((lastCellVars 1).toPageMem (lastCell 1 0x1F)).pages :=
        MemVars.pages_congr _ _ (MemVars.memoryAllocPage_freemap hAlloc).2
      _ = 64 := rfl
  rw [hPages] at hn
  rw [hq]
  simp only [PageMem.pageAddr, allocMemoryStart, pageSize]
  omega

/-- Five free pages from number 2816 on: the page that the caller holds is at or
above `0xC00000`, and `paging_init` does not map it. -/
theorem held_page_unmapped :
    ∃ p g₁ m₁ pagedir g₂ m₂,
      (lastCellVars 88).memoryAllocPage (lastCell 88 0x1F) true = .done (p, g₁, m₁) ∧
      pagingInit (fun (g : MemVars) m => g.memoryAllocPage m true) g₁ m₁ =
        .done (pagedir, g₂, m₂) ∧
      0xC00000 ≤ p ∧ ∀ k < 4096, walk m₂ pagedir (p + k) = none := by
  have h := lastCell_owns (c := 88) (by omega) (by omega)
  obtain ⟨p, g₁, m₁, pagedir, g₂, m₂, hAlloc, hOwns, hRun⟩ := h.run (by decide) rfl
  obtain ⟨n, -, hp, hBit, -⟩ :=
    MemVars.memoryAllocPage_takes h.owns.freemap.1 h.owns.freemap.2 hAlloc
  rw [lastCell_bit, decide_eq_true_eq] at hBit
  obtain ⟨table, pages, hBuilt⟩ := memoryAllocPage_source.pagingInit_built hOwns.owns hRun
  simp only [pageSize, allocMemoryStart] at hp
  refine ⟨p, g₁, m₁, pagedir, g₂, m₂, hAlloc, hRun, by omega, ?_⟩
  intro k hk
  exact hBuilt.map.walk_high (by omega) (by omega)

end Hexos
