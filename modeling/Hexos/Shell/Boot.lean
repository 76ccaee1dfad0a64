import Hexos.Fs.Keep
import Hexos.Mem.Boot

/-!
# HexOS — the heap at the boot

`mem_init` puts the freemap at 1 MiB, where the boot loader has put the kernel, and
clears its first cell only. What the other cells say is free is thus a matter of the
bytes of the image that are there already, and the pages of the kernel heap are those
that the multiboot header has a bit set for.

## Results

* `PageMem.memoryAllocPage_lowest` — a call that returns, and the page it returns.
* `addPages_lowest` — the loop of `main_heap_init` takes the lowest pages in their order.
* `boot_heap_pages` — the heap after `mem_init` and `main_heap_init`.
-/

namespace Hexos

-- ---------------------------------------------------------------------------
-- The lowest pages
-- ---------------------------------------------------------------------------

/-- The lowest free page is handed out, wherever the freemap ends. -/
theorem PageMem.memoryAllocPage_lowest {m : PageMem} {n : Nat} (hFreemap : m.freemap ≠ 0)
    (hn : n < m.pages) (hSmall : n < 2 ^ 19) (hBit : m.bit n = true)
    (hLow : ∀ k < n, m.bit k = false) :
    ∃ m', m.memoryAllocPage false = .done (pageAddr n, m') ∧ m'.freemap = m.freemap ∧
      m'.pages = m.pages ∧ ∀ k, m'.bit k = (m.bit k && decide (k ≠ n)) := by
  rw [memoryAllocPage, if_neg hFreemap]
  cases hScan : scanCells m.cells m.freemapCells 0 with
  | none =>
    rw [scanCells_none hScan n (by omega) (by simpa [pages] using hn)] at hBit
    cases hBit
  | some ij =>
    obtain ⟨i, j⟩ := ij
    obtain ⟨-, hj, hSet, hMin⟩ := scanCells_some hScan
    obtain rfl : i * 32 + j = n := by
      rcases Nat.lt_trichotomy (i * 32 + j) n with hLt | hEq | hGt
      · exact absurd (hSet.symm.trans (hLow _ hLt)) (by decide)
      · exact hEq
      · exact absurd (hBit.symm.trans (hMin n (by omega) hGt)) (by decide)
    have hAddr : ((i * 32 + j) % 2 ^ 32 * 4096 % 2 ^ 32 + 0x100000) % 2 ^ 32 =
        0x100000 + 4096 * (i * 32 + j) := by omega
    refine ⟨{ m with
      cells := Function.update m.cells i (m.cells i &&& ~~~(1#32 <<< j))
      pagesFree := (m.pagesFree + 2 ^ 32 - 1) % 2 ^ 32 }, ?_, rfl, rfl, bit_clear hj rfl⟩
    simp only [cellBits, pageSize, allocMemoryStart, pageAddr, hAddr, Bool.false_eq_true, if_false]

/-- The loop of `main_heap_init` makes blocks of the lowest free pages; the last one comes
first. The induction is on the pages. -/
theorem addPages_lowest {mem : Nat → UInt8} {ns : List Nat} (hSorted : ns.Pairwise (· < ·))
    {m : PageMem} (hFreemap : m.freemap ≠ 0)
    (hIn : ∀ n ∈ ns, n < m.pages ∧ n < 2 ^ 19 ∧ m.bit n = true)
    (hLowest : ∀ n ∈ ns, ∀ k < n, m.bit k = true → k ∈ ns) {heap : KernelHeap}
    (hInit : HeapInit heap) (hNew : ∀ b ∈ heap, ∀ n ∈ ns, b.addr ≠ PageMem.pageAddr n) :
    ∃ heap' m', addPages mem ns.length heap m = .done (heap', m') ∧ HeapInit heap' ∧
      heap'.map (·.addr) = (ns.map PageMem.pageAddr).reverse ++ heap.map (·.addr) := by
  induction ns generalizing m heap with
  | nil => exact ⟨heap, m, rfl, hInit, rfl⟩
  | cons n ns ih =>
    obtain ⟨hBefore, hSorted⟩ := List.pairwise_cons.mp hSorted
    obtain ⟨hPages, hSmall, hBit⟩ := hIn n List.mem_cons_self
    have hLow : ∀ k < n, m.bit k = false := by
      intro k hk
      by_contra hSet
      rcases List.mem_cons.mp
        (hLowest n List.mem_cons_self k hk (by simpa using hSet)) with hEq | hMem
      · omega
      · have := hBefore k hMem
        omega
    obtain ⟨m', hAlloc, hFreemap', hPages', hBits⟩ :=
      m.memoryAllocPage_lowest hFreemap hPages hSmall hBit hLow
    have hAddr : PageMem.pageAddr n = 0x100000 + 4096 * n := rfl
    generalize hPage : (fun i => mem (PageMem.pageAddr n + headerSize + i)) = page
    have hBlock := kheapAddBlock_eq heap page (show PageMem.pageAddr n ≠ 0 by omega)
    have hPages'' : ∀ k ∈ ns, k < m'.pages ∧ k < 2 ^ 19 ∧ m'.bit k = true := by
      intro k hk
      obtain ⟨hkPages, hkSmall, hkBit⟩ := hIn k (List.mem_cons_of_mem n hk)
      have := hBefore k hk
      rw [hPages', hBits, hkBit, Bool.true_and, decide_eq_true_iff]
      exact ⟨hkPages, hkSmall, by omega⟩
    have hLowest' : ∀ k ∈ ns, ∀ l < k, m'.bit l = true → l ∈ ns := by
      intro k hk l hl hSet
      rw [hBits, Bool.and_eq_true, decide_eq_true_iff] at hSet
      exact (List.mem_cons.mp (hLowest k (List.mem_cons_of_mem n hk) l hl hSet.1)).resolve_left
        hSet.2
    have hAdd : HeapInit (kheapAddBlock heap (PageMem.pageAddr n) pageSize 16 page) :=
      .add hInit (by rw [hAddr]; exact ⟨256 + n, by simp only [pageSize]; omega⟩) (by omega)
        fun b hb => hNew b hb n List.mem_cons_self
    have hNew' : ∀ b ∈ kheapAddBlock heap (PageMem.pageAddr n) pageSize 16 page, ∀ k ∈ ns,
        b.addr ≠ PageMem.pageAddr k := by
      intro b hb k hk
      rw [hBlock] at hb
      rcases List.mem_cons.mp hb with rfl | hb
      · intro hEq
        have := hBefore k hk
        have := PageMem.pageAddr_injective hEq
        omega
      · exact hNew b hb k (List.mem_cons_of_mem n hk)
    obtain ⟨heap', m'', hRest, hInit', hAddrs⟩ :=
      ih hSorted (by rw [hFreemap']; exact hFreemap) hPages''
      hLowest' hAdd hNew'
    refine ⟨heap', m'', ?_, hInit', ?_⟩
    · rw [List.length_cons, addPages, hAlloc, Outcome.bind_done]
      subst hPage
      exact hRest
    · rw [hAddrs, hBlock, List.map_cons, List.map_cons, List.reverse_cons, List.append_assoc]
      rfl

-- ---------------------------------------------------------------------------
-- The image as a freemap
-- ---------------------------------------------------------------------------

/-- The first words of the image: the first one cleared by `mem_init`, then the flags and
the checksum of the multiboot header. -/
def bootWords : List (BitVec 32) := [0, 3, 0xE4524FFB]

/-- The pages that the lowest fifteen of their bits stand for. -/
def bootPages : List Nat := [32, 33, 64, 65, 67, 68, 69, 70, 71, 72, 73, 74, 75, 78, 81]

/-- The bits of these words up to the last of the fifteen. -/
theorem bootWords_bits : ∀ n < 82, (bootWords.getD (n / 32) 0).getLsbD (n % 32) =
    decide (n ∈ bootPages) := by
  decide +kernel

section Boot

variable {img : KernelImage} {m : Mem} {g : MemVars}

theorem KernelImage.Loaded.header_byte (h : img.Loaded m)
    (hLength : multibootHeader.length ≤ img.bytes.length) {k : Nat} {b : UInt8}
    (hk : multibootHeader[k]? = some b) : m (imageBase + k) = b := by
  have hLt : k < multibootHeader.length := (List.getElem?_eq_some_iff.mp hk).1
  refine h k b ?_
  have hHead := congrArg (·[k]?) img.header
  simp only [List.getElem?_take, if_pos hLt, if_pos (hLt.trans_le hLength)] at hHead
  exact hHead.trans hk

/-- The words behind the magic number. -/
theorem KernelImage.Loaded.header_words (h : img.Loaded m)
    (hLength : multibootHeader.length ≤ img.bytes.length) :
    m.load32 (imageBase + 4) = 3 ∧ m.load32 (imageBase + 8) = 0xE4524FFB := by
  have hByte : ∀ k b, multibootHeader[k]? = some b → m (imageBase + k) = b :=
    fun _ _ hk => h.header_byte hLength hk
  have hFlags : m (imageBase + 4) = 3 ∧ m (imageBase + 5) = 0 ∧ m (imageBase + 6) = 0 ∧
      m (imageBase + 7) = 0 :=
    ⟨hByte 4 _ rfl, hByte 5 _ rfl, hByte 6 _ rfl, hByte 7 _ rfl⟩
  have hChecksum : m (imageBase + 8) = 0xFB ∧ m (imageBase + 9) = 0x4F ∧
      m (imageBase + 10) = 0x52 ∧
      m (imageBase + 11) = 0xE4 :=
    ⟨hByte 8 _ rfl, hByte 9 _ rfl, hByte 10 _ rfl, hByte 11 _ rfl⟩
  obtain ⟨h₀, h₁, h₂, h₃⟩ := hFlags
  obtain ⟨h₄, h₅, h₆, h₇⟩ := hChecksum
  simp only [Mem.load32, Nat.add_assoc, Nat.reduceAdd, h₀, h₁, h₂, h₃, h₄,
    h₅, h₆, h₇]
  decide

/-- The freemap after `mem_init`: its first words are those of the image. -/
theorem bit_after_memInit (hLoaded : img.Loaded m)
    (hLength : multibootHeader.length ≤ img.bytes.length)
    (hFreemap : g.freemap = allocMemoryStart) {n : Nat} (hn : n < 82) :
    (g.toPageMem (g.setCell m 0 0)).bit n = decide (n ∈ bootPages) := by
  obtain ⟨hFlags, hChecksum⟩ := hLoaded.header_words hLength
  have hCells : ∀ c < 3, g.cell (g.setCell m 0 0) c = bootWords.getD c 0 := by
    intro c hc
    rw [MemVars.cell_setCell]
    rcases (by omega : c = 0 ∨ c = 1 ∨ c = 2) with rfl | rfl | rfl
    · exact Function.update_self _ _ _
    · rw [Function.update_of_ne (by omega), MemVars.cell, hFreemap]
      exact congrArg (BitVec.ofNat 32) hFlags
    · rw [Function.update_of_ne (by omega), MemVars.cell, hFreemap]
      exact congrArg (BitVec.ofNat 32) hChecksum
  rw [← bootWords_bits n hn]
  show (g.cell (g.setCell m 0 0) (n / 32)).getLsbD (n % 32) = _
  rw [hCells (n / 32) (by omega)]

end Boot

-- ---------------------------------------------------------------------------
-- The heap
-- ---------------------------------------------------------------------------

/-- The variables of `vfs.c`, `iso9660.c` and the answers of `readdir` belong to the image,
and do not overlap. -/
structure GlobalsIn (img : KernelImage) (env : ShellEnv) : Prop where
  nodes   : ∀ g ∈ [env.fsRoot, env.fsMnt, env.fsCdromMnt],
      g + 332 ≤ imageBase + img.bytes.length
  answers : ∀ r ∈ [env.iso9660Resp, env.direntResp], r + 260 ≤ imageBase + img.bytes.length
  apart   : ∀ g ∈ [env.fsRoot, env.fsMnt, env.fsCdromMnt],
    env.iso9660Resp + 260 ≤ g ∨ g + 332 ≤ env.iso9660Resp

/-- **The heap at the boot.** For every kernel image with its header, every memory map with
usable memory that is not a multiple of 4 MiB, and whatever else is in memory: `mem_init`
and `main_heap_init` return, and the heap consists of the fifteen pages that the flags and
the checksum of the multiboot header have bits for. These pages keep clear of the image,
and the file system has the layout that it needs, if and only if the image has at most 128
KiB. -/
theorem boot_heap_pages (img : KernelImage)
    (hLength : multibootHeader.length ≤ img.bytes.length) (m : Mem) (hLoaded : img.Loaded m)
    (mbInfo : Nat) (es : List MmapEntry) (hBoot : BootInfo m mbInfo es)
    (hUsable : usable es % 2 ^ 22 ≠ 0) (fuel : Nat) (hFuel : es.length < fuel) :
    ∃ g heap pages, MemVars.start.memInit m mbInfo fuel = .done (g, g.setCell m 0 0) ∧
      mainHeapInit (g.setCell m 0 0) (g.toPageMem (g.setCell m 0 0)) = .done (heap, pages) ∧
      heap.map (·.addr) = (bootPages.map PageMem.pageAddr).reverse ∧
      (∀ mem, Machine.Inv ⟨heap, mem⟩ []) ∧
      ((∀ addr ∈ heap.map (·.addr), ∀ a, addr ≤ a → a < addr + pageSize →
        ¬ img.Covers a) ↔
        img.bytes.length ≤ 128 * 1024) ∧
      ∀ env, GlobalsIn img env → img.bytes.length ≤ 128 * 1024 →
        Layout env (heap.map (·.addr)) := by
  obtain ⟨g, hInit, hFreemap, hCells⟩ := MemVars.memInit_spec hBoot.mapInfo fuel hFuel
  rw [MemVars.counted_eq hBoot] at hCells
  have hBits : ∀ n < 82, (g.toPageMem (g.setCell m 0 0)).bit n = decide (n ∈ bootPages) :=
    fun n hn => bit_after_memInit hLoaded hLength hFreemap hn
  have hRange : ∀ n ∈ bootPages, 32 ≤ n ∧ n < 82 := by decide
  have hPages : 82 < (g.toPageMem (g.setCell m 0 0)).pages := by
    show 82 < g.freemapCells * 32
    omega
  have hIn : ∀ n ∈ bootPages, n < (g.toPageMem (g.setCell m 0 0)).pages ∧ n < 2 ^ 19 ∧
      (g.toPageMem (g.setCell m 0 0)).bit n = true := by
    intro n hn
    have := hRange n hn
    exact ⟨by omega, by omega, by rw [hBits n (by omega), decide_eq_true hn]⟩
  have hLowest : ∀ n ∈ bootPages, ∀ k < n, (g.toPageMem (g.setCell m 0 0)).bit k = true →
      k ∈ bootPages := by
    intro n hn k hk hSet
    have := hRange n hn
    rw [hBits k (by omega)] at hSet
    exact of_decide_eq_true hSet
  have hFreemap' : (g.toPageMem (g.setCell m 0 0)).freemap ≠ 0 := by
    show g.freemap ≠ 0
    rw [hFreemap]
    decide
  obtain ⟨heap, pages, hRun, hHeap, hAddrs⟩ :
      ∃ heap pages, mainHeapInit (g.setCell m 0 0) (g.toPageMem (g.setCell m 0 0)) =
      .done (heap, pages) ∧
        HeapInit heap ∧ heap.map (·.addr) =
        (bootPages.map PageMem.pageAddr).reverse ++ kheapInit.map (·.addr) :=
    addPages_lowest (by decide) hFreemap' hIn hLowest .init (by simp [kheapInit])
  rw [show kheapInit.map (·.addr) = [] from rfl, List.append_nil] at hAddrs
  have hLow : ∀ addr ∈ heap.map (·.addr), 0x120000 ≤ addr := by
    intro addr hAddr
    rw [hAddrs, List.mem_reverse, List.mem_map] at hAddr
    obtain ⟨n, hn, rfl⟩ := hAddr
    have := (hRange n hn).1
    simp only [PageMem.pageAddr, allocMemoryStart, pageSize]
    omega
  refine ⟨g, heap, pages, hInit, hRun, hAddrs, fun mem => hHeap.inv, ⟨?_, ?_⟩, ?_⟩
  · intro hClear
    by_contra hLong
    have hFirst : PageMem.pageAddr 32 ∈ heap.map (·.addr) := by
      rw [hAddrs, List.mem_reverse]
      exact List.mem_map_of_mem List.mem_cons_self
    refine hClear _ hFirst 0x120000 (Nat.le_refl _) (by decide) ⟨by decide, ?_⟩
    simp only [imageBase]
    omega
  · intro hShort addr hAddr a ha _ hCovers
    have := hLow addr hAddr
    have := hCovers.2
    simp only [imageBase] at this
    omega
  · intro env hGlobals hShort
    have hEnd : imageBase + img.bytes.length ≤ 0x120000 := by
      simp only [imageBase]
      omega
    refine ⟨?_, ?_, hGlobals.apart⟩
    · intro addr hAddr r hr
      have := hLow addr hAddr
      have := hGlobals.nodes r hr
      omega
    · intro r hr addr hAddr
      have := hLow addr hAddr
      have := hGlobals.answers r hr
      omega

/-- The image of the header alone, and a map of one region. -/
theorem boot_heap_pages_header :
    ∃ g heap pages, MemVars.start.memInit headerMemory 0x1000 2 =
      .done (g, g.setCell headerMemory 0 0) ∧
      mainHeapInit (g.setCell headerMemory 0 0) (g.toPageMem (g.setCell headerMemory 0 0)) =
        .done (heap, pages) ∧
      heap.map (·.addr) = (bootPages.map PageMem.pageAddr).reverse := by
  obtain ⟨g, heap, pages, hInit, hHeap, hAddrs, -⟩ :=
    boot_heap_pages headerImage (Nat.le_refl _)
    headerMemory headerMemory_loaded 0x1000 [⟨20, 0, 0x7F7FC00, 1⟩] headerMemory_bootInfo
    (by decide) 2
    (by decide)
  exact ⟨g, heap, pages, hInit, hHeap, hAddrs⟩

end Hexos
