import Hexos.Mem.MemoryMap

/-!
# HexOS — start-up of the page allocator

`mem_init` adds up the usable regions of the boot loader's memory map and sizes
the freemap from the sum. It takes the sum for a number of KiB, so the freemap
has 256 bits for each byte of the sum modulo 4 MiB; and it puts the freemap at
`ALLOC_MEMORY_START`, which is where `linker.ld` puts the kernel.

## Results

* `memInit_spec` — what `mem_init` computes from a memory map.
* `pages_exist_iff` — when every page handed out exists.
* `freemap_overwrites_image` — `mem_init` overwrites the kernel image.
-/

namespace Hexos

open Transition

-- ---------------------------------------------------------------------------
-- mem_init
-- ---------------------------------------------------------------------------

namespace MemVars

variable {g : MemVars} {m : Mem} {stop a fuel mbInfo : Nat} {es : List MmapEntry}

/-- The loop of `mem_check_avail` adds up the regions of type 1 in 32 bits. -/
theorem checkEntries_spec (h : MmapAt m stop a es) (hStop : stop < 2 ^ 32)
    (hUsable : g.usableMemorySize < 2 ^ 32) (hTotal : g.totalMemorySize < 2 ^ 32)
    (hFuel : es.length < fuel) :
    ∃ g', checkEntries m stop fuel a g = .done g' ∧
      g'.usableMemorySize = (g.usableMemorySize + usable es) % 2 ^ 32 := by
  refine ⟨_, ?_, congrArg MemVars.usableMemorySize (foldl_countEntry h hUsable hTotal)⟩
  rw [checkEntries_eq_foldl, visitEntries_spec h hStop hFuel, Outcome.map_done]

/-- The usable memory that the loop counts: nothing of a map that ends at `2^32`. -/
def counted (m : Mem) (mbInfo : Nat) (es : List MmapEntry) : Nat :=
  if m.load32 (mbInfo + 48) + m.load32 (mbInfo + 44) = 2 ^ 32 then 0 else usable es

theorem counted_eq (hBoot : BootInfo m mbInfo es) : counted m mbInfo es = usable es :=
  if_neg (Nat.ne_of_lt hBoot.bound)

theorem counted_le (m : Mem) (mbInfo : Nat) (es : List MmapEntry) :
    counted m mbInfo es = 0 ∨ counted m mbInfo es = usable es := by
  unfold counted
  split
  · exact .inl rfl
  · exact .inr rfl

/-- The sum after `mem_check_avail`. -/
theorem memCheckAvail_spec (hMap : MapInfo m mbInfo es) (hFuel : es.length < fuel) :
    ∃ g, MemVars.start.memCheckAvail m mbInfo fuel = .done g ∧
      g.usableMemorySize = counted m mbInfo es % 2 ^ 32 := by
  by_cases hTop : m.load32 (mbInfo + 48) + m.load32 (mbInfo + 44) = 2 ^ 32
  · refine ⟨start, ?_, by rw [counted, if_pos hTop]; rfl⟩
    rw [memCheckAvail, checkEntries_eq_foldl,
      visitEntries_at_top hTop (Nat.zero_lt_of_lt hFuel), Outcome.map_done]
    rfl
  · have hBoot := hMap.bootInfo hTop
    obtain ⟨g, hRun, hSum⟩ := checkEntries_spec (g := MemVars.start) hBoot.map hBoot.bound
      (by decide) (by decide) hFuel
    refine ⟨g, ?_, ?_⟩
    · rw [memCheckAvail, Nat.mod_eq_of_lt hBoot.bound, hRun]
    · rw [hSum, counted_eq hBoot, show start.usableMemorySize = 0 from rfl, Nat.zero_add]

/-- **Start-up.** The freemap is at `ALLOC_MEMORY_START`; it has one cell more
than 8 for each byte of the usable memory modulo 4 MiB. -/
theorem memInit_spec (hMap : MapInfo m mbInfo es) (fuel : Nat) (hFuel : es.length < fuel) :
    ∃ g, MemVars.start.memInit m mbInfo fuel = .done (g, g.setCell m 0 0) ∧
      g.freemap = allocMemoryStart ∧
      g.freemapCells = 1 + 8 * (counted m mbInfo es % 2 ^ 22) := by
  obtain ⟨g', hRun, hSum⟩ := memCheckAvail_spec hMap hFuel
  refine ⟨g'.sized, ?_, rfl, ?_⟩
  · rw [memInit, hRun, Outcome.map_done]
  · simp only [sized, hSum, pageSize, cellBits]
    omega

/-- A bound that is too small for the map is used up. -/
theorem checkEntries_running (h : MmapAt m stop a es) (hStop : stop < 2 ^ 32)
    (hFuel : fuel ≤ es.length) : checkEntries m stop fuel a g = .running := by
  induction es generalizing a g fuel with
  | nil =>
    obtain rfl : fuel = 0 := by simpa using hFuel
    rfl
  | cons e es ih =>
    obtain ⟨hAt, hNext⟩ := h
    have hLe := mmapAt_le hNext
    cases fuel with
    | zero => rfl
    | succ fuel =>
      rw [checkEntries, if_pos (by omega)]
      simp only [hAt.size]
      rw [Nat.mod_eq_of_lt (show a + e.size + 4 < 2 ^ 32 by omega)]
      exact ih hNext (by simpa using hFuel)

/-- A return of `mem_check_avail` does not depend on the bound. -/
theorem memCheckAvail_done (hMap : MapInfo m mbInfo es)
    (h : MemVars.start.memCheckAvail m mbInfo fuel = .done g) :
    g.usableMemorySize = counted m mbInfo es % 2 ^ 32 := by
  by_cases hFuel : es.length < fuel
  · obtain ⟨g', hRun, hSum⟩ := memCheckAvail_spec hMap hFuel
    rw [hRun] at h
    rw [← Outcome.done.inj h, hSum]
  · by_cases hTop : m.load32 (mbInfo + 48) + m.load32 (mbInfo + 44) = 2 ^ 32
    · cases fuel with
      | zero => cases h
      | succ fuel =>
        rw [memCheckAvail, checkEntries_eq_foldl,
          visitEntries_at_top hTop (Nat.succ_pos fuel), Outcome.map_done] at h
        rw [← Outcome.done.inj h, counted, if_pos hTop]
        rfl
    · have hBoot := hMap.bootInfo hTop
      rw [memCheckAvail, Nat.mod_eq_of_lt hBoot.bound,
        checkEntries_running hBoot.map hBoot.bound (by omega)] at h
      cases h

/-- What is known of every return of `mem_init`. -/
theorem memInit_done (hMap : MapInfo m mbInfo es) (g : MemVars) (m' : Mem)
    (h : MemVars.start.memInit m mbInfo fuel = .done (g, m')) :
    m' = g.setCell m 0 0 ∧ g.freemap = allocMemoryStart ∧
      g.freemapCells = 1 + 8 * (counted m mbInfo es % 2 ^ 22) := by
  rw [memInit] at h
  cases hRun : MemVars.start.memCheckAvail m mbInfo fuel with
  | done g' =>
    have hSum := memCheckAvail_done hMap hRun
    rw [hRun, Outcome.map_done] at h
    obtain ⟨rfl, rfl⟩ := Prod.mk.inj (Outcome.done.inj h)
    refine ⟨rfl, rfl, ?_⟩
    simp only [sized, hSum, pageSize, cellBits]
    omega
  | running =>
    rw [hRun] at h
    cases h
  | panic =>
    rw [hRun] at h
    cases h

end MemVars

-- ---------------------------------------------------------------------------
-- The pages handed out
-- ---------------------------------------------------------------------------

/-- A call of the allocator, with any argument. -/
inductive PageCall : MemVars × Mem → MemVars × Mem → Prop
  | alloc {g g' : MemVars} {m m' : Mem} {zeroit : Bool} {p : Nat} :
      g.memoryAllocPage m zeroit = .done (p, g', m') → PageCall (g, m) (g', m')
  | free {g : MemVars} {m : Mem} {pageaddr : Nat} :
      pageaddr < 2 ^ 32 → PageCall (g, m) (g.memoryFreePage m pageaddr)

/-- All sequences of calls from the state `s₀`. -/
def callSystem (s₀ : MemVars × Mem) : System (MemVars × Mem) where
  init s := s = s₀
  step := PageCall

/-- The number of the page at the address `p`. -/
def pageNumber (p : Nat) : Nat := (p + 2 ^ 32 - allocMemoryStart) % 2 ^ 32 / pageSize

/-- With `U` bytes of usable memory, whatever the map and the memory contain,
every page that is ever handed out is one of the `U / 4096` whole pages. -/
def PagesExist (U : Nat) : Prop :=
  ∀ (m : Mem) (mbInfo : Nat) (es : List MmapEntry) (fuel : Nat) (s₀ : MemVars × Mem),
    MapInfo m mbInfo es → usable es = U → MemVars.start.memInit m mbInfo fuel = .done s₀ →
    ∀ s, Reachable (callSystem s₀) s → ∀ zeroit p s',
      s.1.memoryAllocPage s.2 zeroit = .done (p, s') → pageNumber p < U / pageSize

theorem PageCall.freemap {s s' : MemVars × Mem} (h : PageCall s s') :
    s'.1.freemap = s.1.freemap ∧ s'.1.freemapCells = s.1.freemapCells := by
  cases h with
  | alloc hAlloc => exact MemVars.memoryAllocPage_freemap hAlloc
  | free _ => exact MemVars.memoryFreePage_freemap _ _ _

/-- **Run lemma.** No sequence of calls moves or resizes the freemap. -/
theorem callSystem_freemap {s₀ s : MemVars × Mem} (h : Reachable (callSystem s₀) s) :
    s.1.freemap = s₀.1.freemap ∧ s.1.freemapCells = s₀.1.freemapCells := by
  refine Reachable.invariant (I := fun s => s.1.freemap = s₀.1.freemap ∧
    s.1.freemapCells = s₀.1.freemapCells) ?_ ?_ h
  · rintro s rfl
    exact ⟨rfl, rfl⟩
  · intro s s' _ hInv hStep
    obtain ⟨hMap, hCells⟩ := PageCall.freemap hStep
    exact ⟨hMap.trans hInv.1, hCells.trans hInv.2⟩

/-- A freemap with no bit beyond the last page is enough. -/
theorem pagesExist_of_le {U : Nat} (h : 32 + 256 * (U % 2 ^ 22) ≤ U / pageSize) :
    PagesExist U := by
  rintro m mbInfo es fuel s₀ hMap hUsable hInit s hs zeroit p ⟨g', m'⟩ hAlloc
  obtain ⟨-, hFreemap₀, hCells₀⟩ := MemVars.memInit_done hMap s₀.1 s₀.2 hInit
  obtain ⟨hFreemap, hCells⟩ := callSystem_freemap hs
  have hPlace : s.1.freemap = 0x100000 := hFreemap.trans hFreemap₀
  obtain ⟨n, hn, hp, -⟩ :=
    MemVars.memoryAllocPage_takes (by rw [hPlace]; decide) (by rw [hPlace]) hAlloc
  simp only [PageMem.pages, MemVars.toPageMem, cellBits] at hn
  simp only [pageNumber, pageSize, allocMemoryStart] at h ⊢
  rw [hCells, hCells₀] at hn
  -- a map that is not walked leaves a freemap of one cell
  have hRoom : 256 * (MemVars.counted m mbInfo es % 2 ^ 22) ≤ 256 * (U % 2 ^ 22) := by
    rcases MemVars.counted_le m mbInfo es with hNone | hAll
    · rw [hNone]
      exact Nat.zero_le _
    · rw [hAll, hUsable]
  rw [hp]
  simp only [pageSize, allocMemoryStart]
  omega

/-- A memory whose map has one region of `U` usable bytes and whose freemap cell
`c` is `v`. -/
def oneRegion (U c v : Nat) : Mem :=
  let zeroed : Mem := fun _ => 0
  let mbInfo := (zeroed.store32 0x102c 24).store32 0x1030 0x2000
  let entry := ((mbInfo.store32 0x2000 20).store32 0x200c U).store32 0x2014 1
  entry.store32 (allocMemoryStart + 4 * c) v

theorem load32_zeroed (a : Nat) : Mem.load32 (fun _ => 0) a = 0 := rfl

theorem oneRegion_bootInfo {U : Nat} (hU : U < 2 ^ 32) (c v : Nat) :
    BootInfo (oneRegion U c v) 0x1000 [⟨20, 0, U, 1⟩] := by
  have hLength : (oneRegion U c v).load32 (0x1000 + 44) = 24 := by
    simp (disch := omega)
      only [oneRegion, allocMemoryStart, Nat.reduceAdd, Mem.load32_store32_other,
      Mem.load32_store32]
  have hAddr : (oneRegion U c v).load32 (0x1000 + 48) = 0x2000 := by
    simp (disch := omega)
      only [oneRegion, allocMemoryStart, Nat.reduceAdd, Mem.load32_store32_other,
      Mem.load32_store32]
  refine ⟨by omega, ?_⟩
  rw [hAddr, hLength]
  refine ⟨⟨?_, ?_, ?_, ?_⟩, rfl⟩ <;>
    simp (disch := omega)
      only [oneRegion, allocMemoryStart, Nat.reduceAdd, Mem.load32_store32_other,
      Mem.load32_store32, load32_zeroed, Nat.mul_zero, Nat.add_zero]

/-- The freemap of that memory, above the map itself. -/
theorem oneRegion_cell (U c : Nat) {v : Nat} (hv : v < 2 ^ 32) (k : Nat) :
    (oneRegion U c v).load32 (allocMemoryStart + 4 * k) = if k = c then v else 0 := by
  by_cases hk : k = c
  · subst hk
    rw [if_pos rfl, oneRegion, Mem.load32_store32 hv]
  · rw [if_neg hk]
    simp (disch := omega)
      only [oneRegion, allocMemoryStart, Mem.load32_store32_other, load32_zeroed]

/-- A page beyond the usable memory that the allocator hands out. -/
theorem exists_page_beyond {U : Nat} (hU : U < 2 ^ 32) (hPos : 0 < U % 2 ^ 22)
    (h : U / pageSize < 32 + 256 * (U % 2 ^ 22)) :
    ∃ (m : Mem) (g : MemVars) (s' : MemVars × Mem),
      BootInfo m 0x1000 [⟨20, 0, U, 1⟩] ∧
      MemVars.start.memInit m 0x1000 2 = .done (g, g.setCell m 0 0) ∧
      g.memoryAllocPage (g.setCell m 0 0) false =
        .done (PageMem.pageAddr (max 32 (U / pageSize)) % 2 ^ 32, s') := by
  let N := max 32 (U / pageSize)
  have hN : 32 ≤ N ∧ N < 2 ^ 20 ∧ N < 32 + 256 * (U % 2 ^ 22) := by
    simp only [N, pageSize] at h ⊢
    omega
  have hv : 2 ^ (N % 32) < 2 ^ 32 := Nat.pow_lt_pow_right (by omega) (by omega)
  let m := oneRegion U (N / 32) (2 ^ (N % 32))
  have hBoot : BootInfo m 0x1000 [⟨20, 0, U, 1⟩] := oneRegion_bootInfo hU _ _
  obtain ⟨g, hInit, hFreemap, hCells⟩ := MemVars.memInit_spec hBoot.mapInfo 2 (by simp)
  have hUsable : usable [⟨20, 0, U, 1⟩] = U := by simp [usable]
  rw [MemVars.counted_eq hBoot, hUsable] at hCells
  -- page `N` is the only free page
  have hBit : ∀ k, (g.toPageMem (g.setCell m 0 0)).bit k = decide (k = N) := by
    intro k
    simp only [PageMem.bit, MemVars.toPageMem, MemVars.cell_setCell, cellBits]
    by_cases hk : k / 32 = 0
    · rw [hk, Function.update_self, decide_eq_false (by omega)]
      exact BitVec.getLsbD_zero
    · rw [Function.update_of_ne hk, MemVars.cell, hFreemap, oneRegion_cell U _ hv,
        BitVec.getLsbD_ofNat]
      by_cases hCell : k / 32 = N / 32
      · rw [if_pos hCell, Nat.testBit_two_pow, decide_eq_true (by omega), Bool.true_and,
          decide_eq_decide]
        omega
      · rw [if_neg hCell, Nat.zero_testBit, Bool.and_false,
          decide_eq_false (by rintro rfl; exact hCell rfl)]
  have hPages : N < (g.toPageMem (g.setCell m 0 0)).pages := by
    simp only [PageMem.pages, MemVars.toPageMem, cellBits, hCells]
    omega
  obtain ⟨p, g', m', hAlloc⟩ :=
    MemVars.memoryAllocPage_returns (by rw [hFreemap]; decide) hPages
    (by rw [hBit, decide_eq_true rfl]) false
  obtain ⟨n, -, hp, hn, -⟩ := MemVars.memoryAllocPage_takes (by rw [hFreemap]; decide)
    (by rw [hFreemap]; decide) hAlloc
  rw [hBit, decide_eq_true_eq] at hn
  refine ⟨m, g, (g', m'), hBoot, hInit, ?_⟩
  rw [hAlloc, hp, hn]
  have hAddr : (N % 2 ^ 32 * pageSize % 2 ^ 32 + allocMemoryStart) % 2 ^ 32 =
      PageMem.pageAddr N % 2 ^ 32 := by
    simp only [pageSize, allocMemoryStart, PageMem.pageAddr]
    omega
  rw [hAddr]

/-- Without usable memory, a free and an allocation still hand out a page. -/
theorem exists_page_of_none :
    ∃ (m : Mem) (g g' : MemVars) (m' : Mem) (p : Nat) (s' : MemVars × Mem),
      BootInfo m 0x1000 [⟨20, 0, 0, 1⟩] ∧
      MemVars.start.memInit m 0x1000 2 = .done (g, g.setCell m 0 0) ∧
      g.memoryFreePage (g.setCell m 0 0) (PageMem.pageAddr 0) = (g', m') ∧
      g'.memoryAllocPage m' false = .done (p, s') := by
  let m := oneRegion 0 0 0
  have hBoot : BootInfo m 0x1000 [⟨20, 0, 0, 1⟩] := oneRegion_bootInfo (by omega) _ _
  obtain ⟨g, hInit, hFreemap, hCells⟩ := MemVars.memInit_spec hBoot.mapInfo 2 (by simp)
  have hView := MemVars.toPageMem_memoryFreePage g (g.setCell m 0 0) (PageMem.pageAddr 0)
  obtain ⟨hFreemap', hCells'⟩ :=
    MemVars.memoryFreePage_freemap g (g.setCell m 0 0) (PageMem.pageAddr 0)
  have hBit : ((g.toPageMem (g.setCell m 0 0)).memoryFreePage (PageMem.pageAddr 0)).bit 0 =
      true := by
    rw [PageMem.memoryFreePage_bit (by omega), decide_eq_true rfl, Bool.or_true]
  rw [← hView] at hBit
  generalize hFree : g.memoryFreePage (g.setCell m 0 0) (PageMem.pageAddr 0) =
    s at hBit hFreemap' hCells'
  have hPages : 0 < (s.1.toPageMem s.2).pages := by
    simp only [PageMem.pages, MemVars.toPageMem, cellBits, hCells', hCells]
    omega
  obtain ⟨p, g', m', hAlloc⟩ :=
    MemVars.memoryAllocPage_returns (by rw [hFreemap', hFreemap]; decide)
    hPages hBit false
  exact ⟨m, g, s.1, s.2, p, (g', m'), hBoot, hInit, hFree, hAlloc⟩

/-- **Pages that exist.** The pages handed out are pages of usable memory
exactly when the freemap has no bit beyond the last whole page. -/
theorem pages_exist_iff (U : Nat) (hU : U < 2 ^ 32) :
    PagesExist U ↔ 32 + 256 * (U % 2 ^ 22) ≤ U / pageSize := by
  refine ⟨?_, pagesExist_of_le⟩
  intro h
  by_contra hNot
  by_cases hPos : 0 < U % 2 ^ 22
  · obtain ⟨m, g, s', hBoot, hInit, hAlloc⟩ := exists_page_beyond hU hPos (by omega)
    have hLt :=
      h m 0x1000 _ 2 _ hBoot.mapInfo (by simp [usable]) hInit _ (.init rfl) false _ s' hAlloc
    simp only [pageNumber, PageMem.pageAddr, pageSize, allocMemoryStart] at hLt
    omega
  · obtain rfl : U = 0 := by
      simp only [pageSize] at hNot
      omega
    obtain ⟨m, g, g', m', p, s', hBoot, hInit, hFree, hAlloc⟩ := exists_page_of_none
    have hStep : PageCall (g, g.setCell m 0 0) (g', m') := hFree ▸ .free (by decide)
    have hLt := h m 0x1000 _ 2 _ hBoot.mapInfo (by simp [usable]) hInit _
      (.step (.init rfl) hStep) false p s' hAlloc
    simp [pageSize] at hLt

/-- 4 MiB of usable memory: the sum is taken for 0 KiB, and no page beyond it is
handed out. -/
theorem pages_exist_four_mebibytes : (2 ^ 22 : Nat) < 2 ^ 32 ∧ PagesExist (2 ^ 22) :=
  ⟨by omega, (pages_exist_iff (2 ^ 22) (by omega)).mpr (by decide)⟩

/-- About 128 MiB of usable memory, 32639 whole pages: with a freemap whose only
set bit is that of page 32639, that page is handed out. -/
theorem page_beyond_memory :
    ∃ (m : Mem) (g : MemVars) (s' : MemVars × Mem),
      BootInfo m 0x1000 [⟨20, 0, 0x7F7FC00, 1⟩] ∧
      usable [⟨20, 0, 0x7F7FC00, 1⟩] = 0x7F7FC00 ∧
      MemVars.start.memInit m 0x1000 2 = .done (g, g.setCell m 0 0) ∧
      g.memoryAllocPage (g.setCell m 0 0) false = .done (0x807F000, s') ∧
      ¬ pageNumber 0x807F000 < 0x7F7FC00 / pageSize ∧ ¬ PagesExist 0x7F7FC00 := by
  obtain ⟨m, g, s', hBoot, hInit, hAlloc⟩ :=
    exists_page_beyond (U := 0x7F7FC00) (by omega) (by omega)
    (by decide)
  have hUsable : usable [⟨20, 0, 0x7F7FC00, 1⟩] = 0x7F7FC00 := by decide
  have hBeyond : ¬ pageNumber 0x807F000 < 0x7F7FC00 / pageSize := by decide
  exact ⟨m, g, s', hBoot, hUsable, hInit, hAlloc, hBeyond, fun h =>
    hBeyond (h m 0x1000 _ 2 _ hBoot.mapInfo hUsable hInit _ (.init rfl) false _ s' hAlloc)⟩

-- ---------------------------------------------------------------------------
-- The kernel image
-- ---------------------------------------------------------------------------

/-- The address at which `linker.ld` starts the image: `1M`. -/
def imageBase : Nat := 1024 * 1024

/-- The section `.multiboot` of `boot.S`: magic, flags and checksum. -/
def multibootHeader : List UInt8 :=
  [0x02, 0xB0, 0xAD, 0x1B, 0x03, 0x00, 0x00, 0x00, 0xFB, 0x4F, 0x52, 0xE4]

/-- A linked kernel: at least one byte, the multiboot header first. -/
structure KernelImage where
  bytes    : List UInt8
  nonempty : bytes ≠ []
  header   : bytes.take multibootHeader.length = multibootHeader.take bytes.length

namespace KernelImage

/-- The bytes that belong to the image. -/
def Covers (img : KernelImage) (a : Nat) : Prop :=
  imageBase ≤ a ∧ a < imageBase + img.bytes.length

/-- The image is in memory where it was linked. -/
def Loaded (img : KernelImage) (m : Mem) : Prop :=
  ∀ k b, img.bytes[k]? = some b → m (imageBase + k) = b

variable {img : KernelImage} {m : Mem}

theorem length_pos (img : KernelImage) : 0 < img.bytes.length :=
  List.length_pos_of_ne_nil img.nonempty

/-- The first byte of the magic number. -/
theorem Loaded.first (h : img.Loaded m) : m imageBase = 0x02 := by
  refine h 0 0x02 ?_
  have hHead := congrArg (·[0]?) img.header
  simp only [List.getElem?_take, if_pos img.length_pos] at hHead
  exact hHead

end KernelImage

/-- **The freemap on the kernel.** For every kernel image and every memory map,
`mem_init` changes the first byte of the image; after it and after every further
sequence of calls, that byte belongs to the freemap array and to the image. -/
theorem freemap_overwrites_image (img : KernelImage) (m : Mem) (mbInfo : Nat) (es : List MmapEntry)
    (fuel : Nat) (hLoaded : img.Loaded m) (hMap : MapInfo m mbInfo es) (hFuel : es.length < fuel) :
    ∃ s₀, MemVars.start.memInit m mbInfo fuel = .done s₀ ∧
      s₀.2 imageBase ≠ m imageBase ∧
      ∀ s, Reachable (callSystem s₀) s → s.1.InFreemap imageBase ∧
        img.Covers imageBase := by
  obtain ⟨g, hInit, hBase, hCells⟩ := MemVars.memInit_spec hMap fuel hFuel
  refine ⟨_, hInit, ?_, fun s hs => ⟨?_, ?_⟩⟩
  · have hZero : g.setCell m 0 0 imageBase = 0 := by
      rw [MemVars.setCell, hBase, show allocMemoryStart + 4 * 0 = imageBase from rfl,
        show (0 : BitVec 32).toNat = 0 from rfl, Mem.store32_zero (Nat.le_refl _) (by omega)]
    rw [show (g, g.setCell m 0 0).2 = g.setCell m 0 0 from rfl, hZero, hLoaded.first]
    decide
  · obtain ⟨hPlace, hSize⟩ := callSystem_freemap hs
    have hPlace' : s.1.freemap = imageBase := hPlace.trans hBase
    have hSize' := hSize.trans hCells
    exact ⟨by omega, by omega⟩
  · exact ⟨Nat.le_refl _, by have := img.length_pos; omega⟩

/-- An image of the header alone. -/
def headerImage : KernelImage := ⟨multibootHeader, by decide, by decide⟩

/-- A memory with that image and a map of one region. -/
def headerMemory : Mem :=
  (oneRegion 0x7F7FC00 0 0).copyIn imageBase 12 fun k => multibootHeader.getD k 0

theorem headerMemory_loaded : headerImage.Loaded headerMemory := by
  intro k b hk
  have hLt : k < 12 := (List.getElem?_eq_some_iff.mp hk).1
  rw [headerMemory, Mem.copyIn_in hLt]
  simp only [List.getD_eq_getElem?_getD]
  rw [show multibootHeader[k]? = some b from hk]
  rfl

theorem headerMemory_bootInfo : BootInfo headerMemory 0x1000 [⟨20, 0, 0x7F7FC00, 1⟩] := by
  refine ⟨by decide, ?_⟩
  rw [show headerMemory.load32 (0x1000 + 48) = 0x2000 by decide,
    show headerMemory.load32 (0x1000 + 44) = 24 by decide]
  exact ⟨⟨by decide, by decide, by decide, by decide⟩, rfl⟩

/-- The theorem for that image. -/
theorem freemap_overwrites_image_header :
    headerImage.Loaded headerMemory ∧
      ∃ s₀, MemVars.start.memInit headerMemory 0x1000 2 = .done s₀ ∧
        s₀.2 imageBase ≠ headerMemory imageBase :=
  ⟨headerMemory_loaded, by
    obtain ⟨s₀, hInit, hChanged, -⟩ :=
      freemap_overwrites_image headerImage headerMemory 0x1000 _ 2
      headerMemory_loaded headerMemory_bootInfo.mapInfo (by decide)
    exact ⟨s₀, hInit, hChanged⟩⟩

/-- The magic number `0x1BADB002` of that image is 0 after `mem_init`. -/
theorem mem_init_clears_magic :
    headerImage.Loaded headerMemory ∧ headerMemory.load32 imageBase = 0x1BADB002 ∧
      ∃ g m', MemVars.start.memInit headerMemory 0x1000 2 = .done (g, m') ∧
        m'.load32 imageBase = 0 ∧ g.InFreemap imageBase ∧ headerImage.Covers imageBase := by
  obtain ⟨g, hInit, hBase, hCells⟩ :=
    MemVars.memInit_spec headerMemory_bootInfo.mapInfo 2 (by decide)
  refine ⟨headerMemory_loaded, by decide, g, _, hInit, ?_, ?_, ?_⟩
  · rw [MemVars.setCell, hBase, show allocMemoryStart + 4 * 0 = imageBase from rfl,
      Mem.load32_store32 (by omega)]
    rfl
  · have hBase' : g.freemap = imageBase := hBase
    exact ⟨by omega, by omega⟩
  · exact ⟨Nat.le_refl _, by decide⟩

end Hexos
