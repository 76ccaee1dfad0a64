import Hexos.Heap.Invariant

/-!
# HexOS — when `kalloc` returns, panics and never ends

A block serves a request when it has room and a fitting run, and it hangs the
call when it has room, no fitting run, and `lfb` strictly inside a run of free
cells: `kfree` never moves `lfb`, so a free next to it leaves the block like
that. The first block of the list that serves or hangs decides the call.

A run that fits only from `lfb` on is not seen by the scan at all: this is how
`kalloc` reports a full heap that is not full.

## Results

* `kalloc_outcome` — the three outcomes of a call.
* `kalloc_ends_iff` — exactly when a call ends, in every reachable state.
* `kalloc_finds_free_run_iff` — exactly when a free run is enough not to panic.
* `kalloc_again` — a large buffer can be allocated and freed over and over.
-/

namespace Hexos

open Transition KernelHeapBlockBm

namespace KernelHeapBlockBm

/-- The scan of the block allocates. -/
def Serves (b : KernelHeapBlockBm) (size : Nat) : Prop :=
  b.Room size ∧ b.Fits (blocksFor size b.bsize)

/-- The scan of the block never ends. -/
def Hangs (b : KernelHeapBlockBm) (size : Nat) : Prop :=
  b.Room size ∧ ¬ b.Fits (blocksFor size b.bsize) ∧ b.LfbInside

end KernelHeapBlockBm

variable {b : KernelHeapBlockBm} {bs heap : KernelHeap} {size : Nat}

-- ---------------------------------------------------------------------------
-- One block and the rest of the list
-- ---------------------------------------------------------------------------

theorem kalloc_cons_of_not_room (h : ¬ b.Room size) (f : Nat) :
    kalloc f (b :: bs) size = (kalloc f bs size).map fun (ptr, bs) => (ptr, b :: bs) := by
  rw [kalloc]
  exact if_neg h

theorem kalloc_cons_of_room (h : b.Room size) (f : Nat) :
    kalloc f (b :: bs) size =
      match b.kallocScan (blocksFor size b.bsize) f b.scanStart with
      | none => .running
      | some (some x) => .done (b.cellAddr x, b.take x (blocksFor size b.bsize) :: bs)
      | some none => (kalloc f bs size).map fun (ptr, bs) => (ptr, b :: bs) := by
  rw [kalloc]
  exact if_pos h

theorem kalloc_serves (hb : b.LfbBounds) (h : b.Serves size) :
    ∃ k r, ∀ f, kalloc (f + k) (b :: bs) size = .done r := by
  obtain ⟨w, k, hScan⟩ := scan_fits hb h.2
  refine ⟨k, (b.cellAddr w, b.take w (blocksFor size b.bsize) :: bs), ?_⟩
  intro f
  rw [kalloc_cons_of_room h.1, hScan f]

theorem kalloc_hangs (hb : b.LfbBounds) (h : b.Hangs size) (f : Nat) :
    kalloc f (b :: bs) size = .running := by
  rw [kalloc_cons_of_room h.1, scan_runs hb h.2.1 h.2.2 f]

/-- A block that neither serves nor hangs is passed, after enough rounds; before
that the call is still running. -/
theorem kalloc_passes (bs : KernelHeap) (hb : b.LfbBounds) (hServes : ¬ b.Serves size)
    (hHangs : ¬ b.Hangs size) :
    (∃ k, ∀ f, kalloc (f + k) (b :: bs) size =
      (kalloc (f + k) bs size).map fun (ptr, bs) => (ptr, b :: bs)) ∧
    ∀ f, kalloc f (b :: bs) size = .running ∨
      kalloc f (b :: bs) size = (kalloc f bs size).map fun (ptr, bs) => (ptr, b :: bs) := by
  by_cases hRoom : b.Room size
  · have hFits : ¬ b.Fits (blocksFor size b.bsize) := fun hc => hServes ⟨hRoom, hc⟩
    have hInside : ¬ b.LfbInside := fun hc => hHangs ⟨hRoom, hFits, hc⟩
    obtain ⟨k, hScan⟩ := scan_ends hb hFits hInside
    refine ⟨⟨k, ?_⟩, ?_⟩
    · intro f
      rw [kalloc_cons_of_room hRoom, hScan f]
    · intro f
      rw [kalloc_cons_of_room hRoom]
      cases hf : b.kallocScan (blocksFor size b.bsize) f b.scanStart with
      | none => exact Or.inl rfl
      | some o =>
        -- with more rounds the scan would give the same result
        have hMore := kallocScan_mono hf (Nat.le_add_right f k)
        rw [hScan f] at hMore
        obtain rfl : none = o := Option.some.inj hMore
        exact Or.inr rfl
  · exact ⟨⟨0, fun f => kalloc_cons_of_not_room hRoom _⟩,
      fun f => Or.inr (kalloc_cons_of_not_room hRoom f)⟩

-- ---------------------------------------------------------------------------
-- The outcome of a call
-- ---------------------------------------------------------------------------

/-- The message of the panic at the end of `kalloc`. -/
def outOfMemory : String := "kalloc: Out of memory!"

/-- Every block that hangs comes after one that serves. -/
def HangsGuarded (heap : KernelHeap) (size : Nat) : Prop :=
  ∀ pre b post, heap = pre ++ b :: post → b.Hangs size → ∃ c ∈ pre, c.Serves size

theorem hangsGuarded_nil : HangsGuarded [] size := by
  intro pre b post h
  simp at h

theorem hangsGuarded_cons :
    HangsGuarded (b :: bs) size ↔ b.Serves size ∨ ¬ b.Hangs size ∧ HangsGuarded bs size := by
  constructor
  · intro h
    by_cases hServes : b.Serves size
    · exact Or.inl hServes
    refine Or.inr ⟨?_, ?_⟩
    · intro hHangs
      obtain ⟨c, hc, -⟩ := h [] b bs rfl hHangs
      cases hc
    · intro pre c post hEq hHangs
      obtain ⟨d, hd, hdServes⟩ := h (b :: pre) c post (by rw [hEq]; rfl) hHangs
      rcases List.mem_cons.mp hd with rfl | hd
      · exact absurd hdServes hServes
      · exact ⟨d, hd, hdServes⟩
  · intro h pre c post hEq hHangs
    cases pre with
    | nil =>
      obtain ⟨rfl, rfl⟩ : b = c ∧ bs = post := by simpa using hEq
      rcases h with hServes | ⟨hNot, -⟩
      · exact absurd hServes.2 hHangs.2.1
      · exact absurd hHangs hNot
    | cons d pre =>
      obtain ⟨rfl, rfl⟩ : b = d ∧ bs = pre ++ c :: post := by simpa using hEq
      rcases h with hServes | ⟨-, hRest⟩
      · exact ⟨b, List.mem_cons_self, hServes⟩
      · obtain ⟨e, he, heServes⟩ := hRest pre c post rfl hHangs
        exact ⟨e, List.mem_cons_of_mem b he, heServes⟩

/-- **Outcome.** A call whose hanging blocks are guarded returns a pointer, if
some block serves, and panics otherwise; any other call never ends. -/
theorem kalloc_outcome (hb : ∀ b ∈ heap, b.LfbBounds) (size : Nat) :
    (HangsGuarded heap size ∧ (∃ b ∈ heap, b.Serves size) ∧
      ∃ k r, ∀ f, kalloc (f + k) heap size = .done r) ∨
    (HangsGuarded heap size ∧ (∀ b ∈ heap, ¬ b.Serves size ∧ ¬ b.Hangs size) ∧
      ∃ k, ∀ f, kalloc (f + k) heap size = .panic outOfMemory) ∨
    (¬ HangsGuarded heap size ∧ ∀ f, kalloc f heap size = .running) := by
  induction heap with
  | nil =>
    refine Or.inr (Or.inl ⟨hangsGuarded_nil, by simp, 0, ?_⟩)
    intro f
    rw [kalloc]
    rfl
  | cons b bs ih =>
    have hHead := hb b List.mem_cons_self
    by_cases hServes : b.Serves size
    · exact Or.inl ⟨hangsGuarded_cons.mpr (Or.inl hServes), ⟨b, List.mem_cons_self, hServes⟩,
        kalloc_serves hHead hServes⟩
    by_cases hHangs : b.Hangs size
    · refine Or.inr (Or.inr ⟨?_, kalloc_hangs hHead hHangs⟩)
      intro hc
      rcases hangsGuarded_cons.mp hc with hc | hc
      · exact hServes hc
      · exact hc.1 hHangs
    -- the block is passed and the rest of the list decides
    obtain ⟨⟨k, hPass⟩, hStep⟩ := kalloc_passes bs hHead hServes hHangs
    have hGuard : HangsGuarded (b :: bs) size ↔ HangsGuarded bs size := by
      rw [hangsGuarded_cons]
      exact ⟨fun h => (h.resolve_left hServes).2, fun h => Or.inr ⟨hHangs, h⟩⟩
    rcases ih fun c hc => hb c (List.mem_cons_of_mem b hc) with
      ⟨hg, ⟨c, hc, hcServes⟩, l, r, hRun⟩ | ⟨hg, hNone, l, hRun⟩ | ⟨hg, hRun⟩
    · refine Or.inl ⟨hGuard.mpr hg, ⟨c, List.mem_cons_of_mem b hc, hcServes⟩, k + l,
        (r.1, b :: r.2), ?_⟩
      intro f
      rw [show f + (k + l) = f + l + k by omega, hPass, show f + l + k = f + k + l by omega, hRun]
      rfl
    · refine Or.inr (Or.inl ⟨hGuard.mpr hg, ?_, k + l, ?_⟩)
      · intro c hc
        rcases List.mem_cons.mp hc with rfl | hc
        · exact ⟨hServes, hHangs⟩
        · exact hNone c hc
      · intro f
        rw [show f + (k + l) = f + l + k by omega, hPass, show f + l + k = f + k + l by omega, hRun]
        rfl
    · refine Or.inr (Or.inr ⟨fun hc => hg (hGuard.mp hc), ?_⟩)
      intro f
      rcases hStep f with hf | hf
      · exact hf
      · rw [hf, hRun f]
        rfl

/-- More rounds do not change how a call ends. -/
theorem kalloc_mono {f g : Nat} {o : Outcome (Nat × KernelHeap)} (h : kalloc f heap size = o)
    (ho : o ≠ .running) (hfg : f ≤ g) : kalloc g heap size = o := by
  induction heap generalizing o with
  | nil =>
    rw [kalloc] at h ⊢
    exact h
  | cons b bs ih =>
    -- the rest of the list ends as it did, if it has to
    have hRest : (kalloc f bs size).map (fun (ptr, bs) => (ptr, b :: bs)) = o →
        (kalloc g bs size).map (fun (ptr, bs) => (ptr, b :: bs)) = o := by
      intro hMap
      rw [ih rfl fun hc => ho ?_]
      · exact hMap
      · rw [← hMap, hc]
        rfl
    by_cases hRoom : b.Room size
    · rw [kalloc_cons_of_room hRoom] at h ⊢
      cases hf : b.kallocScan (blocksFor size b.bsize) f b.scanStart with
      | none =>
        rw [hf] at h
        exact absurd h.symm ho
      | some x =>
        rw [kallocScan_mono hf hfg]
        rw [hf] at h
        cases x with
        | none => exact hRest h
        | some x => exact h
    · rw [kalloc_cons_of_not_room hRoom] at h ⊢
      exact hRest h

/-- A call panics exactly when no block serves and none hangs. -/
theorem kalloc_panics_iff (hb : ∀ b ∈ heap, b.LfbBounds) (size : Nat) :
    (∃ f, kalloc f heap size = .panic outOfMemory) ↔
      ∀ b ∈ heap, ¬ b.Serves size ∧ ¬ b.Hangs size := by
  rcases kalloc_outcome hb
    size with ⟨-, ⟨b, hMem, hServes⟩, k, r, hRun⟩ | ⟨-, hNone, k, hRun⟩ |
    ⟨hGuard, hRun⟩
  · refine ⟨fun ⟨f, hf⟩ => ?_, fun h => absurd hServes (h b hMem).1⟩
    have hMore := kalloc_mono hf (by simp) (Nat.le_add_right f k)
    rw [hRun f] at hMore
    cases hMore
  · exact ⟨fun _ => hNone, fun _ => ⟨0 + k, hRun 0⟩⟩
  · refine ⟨fun ⟨f, hf⟩ => ?_, fun h => absurd (fun pre b post hEq hHangs => ?_) hGuard⟩
    · rw [hRun f] at hf
      cases hf
    · exact absurd hHangs (h b (by simp [hEq])).2

-- ---------------------------------------------------------------------------
-- Reachable heaps
-- ---------------------------------------------------------------------------

/-- The call returns a pointer or reaches the panic. -/
def KallocEnds (heap : KernelHeap) (size : Nat) : Prop :=
  ∃ fuel, (∃ ptr heap', kalloc fuel heap size = .done (ptr, heap')) ∨
    kalloc fuel heap size = .panic outOfMemory

/-- **Termination.** In every reachable state and for every size, `kalloc` ends
if and only if every block with room, without a fitting run, and with `lfb`
strictly inside a run of free cells, comes after a block that serves the
request. -/
theorem kalloc_ends_iff (heap₀ : KernelHeap) (hInit : HeapInit heap₀) (r : HeapRun)
    (hr : Reachable (heapSystem heap₀) r) (size : Nat) :
    KallocEnds r.heap size ↔ HangsGuarded r.heap size := by
  have h := heap_reachable_inv hInit hr
  have hb : ∀ b ∈ r.heap, b.LfbBounds := fun b hb => (h.block b hb).lfbBounds
  rcases kalloc_outcome hb
    size with ⟨hGuard, -, k, x, hRun⟩ | ⟨hGuard, -, k, hRun⟩ | ⟨hGuard, hRun⟩
  · exact ⟨fun _ => hGuard, fun _ => ⟨0 + k, Or.inl ⟨x.1, x.2, hRun 0⟩⟩⟩
  · exact ⟨fun _ => hGuard, fun _ => ⟨0 + k, Or.inr (hRun 0)⟩⟩
  · refine ⟨fun ⟨f, hf⟩ => ?_, fun hc => absurd hc hGuard⟩
    rw [hRun f] at hf
    simp at hf

/-- The page allocator with pages 32 to 63 free. -/
def samplePages : PageMem where
  freemap := 0x100000
  cells c := if c = 1 then 0xFFFFFFFF#32 else 0
  freemapCells := 2
  pagesFree := 32

/-- The state after the given calls on the heap of `main_heap_init`. -/
def sampleRun (ops : List HeapOp) : Option HeapRun :=
  (mainHeapInit (fun _ => 0) samplePages).toOption.bind fun (heap, _) =>
    (HeapRun.mk heap []).run 600 ops

theorem sampleRun_reachable {ops : List HeapOp} {r : HeapRun} (h : sampleRun ops = some r) :
    ∃ heap₀ m', mainHeapInit (fun _ => 0) samplePages = .done (heap₀, m') ∧
      HeapInit heap₀ ∧
      Reachable (heapSystem heap₀) r := by
  unfold sampleRun at h
  obtain ⟨⟨heap₀, m'⟩, hInit, hRun⟩ := Option.bind_eq_some_iff.mp h
  have hMain := Outcome.toOption_eq_some.mp hInit
  exact ⟨heap₀, m', hMain, mainHeapInit_init (by decide) hMain,
    HeapRun.run_reachable (.init rfl) hRun⟩

/-- The call ends after `kalloc(48)`: no cell `lfb` is free. -/
theorem kalloc_ends_after_alloc :
    ∃ heap₀ r, HeapInit heap₀ ∧ Reachable (heapSystem heap₀) r ∧ r.live.length = 1 ∧
      KallocEnds r.heap 3810 := by
  have hEval : (sampleRun [.kalloc 48]).map (fun r =>
      (r.live.length, r.heap.all fun b => b.bm b.lfb ≠ 0)) = some (1, true) := by decide +kernel
  obtain ⟨r, hRun, hFacts⟩ := Option.map_eq_some_iff.mp hEval
  obtain ⟨hLive, hUsed⟩ := Prod.mk.inj hFacts
  obtain ⟨heap₀, m', -, hInit, hr⟩ := sampleRun_reachable hRun
  refine ⟨heap₀, r, hInit, hr, hLive, (kalloc_ends_iff heap₀ hInit r hr 3810).mpr ?_⟩
  intro pre b post hHeap hHangs
  have hLfb : b.bm b.lfb ≠ 0 := by
    simpa using List.all_eq_true.mp hUsed b (by simp [hHeap])
  exact absurd hHangs.2.2.1 hLfb

/-- After `kalloc(48)` and its `kfree`, `lfb` of the first block is left at cell
17, inside the free cells 16 to 253: `kalloc(3810)`, which needs 239 cells,
never ends. -/
theorem kalloc_never_ends :
    ∃ heap₀ m' r, mainHeapInit (fun _ => 0) samplePages = .done (heap₀, m') ∧
      Reachable (heapSystem heap₀) r ∧ ¬ KallocEnds r.heap 3810 := by
  have hEval : (sampleRun [.kalloc 48, .kfree 0x12E114]).map (fun r => r.heap.head?.map fun b =>
      (decide (b.Room 3810), b.bm b.lfb, b.bm (b.lfb - 1))) = some (some (true, 0, 0)) := by
    decide +kernel
  obtain ⟨r, hRun, hHead⟩ := Option.map_eq_some_iff.mp hEval
  obtain ⟨b, hb, hFacts⟩ := Option.map_eq_some_iff.mp hHead
  obtain ⟨bs, hHeap⟩ := List.head?_eq_some_iff.mp hb
  obtain ⟨heap₀, m', hMain, hInit, hr⟩ := sampleRun_reachable hRun
  have hInv := (heap_reachable_inv hInit hr).block b (by simp [hHeap])
  have hHangs : b.Hangs 3810 := by
    simp only [Prod.mk.injEq, decide_eq_true_eq] at hFacts
    refine ⟨hFacts.1, ?_, hFacts.2⟩
    rintro ⟨w, -, hWindow⟩
    rw [hInv.bsize] at hWindow
    have hCells : max (blocksFor 3810 16) 1 = 239 := by decide
    rw [hCells] at hWindow
    have hLow := hInv.window_low (by omega) hWindow
    have hHigh := hWindow.1
    rw [hInv.bcnt] at hHigh
    omega
  refine ⟨heap₀, m', r, hMain, hr, fun ⟨f, hf⟩ => ?_⟩
  rw [hHeap, kalloc_hangs hInv.lfbBounds hHangs f] at hf
  simp at hf

/-- A block with a run of free cells for the request passes the byte test. -/
theorem BlockInv.room {as : List Alloc} (h : BlockInv b as) {w : Nat} (hSize : 1 ≤ size)
    (hw : b.Window (blocksFor size 16) w) : b.Room size := by
  have hCells : size ≤ 16 * blocksFor size 16 := (Alloc.cells_bounds ⟨0, size⟩).1
  have hHigh : w + blocksFor size 16 ≤ 254 := by
    have := hw.1
    rwa [h.bcnt] at this
  -- the cells in use and the run fit into the block together
  have hTotal : usedCells (fill b.bm w (blocksFor size 16) 1) 254 =
      usedCells b.bm 254 + blocksFor size 16 :=
    usedCells_add hHigh hw.2 (fun i hi hin => by rw [fill_in hi hin]; decide)
      (fun i hi => fill_out hi)
  have hLe := usedCells_le (fill b.bm w (blocksFor size 16) 1) 254
  have hCount := h.count
  unfold KernelHeapBlockBm.Room
  rw [h.size, h.bsize]
  omega

/-- A block that serves may stand in the place of any other. -/
theorem HangsGuarded.replace {pre post : KernelHeap} {b' : KernelHeapBlockBm}
    (h : HangsGuarded (pre ++ b :: post) size) (hServes : b'.Serves size) :
    HangsGuarded (pre ++ b' :: post) size := by
  induction pre with
  | nil => exact hangsGuarded_cons.mpr (Or.inl hServes)
  | cons c pre ih =>
    rcases hangsGuarded_cons.mp h with hHead | ⟨hHead, hRest⟩
    · exact hangsGuarded_cons.mpr (Or.inl hHead)
    · exact hangsGuarded_cons.mpr (Or.inr ⟨hHead, ih hRest⟩)

/-- The cells of a large allocation, once freed, fit the same request again:
`lfb` points at the last cell but one of them, not at the first. -/
theorem BlockInv.serves_again {as : List Alloc} {a : Alloc} {x : Nat} (h : BlockInv b as)
    (hLarge : 33 ≤ a.size) (hw : b.Window a.cells x) (hPtr : a.ptr = b.cellAddr x) :
    ((b.take x a.cells).release a.ptr).Serves a.size := by
  have hCells := a.cells_bounds
  have hLow := h.window_low (by omega) hw
  obtain ⟨hTake, hHolds⟩ := h.take (by omega) hw hPtr
  have hReleased := hTake.release
  obtain ⟨-, -, hBsize, hLfb, hBm, -⟩ := hTake.release_spec hHolds hTake.cells_le_used
  have hHigh := hHolds.high
  have hTaken : (b.take x a.cells).lfb = (x + a.cells + 2 ^ 32 - 2) % 2 ^ 32 := by
    unfold KernelHeapBlockBm.take
    rfl
  generalize (b.take x a.cells).release a.ptr = b' at *
  have hWindow : b'.Window a.cells x := by
    refine ⟨by rw [hReleased.bcnt]; exact hHigh, ?_⟩
    intro i hi hin
    rw [hBm, fill_in hi hin]
  refine ⟨hReleased.room (by omega) hWindow, x, ?_, ?_⟩
  · rw [hLfb, hTaken]
    omega
  · rw [hReleased.bsize, max_eq_left (by exact (show 1 ≤ a.cells by omega))]
    exact hWindow

/-- **Room for a buffer stays.** After a large allocation and its `kfree` the same
request is served again. -/
theorem kalloc_again {live : List Alloc} {f ptr : Nat} {heap₁ heap₂ : KernelHeap}
    (h : HeapRun.Inv ⟨heap, live⟩) (hLarge : 33 ≤ size)
    (hAlloc : kalloc f heap size = .done (ptr, heap₁))
    (hFree : kfree heap₁ ptr = .done heap₂) :
    ∃ k r, kalloc k heap₂ size = .done r := by
  have hGuard : HangsGuarded heap size := by
    rcases kalloc_outcome (fun b hb => (h.block b hb).lfbBounds) size with
      ⟨hGuard, -⟩ | ⟨hGuard, -⟩ | ⟨-, hRun⟩
    · exact hGuard
    · exact hGuard
    · rw [hRun f] at hAlloc
      cases hAlloc
  have hInv₁ := h.kalloc (by omega) hAlloc
  obtain ⟨pre, b, post, x, rfl, hScan, hPtr, rfl⟩ := kalloc_done hAlloc
  have hb := h.block b (by simp)
  obtain ⟨a, ha⟩ : ∃ a : Alloc, a = ⟨ptr, size⟩ := ⟨_, rfl⟩
  obtain ⟨rfl, rfl⟩ : a.ptr = ptr ∧ a.size = size := by simp [ha]
  have hCells : blocksFor a.size b.bsize = a.cells := by
    rw [hb.bsize]
    rfl
  have hBounds := a.cells_bounds
  have hBelow := hb.lfbBounds.below
  rw [hCells] at hScan hFree hInv₁
  have hWindow : b.Window a.cells x := by
    have hSound := (scan_sound hb.lfbBounds (by rw [hb.lfbBounds.scanStart]; omega) hScan).2
    rwa [max_eq_left (show 1 ≤ a.cells by omega)] at hSound
  obtain ⟨hTake, hHolds⟩ := hb.take (by omega) hWindow hPtr
  have hRelease := hInv₁.kfree_live rfl (hTake.owns hHolds)
  obtain rfl := Outcome.done.inj (hRelease.symm.trans hFree)
  have hServes := hb.serves_again hLarge hWindow hPtr
  have hInv₂ := hInv₁.kfree (a := a) (by rw [ha]; exact List.mem_cons_self) hFree
  rcases kalloc_outcome (fun c hc => (hInv₂.block c hc).lfbBounds) a.size with
    ⟨-, -, k, r, hRun⟩ | ⟨-, hNone, -⟩ | ⟨hNot, -⟩
  · exact ⟨0 + k, r, hRun 0⟩
  · exact absurd hServes (hNone _ (List.mem_append_right pre List.mem_cons_self)).1
  · exact absurd (hGuard.replace hServes) hNot

/-- **No false out-of-memory, as far as it goes.** In every reachable state and
for every size: a block with enough consecutive free cells keeps `kalloc` from
the panic if and only if there is no such block, or one has such a run that
does not start at `lfb`, or a block with room has `lfb` strictly inside a run
of free cells (and the call does not end). -/
theorem kalloc_finds_free_run_iff (heap₀ : KernelHeap) (hInit : HeapInit heap₀) (r : HeapRun)
    (hr : Reachable (heapSystem heap₀) r) (size : Nat) (hSize : 1 ≤ size) :
    ((∃ b ∈ r.heap, ∃ w, b.Window (blocksFor size 16) w) →
      ∀ fuel, kalloc fuel r.heap size ≠ .panic outOfMemory) ↔
    ((∀ b ∈ r.heap, ∀ w, ¬ b.Window (blocksFor size 16) w) ∨
      ∃ b ∈ r.heap, (∃ w, w ≠ b.lfb ∧ b.Window (blocksFor size 16) w) ∨
        b.Room size ∧ b.LfbInside) := by
  have h := heap_reachable_inv hInit hr
  have hPanic := kalloc_panics_iff (fun b hb => (h.block b hb).lfbBounds) size
  have hPos : 1 ≤ blocksFor size 16 := by
    have := (Alloc.cells_bounds ⟨0, size⟩).1
    simp only [Alloc.cells] at this
    omega
  have hServes : ∀ b ∈ r.heap,
      b.Serves size ↔ ∃ w, w ≠ b.lfb ∧ b.Window (blocksFor size 16) w := by
    intro b hb
    unfold Serves Fits
    rw [(h.block b hb).bsize, max_eq_left hPos]
    exact ⟨fun hs => hs.2, fun ⟨w, hw⟩ => ⟨(h.block b hb).room hSize hw.2, w, hw⟩⟩
  have hEvent : ∀ b ∈ r.heap, (∃ w, w ≠ b.lfb ∧ b.Window (blocksFor size 16) w) ∨
      b.Room size ∧ b.LfbInside → b.Serves size ∨ b.Hangs size := by
    intro b hb hEither
    by_cases hs : b.Serves size
    · exact Or.inl hs
    · rcases hEither with hWindow | ⟨hRoom, hInside⟩
      · exact absurd ((hServes b hb).mpr hWindow) hs
      · exact Or.inr ⟨hRoom, fun hFits => hs ⟨hRoom, hFits⟩, hInside⟩
  constructor
  · intro hProp
    by_cases hRun : ∃ b ∈ r.heap, ∃ w, b.Window (blocksFor size 16) w
    · refine Or.inr ?_
      by_contra hNone
      obtain ⟨f, hf⟩ :=
        hPanic.mpr fun b hb => ⟨fun hs => hNone ⟨b, hb, Or.inl ((hServes b hb).mp hs)⟩,
        fun hh => hNone ⟨b, hb, Or.inr ⟨hh.1, hh.2.2⟩⟩⟩
      exact hProp hRun f hf
    · exact Or.inl fun b hb w hw => hRun ⟨b, hb, w, hw⟩
  · rintro (hNone | ⟨b, hb, hEither⟩) ⟨c, hc, w, hw⟩ fuel hPanics
    · exact hNone c hc w hw
    · obtain ⟨hNotServes, hNotHangs⟩ := hPanic.mp ⟨fuel, hPanics⟩ b hb
      exact (hEvent b hb hEither).elim hNotServes hNotHangs

/-- After `kalloc(48)` the first block has two free cells from cell 100 on, which
is not `lfb`: a call for 32 bytes does not panic. -/
theorem kalloc_finds_free_run_after_alloc :
    ∃ heap₀ r, HeapInit heap₀ ∧ Reachable (heapSystem heap₀) r ∧ r.live.length = 1 ∧
      ∀ fuel, kalloc fuel r.heap 32 ≠ .panic outOfMemory := by
  have hEval : (sampleRun [.kalloc 48]).map (fun r => (r.live.length, r.heap.head?.map fun b =>
      (b.bm 100, b.bm 101, decide (b.lfb = 17), decide (b.bcnt = 254)))) =
      some (1, some (0, 0, true, true)) := by decide +kernel
  obtain ⟨r, hRun, hFacts⟩ := Option.map_eq_some_iff.mp hEval
  obtain ⟨hLive, hHead⟩ := Prod.mk.inj hFacts
  obtain ⟨b, hb, hCells⟩ := Option.map_eq_some_iff.mp hHead
  simp only [Prod.mk.injEq, decide_eq_true_eq] at hCells
  obtain ⟨hFirst, hSecond, hLfb, hBcnt⟩ := hCells
  obtain ⟨heap₀, m', -, hInit, hr⟩ := sampleRun_reachable hRun
  have hMem : b ∈ r.heap := List.mem_of_head? hb
  have hWindow : b.Window (blocksFor 32 16) 100 := by
    refine ⟨by rw [hBcnt]; decide, ?_⟩
    intro i hi hin
    have hTwo : blocksFor 32 16 = 2 := by decide
    rcases (by omega : i = 100 ∨ i = 101) with rfl | rfl
    · exact hFirst
    · exact hSecond
  exact ⟨heap₀, r, hInit, hr, hLive,
    (kalloc_finds_free_run_iff heap₀ hInit r hr 32 (by omega)).mpr
      (Or.inr ⟨b, hMem, Or.inl ⟨100, by omega, hWindow⟩⟩) ⟨b, hMem, 100, hWindow⟩⟩

/-- Fourteen blocks are full and the last one is full up to cell 251; cells 252
and 253 were allocated last, which left `lfb` at 252, and freed. `kalloc(32)`
needs two cells and panics. -/
theorem kalloc_false_out_of_memory :
    ∃ heap₀ m' r, mainHeapInit (fun _ => 0) samplePages = .done (heap₀, m') ∧
      Reachable (heapSystem heap₀) r ∧
      (∃ b ∈ r.heap, ∃ w, b.Window (blocksFor 32 16) w) ∧
      ∃ fuel, kalloc fuel r.heap 32 = .panic outOfMemory := by
  have hEval : (sampleRun (List.replicate 14 (.kalloc 3808) ++
      [.kalloc 3776, .kalloc 32, .kfree 0x120FD4])).map (fun r => ((kalloc 600 r.heap 32).message,
        r.heap.any fun b => b.bm 252 = 0 ∧ b.bm 253 = 0 ∧ b.bcnt = 254)) =
      some (some outOfMemory, true) := by decide +kernel
  obtain ⟨r, hRun, hFacts⟩ := Option.map_eq_some_iff.mp hEval
  obtain ⟨hMessage, hAny⟩ := Prod.mk.inj hFacts
  obtain ⟨b, hMem, hCells⟩ := List.any_eq_true.mp hAny
  simp only [decide_eq_true_eq] at hCells
  obtain ⟨hFirst, hSecond, hBcnt⟩ := hCells
  obtain ⟨heap₀, m', hMain, -, hr⟩ := sampleRun_reachable hRun
  refine ⟨heap₀, m', r, hMain, hr, ⟨b, hMem, 252, ?_, ?_⟩, 600,
    Outcome.message_eq_some.mp hMessage⟩
  · rw [hBcnt]
    decide
  · intro i hi hin
    have hTwo : blocksFor 32 16 = 2 := by decide
    rcases (by omega : i = 252 ∨ i = 253) with rfl | rfl
    · exact hFirst
    · exact hSecond

end Hexos
