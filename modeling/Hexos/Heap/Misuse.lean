import Hexos.Heap.Invariant

/-!
# HexOS — the heap under bad requests

Two requests that `kalloc` and `kfree` do not turn away: an allocation of no
bytes, as `iso9660_read` makes for an empty file, and the free of a pointer
that no allocation starts at. `kfree` only asks whether the pointer lies in a
block, and then clears the run of equal cells from the pointer on. In a free
cell that run is a run of zeros: no cell changes, but its length is taken off
`used`.

## Results

* `requestSystem_pages` — the blocks keep their shape under every request.
* `Pages.rejects_iff` — `kfree` has no effect exactly on the pointers outside
  the cells.
* `zero_size_used` — the free of a zero-size allocation leaves `used` wrong.
* `kfree_rejects_bad_pointer_iff`, `zero_size_harmless_iff` — both over whole
  runs.
-/

namespace Hexos

open Transition KernelHeapBlockBm

-- ---------------------------------------------------------------------------
-- Requests
-- ---------------------------------------------------------------------------

namespace HeapRun

/-- One operation of a client that may also ask for zero bytes. -/
def request (fuel : Nat) (r : HeapRun) : HeapOp → Option HeapRun
  | .kalloc 0 =>
    match Hexos.kalloc fuel r.heap 0 with
    | .done (ptr, heap) => some ⟨heap, ⟨ptr, 0⟩ :: r.live⟩
    | _ => none
  | op => r.exec fuel op

/-- A sequence of such operations. -/
def requests (fuel : Nat) (r : HeapRun) (ops : List HeapOp) : Option HeapRun :=
  ops.foldlM (request fuel) r

end HeapRun

/-- All runs of such clients from the heap `heap₀`. -/
def requestSystem (heap₀ : KernelHeap) : System HeapRun where
  init r := r = ⟨heap₀, []⟩
  step r r' := ∃ fuel op, r.request fuel op = some r'

-- ---------------------------------------------------------------------------
-- The shape of the blocks
-- ---------------------------------------------------------------------------

/-- The blocks are distinct pages, whatever their cells hold. -/
structure Pages (heap : KernelHeap) : Prop where
  page     : ∀ b ∈ heap, b.IsPage
  distinct : heap.Pairwise fun b c => b.addr ≠ c.addr

namespace KernelHeapBlockBm

variable (b : KernelHeapBlockBm)

@[simp] theorem take_addr (x n : Nat) : (b.take x n).addr = b.addr := by
  unfold take
  rfl

@[simp] theorem take_size (x n : Nat) : (b.take x n).size = b.size := by
  unfold take
  rfl

@[simp] theorem take_bsize (x n : Nat) : (b.take x n).bsize = b.bsize := by
  unfold take
  rfl

@[simp] theorem release_addr (p : Nat) : (b.release p).addr = b.addr := by
  unfold release releaseCell
  rfl

@[simp] theorem release_size (p : Nat) : (b.release p).size = b.size := by
  unfold release releaseCell
  rfl

@[simp] theorem release_bsize (p : Nat) : (b.release p).bsize = b.bsize := by
  unfold release releaseCell
  rfl

theorem release_bcnt (p : Nat) : (b.release p).bcnt = b.bcnt := by
  unfold bcnt
  rw [release_size, release_bsize]

/-- The block after the run of cells from `x` to `e` was cleared. -/
theorem release_of_clearRun {bm : Nat → UInt8} {p x e : Nat} (hIndex : b.cellIndex p = x)
    (hRun : clearRun (b.bm x) (b.bcnt - x) x b.bm = (bm, e)) :
    (b.release p).bm = bm ∧ (b.release p).used = (b.used + 2 ^ 32 - (e - x)) % 2 ^ 32 := by
  unfold release releaseCell
  rw [hIndex, hRun]
  exact ⟨rfl, rfl⟩

@[simp] theorem storeByte_addr (p : Nat) (v : UInt8) : (b.storeByte p v).addr = b.addr := by
  unfold storeByte
  split <;> rfl

end KernelHeapBlockBm

namespace KernelHeapBlockBm.IsPage

variable {b : KernelHeapBlockBm}

/-- A pointer into the cells. -/
theorem cellIndex_of_ge (h : b.IsPage) {p : Nat} (hLow : b.addr + 20 ≤ p)
    (hHigh : p < b.addr + 4076) :
    b.cellIndex p = (p - (b.addr + 20)) / 16 := by
  have hEnd := h.page_end
  unfold KernelHeapBlockBm.cellIndex headerSize
  rw [h.bsize]
  congr 1
  omega

/-- A pointer into the header gives a cell far behind the last one. -/
theorem bcnt_le_cellIndex (h : b.IsPage) {p : Nat} (hLow : b.addr < p) (hHigh : p < b.addr + 20) :
    b.bcnt ≤ b.cellIndex p := by
  have hEnd := h.page_end
  rw [h.bcnt]
  unfold KernelHeapBlockBm.cellIndex headerSize
  rw [h.bsize]
  omega

theorem take (h : b.IsPage) (x n : Nat) : (b.take x n).IsPage := by
  unfold KernelHeapBlockBm.take
  exact ⟨h.aligned, h.addr, h.size, h.bsize, Nat.mod_lt _ (by omega)⟩

theorem release (h : b.IsPage) (p : Nat) : (b.release p).IsPage := by
  unfold KernelHeapBlockBm.release KernelHeapBlockBm.releaseCell
  exact ⟨h.aligned, h.addr, h.size, h.bsize, Nat.mod_lt _ (by omega)⟩

theorem storeByte (h : b.IsPage) (p : Nat) (v : UInt8) : (b.storeByte p v).IsPage := by
  unfold KernelHeapBlockBm.storeByte
  split
  · exact ⟨h.aligned, h.addr, h.size, h.bsize, h.used⟩
  · exact h

end KernelHeapBlockBm.IsPage

/-- The run of cells with one id that `kfree` clears. -/
theorem clearRun_spec (id : UInt8) (bm : Nat → UInt8) (k x : Nat) :
    ∃ n ≤ k, clearRun id k x bm = (fill bm x n 0, x + n) ∧
      (∀ i, x ≤ i → i < x + n → bm i = id) ∧ (1 ≤ k → bm x = id → 1 ≤ n) := by
  have hRun : ∃ n ≤ k, (∀ i, x ≤ i → i < x + n → bm i = id) ∧
      (n < k → bm (x + n) ≠ id) := by
    induction k generalizing x with
    | zero => exact ⟨0, le_refl 0, fun i hi hi' => by omega, fun h => by omega⟩
    | succ k ih =>
      by_cases hx : bm x = id
      · obtain ⟨n, hn, hAll, hStop⟩ := ih (x + 1)
        refine ⟨n + 1, by omega, ?_, ?_⟩
        · intro i hi hi'
          rcases Nat.eq_or_lt_of_le hi with rfl | hi
          · exact hx
          · exact hAll i (by omega) (by omega)
        · intro h
          have := hStop (by omega)
          rwa [Nat.add_right_comm x 1 n] at this
      · exact ⟨0, Nat.zero_le _, fun i hi hi' => by omega, fun _ => hx⟩
  obtain ⟨n, hn, hAll, hStop⟩ := hRun
  refine ⟨n, hn, clearRun_eq hn hAll hStop, hAll, ?_⟩
  intro hk hx
  by_contra hc
  obtain rfl : n = 0 := by omega
  exact hStop (by omega) hx

namespace Pages

variable {heap pre post : KernelHeap} {b b' : KernelHeapBlockBm}

theorem replace (h : Pages (pre ++ b :: post)) (hAddr : b'.addr = b.addr) (hPage : b'.IsPage) :
    Pages (pre ++ b' :: post) := by
  refine ⟨?_, ?_⟩
  · intro c hc
    rcases List.mem_append.mp hc with hc | hc
    · exact h.page c (by simp [hc])
    · rcases List.mem_cons.mp hc with rfl | hc
      · exact hPage
      · exact h.page c (by simp [hc])
  · have hMap : (pre ++ b' :: post).map KernelHeapBlockBm.addr =
        (pre ++ b :: post).map KernelHeapBlockBm.addr := by simp [hAddr]
    have hPairs := List.pairwise_map.mpr h.distinct
    rw [← hMap] at hPairs
    exact List.pairwise_map.mp hPairs

/-- Only one page owns a pointer. -/
theorem not_owns (h : Pages (pre ++ b :: post)) {p : Nat} (hOwns : b.Owns p) {c : KernelHeapBlockBm}
    (hc : c ∈ pre) : ¬ c.Owns p := by
  have hb : b.IsPage := h.page b (by simp)
  have hc' : c.IsPage := h.page c (by simp [hc])
  have hne : c.addr ≠ b.addr := (List.pairwise_append.mp h.distinct).2.2 c hc b List.mem_cons_self
  exact hb.not_owns hc' hne hOwns

end Pages

/-- `kfree` panics, or works on the first block that owns the pointer. -/
theorem kfree_cases (heap : KernelHeap) (ptr : Nat) :
    (kfree heap ptr = .panic "kfree: Invalid pointer!" ∧ ∀ b ∈ heap, ¬ b.Owns ptr) ∨
    ∃ pre b post, heap = pre ++ b :: post ∧ b.Owns ptr ∧
      kfree heap ptr = .done (pre ++ b.release ptr :: post) := by
  induction heap with
  | nil => exact Or.inl ⟨rfl, by simp⟩
  | cons b bs ih =>
    by_cases hOwns : b.Owns ptr
    · refine Or.inr ⟨[], b, bs, rfl, hOwns, ?_⟩
      rw [kfree, if_pos hOwns]
      rfl
    · rcases ih with ⟨hPanic, hNone⟩ | ⟨pre, c, post, rfl, hc, hDone⟩
      · refine Or.inl ⟨?_, ?_⟩
        · rw [kfree, if_neg hOwns, hPanic]
          rfl
        · simpa [hOwns] using hNone
      · refine Or.inr ⟨b :: pre, c, post, rfl, hc, ?_⟩
        rw [kfree, if_neg hOwns, hDone]
        rfl

-- ---------------------------------------------------------------------------
-- Runs of requests
-- ---------------------------------------------------------------------------

namespace HeapRun

variable {r r' : HeapRun} {fuel : Nat}

/-- What a request can do: a `kalloc` that returns, a `kfree` of a live
pointer that returns, or a write inside a live allocation. -/
theorem request_cases {op : HeapOp} (h : r.request fuel op = some r') :
    (∃ size ptr heap, op = .kalloc size ∧ Hexos.kalloc fuel r.heap size = .done (ptr, heap) ∧
      r' = ⟨heap, ⟨ptr, size⟩ :: r.live⟩) ∨
    (∃ a ∈ r.live, ∃ heap, op = .kfree a.ptr ∧ Hexos.kfree r.heap a.ptr = .done heap ∧
      r' = ⟨heap, r.live.erase a⟩) ∨
    ∃ a ∈ r.live, ∃ i < a.size, ∃ v, op = .write a.ptr i v ∧
      r' = { r with heap := r.heap.map (·.storeByte (a.ptr + i) v) } := by
  have hFind : ∀ {ptr a}, r.live.find? (·.ptr = ptr) = some a → a ∈ r.live ∧
      a.ptr = ptr := by
    intro ptr a hf
    exact ⟨List.mem_of_find?_eq_some hf, by simpa using List.find?_some hf⟩
  unfold request at h
  split at h
  · split at h
    · next ptr heap hAlloc =>
      obtain rfl := Option.some.inj h
      exact Or.inl ⟨0, ptr, heap, rfl, hAlloc, rfl⟩
    · cases h
  · cases op with
    | kalloc size =>
      simp only [HeapRun.exec] at h
      split at h
      · split at h
        · next ptr heap hAlloc =>
          obtain rfl := Option.some.inj h
          exact Or.inl ⟨size, ptr, heap, rfl, hAlloc, rfl⟩
        · cases h
      · cases h
    | kfree ptr =>
      simp only [HeapRun.exec] at h
      split at h
      · next a heap hf hFree =>
        obtain rfl := Option.some.inj h
        obtain ⟨ha, rfl⟩ := hFind hf
        exact Or.inr (Or.inl ⟨a, ha, heap, rfl, hFree, rfl⟩)
      · cases h
    | write ptr i v =>
      simp only [HeapRun.exec] at h
      split at h
      · next a hf =>
        split at h
        · next hi =>
          obtain rfl := Option.some.inj h
          obtain ⟨ha, rfl⟩ := hFind hf
          exact Or.inr (Or.inr ⟨a, ha, i, hi, v, rfl, rfl⟩)
        · cases h
      · cases h

/-- **Step lemma.** Every request keeps the shape of the blocks. -/
theorem request_pages {op : HeapOp} (hPages : Pages r.heap) (h : r.request fuel op = some r') :
    Pages r'.heap := by
  obtain ⟨size, ptr, heap, -, hAlloc, rfl⟩ | ⟨a, -, heap, -, hFree, rfl⟩ |
    ⟨a, -, i, -, v, -, rfl⟩ := request_cases h
  · obtain ⟨pre, b, post, x, hHeap, -, -, rfl⟩ := kalloc_done hAlloc
    rw [hHeap] at hPages
    exact hPages.replace (b.take_addr x _) ((hPages.page b (by simp)).take x _)
  · rcases kfree_cases r.heap a.ptr with ⟨hPanic, -⟩ | ⟨pre, b, post, hHeap, -, hDone⟩
    · rw [hPanic] at hFree
      cases hFree
    · obtain rfl : pre ++ b.release a.ptr :: post = heap := by simpa [hDone] using hFree
      rw [hHeap] at hPages
      exact hPages.replace (b.release_addr a.ptr) ((hPages.page b (by simp)).release a.ptr)
  · refine ⟨?_, ?_⟩
    · intro b hb
      obtain ⟨c, hc, rfl⟩ := List.mem_map.mp hb
      exact (hPages.page c hc).storeByte _ v
    · rw [List.pairwise_map]
      simpa only [storeByte_addr] using hPages.distinct

end HeapRun

theorem HeapRun.Inv.pages {r : HeapRun} (h : r.Inv) : Pages r.heap :=
  ⟨fun b hb => (h.block b hb).isPage, h.distinct⟩

theorem HeapInit.pages {heap : KernelHeap} (h : HeapInit heap) : Pages heap := h.inv.pages

theorem requestSystem_pages {heap₀ : KernelHeap} (hInit : HeapInit heap₀) {r : HeapRun}
    (hr : Reachable (requestSystem heap₀) r) : Pages r.heap := by
  refine Reachable.invariant (I := fun r => Pages r.heap) ?_ ?_ hr
  · rintro r rfl
    exact hInit.pages
  · rintro r r' - h ⟨fuel, op, hs⟩
    exact HeapRun.request_pages h hs

/-- A run of requests leads from a reachable state to a reachable state. -/
theorem HeapRun.requests_reachable {heap₀ : KernelHeap} {fuel : Nat} {ops : List HeapOp}
    {r r' : HeapRun} (hr : Reachable (requestSystem heap₀) r)
    (h : r.requests fuel ops = some r') : Reachable (requestSystem heap₀) r' := by
  induction ops generalizing r with
  | nil =>
    obtain rfl : r = r' := by simpa [requests] using h
    exact hr
  | cons op ops ih =>
    unfold requests at h
    rw [List.foldlM_cons, Option.bind_eq_bind, Option.bind_eq_some_iff] at h
    obtain ⟨r₁, hStep, hRest⟩ := h
    exact ih (.step hr ⟨fuel, op, hStep⟩) hRest

-- ---------------------------------------------------------------------------
-- Frees of pointers that no allocation starts at
-- ---------------------------------------------------------------------------

/-- The same cells in use, by the bitmap and by the count. -/
def SameCells (b b' : KernelHeapBlockBm) : Prop :=
  b'.used = b.used ∧ ∀ i < b.bcnt, b'.bm i = b.bm i

/-- `kfree` turns a pointer away: it panics, or it returns and no cell and no
count has changed. -/
def Rejects (heap : KernelHeap) (ptr : Nat) : Prop :=
  kfree heap ptr = .panic "kfree: Invalid pointer!" ∨
    ∃ heap', kfree heap ptr = .done heap' ∧ List.Forall₂ SameCells heap heap'

/-- The pointer points into the cells of the block, as far as `kfree` looks. -/
def KernelHeapBlockBm.InCells (b : KernelHeapBlockBm) (ptr : Nat) : Prop :=
  b.addr + headerSize ≤ ptr ∧ ptr < b.addr + b.size

/-- Two heaps that differ in one block are related by a reflexive relation when
the two blocks are. -/
theorem forall₂_replace {α : Type*} {R : α → α → Prop} (hRefl : ∀ a, R a a)
    {pre post : List α} {a a' : α} :
    List.Forall₂ R (pre ++ a :: post) (pre ++ a' :: post) ↔ R a a' := by
  induction pre with
  | nil => simp [hRefl]
  | cons c pre ih => simpa [hRefl] using ih

namespace KernelHeapBlockBm.IsPage

variable {b : KernelHeapBlockBm}

/-- The free of a free cell changes no cell, and takes the length of a run of
free cells off `used`. -/
theorem release_free (h : b.IsPage) {x p : Nat} (hx : x < 254) (hIndex : b.cellIndex p = x)
    (hFree : b.bm x = 0) :
    (b.release p).bm = b.bm ∧ (b.release p).used ≠ b.used := by
  obtain ⟨n, hn, hRun, hAll, hPos⟩ := clearRun_spec (b.bm x) b.bm (b.bcnt - x) x
  obtain ⟨hBm, hUsed⟩ := b.release_of_clearRun hIndex hRun
  rw [h.bcnt] at hn hPos
  have hn' : 1 ≤ n := hPos (by omega) rfl
  have hWord := h.used
  refine ⟨?_, by omega⟩
  rw [hBm]
  funext i
  by_cases hi : x ≤ i ∧ i < x + n
  · rw [fill_in hi.1 hi.2, hAll i hi.1 hi.2, hFree]
  · exact fill_out (by omega)

/-- The free of a cell in use clears it. -/
theorem release_used (h : b.IsPage) {x p : Nat} (hx : x < 254) (hIndex : b.cellIndex p = x) :
    (b.release p).bm x = 0 := by
  obtain ⟨n, -, hRun, -, hPos⟩ := clearRun_spec (b.bm x) b.bm (b.bcnt - x) x
  rw [h.bcnt] at hPos
  have hn : 1 ≤ n := hPos (by omega) rfl
  rw [(b.release_of_clearRun hIndex hRun).1]
  exact fill_in (le_refl x) (by omega)

/-- A free through a pointer into the header does nothing. Whatever the byte is
that `bm[bi]` reads there, the loop has no round to make. -/
theorem release_header (h : b.IsPage) {p : Nat} (hIndex : b.bcnt ≤ b.cellIndex p) :
    SameCells b (b.release p) := by
  have hRun : clearRun (b.bm (b.cellIndex p)) (b.bcnt - b.cellIndex p) (b.cellIndex p) b.bm =
      (b.bm, b.cellIndex p) := by
    rw [Nat.sub_eq_zero_of_le hIndex, clearRun]
  obtain ⟨hBm, hUsed⟩ := b.release_of_clearRun rfl hRun
  have hWord := h.used
  refine ⟨by omega, ?_⟩
  intro i _
  rw [hBm]

/-- In the block that owns the pointer, `kfree` changes nothing exactly when the
pointer is in the header. -/
theorem sameCells_release_iff (h : b.IsPage) {p : Nat} (hOwns : b.Owns p) :
    SameCells b (b.release p) ↔ ¬ b.InCells p := by
  rw [h.owns_iff] at hOwns
  unfold KernelHeapBlockBm.InCells headerSize
  rw [h.size]
  constructor
  · rintro ⟨hUsed, hBm⟩ ⟨hLow, hHigh⟩
    have hIndex := h.cellIndex_of_ge hLow hHigh
    have hx : (p - (b.addr + 20)) / 16 < 254 := by omega
    by_cases hFree : b.bm ((p - (b.addr + 20)) / 16) = 0
    · exact (h.release_free hx hIndex hFree).2 hUsed
    · have hSame := hBm _ (by rw [h.bcnt]; exact hx)
      rw [h.release_used hx hIndex] at hSame
      exact hFree hSame.symm
  · intro hOut
    exact h.release_header (h.bcnt_le_cellIndex hOwns.1 (by omega))

end KernelHeapBlockBm.IsPage

/-- **Bad frees.** `kfree` turns away the pointers outside the cells, and no
others. -/
theorem Pages.rejects_iff {heap : KernelHeap} (h : Pages heap) (ptr : Nat) :
    Rejects heap ptr ↔ ∀ b ∈ heap, ¬ b.InCells ptr := by
  have hOwner : ∀ b ∈ heap, b.InCells ptr → b.Owns ptr := by
    intro b hb hIn
    unfold KernelHeapBlockBm.InCells headerSize at hIn
    rw [(h.page b hb).size] at hIn
    rw [(h.page b hb).owns_iff]
    omega
  rcases kfree_cases heap ptr with ⟨hPanic, hNone⟩ | ⟨pre, b, post, hHeap, hOwns, hDone⟩
  · constructor
    · intro _ b hb hIn
      exact hNone b hb (hOwner b hb hIn)
    · intro _
      exact Or.inl hPanic
  · have hb : b.IsPage := h.page b (by simp [hHeap])
    have hRejects : Rejects heap ptr ↔ SameCells b (b.release ptr) := by
      unfold Rejects
      rw [hDone]
      simp only [reduceCtorEq, Outcome.done.injEq, false_or, exists_eq_left']
      rw [hHeap]
      exact forall₂_replace fun c => ⟨rfl, fun i _ => rfl⟩
    rw [hRejects, hb.sameCells_release_iff hOwns]
    constructor
    · intro hOut c hc hIn
      -- the pointer has one owner
      have hcOwns := hOwner c hc hIn
      rw [hHeap] at h hc
      rcases List.mem_append.mp hc with hc | hc
      · exact h.not_owns hOwns hc hcOwns
      · rcases List.mem_cons.mp hc with rfl | hc
        · exact hOut hIn
        · obtain ⟨l, m, rfl⟩ := List.append_of_mem hc
          have h' : Pages ((pre ++ b :: l) ++ c :: m) := by simpa using h
          exact h'.not_owns hcOwns (by simp) hOwns
    · intro hAll
      exact hAll b (by simp [hHeap])

/-- **Bad frees over runs.** Start from any number of disjoint page-aligned
pages. In every state that requests reach, and for every pointer, live or not,
`kfree` panics or leaves every cell and every `used` as it was exactly when the
pointer is in the cells of no block: in a header, or outside the range that
`kfree` tests. -/
theorem kfree_rejects_bad_pointer_iff (heap₀ : KernelHeap) (hInit : HeapInit heap₀)
    (r : HeapRun) (hr : Reachable (requestSystem heap₀) r) (ptr : Nat) :
    Rejects r.heap ptr ↔ ∀ b ∈ r.heap, ¬ b.InCells ptr :=
  (requestSystem_pages hInit hr).rejects_iff ptr

/-- A heap of one page. -/
def onePageHeap : KernelHeap := kheapAddBlock kheapInit 0x101000 pageSize 16 fun _ => 7

theorem onePageHeap_init : HeapInit onePageHeap :=
  .add .init (by decide) (by omega) (by simp [kheapInit])

/-- The free of a pointer into the header of the page is turned away. -/
theorem kfree_rejects_header_pointer :
    ∃ heap₀ r, HeapInit heap₀ ∧ Reachable (requestSystem heap₀) r ∧
      r.live = [⟨0x101114, 40⟩] ∧
      Rejects r.heap 0x101008 := by
  have hEval : ((HeapRun.mk onePageHeap []).requests 300 [.kalloc 40]).map
      (fun r => (r.live, r.heap.map fun b => (b.addr, b.size))) =
      some ([⟨0x101114, 40⟩], [(0x101000, 4076)]) := by decide +kernel
  obtain ⟨r, hRun, hr⟩ := Option.map_eq_some_iff.mp hEval
  obtain ⟨hLive, hBlocks⟩ := Prod.mk.inj hr
  have hReach : Reachable (requestSystem onePageHeap) r :=
    HeapRun.requests_reachable (.init rfl) hRun
  refine ⟨onePageHeap, r, onePageHeap_init, hReach, hLive, ?_⟩
  refine (kfree_rejects_bad_pointer_iff _ onePageHeap_init r hReach _).mpr ?_
  intro b hb hIn
  have hMem : (b.addr, b.size) ∈ [(0x101000, 4076)] := by
    rw [← hBlocks]
    exact List.mem_map.mpr ⟨b, hb, rfl⟩
  obtain ⟨hAddr, -⟩ : b.addr = 0x101000 ∧ b.size = 4076 := by simpa using hMem
  unfold KernelHeapBlockBm.InCells headerSize at hIn
  omega

/-- A double free is not turned away: after `kalloc(40)` and its `kfree` the
same pointer is in no allocation, and the second `kfree` changes `used`. -/
theorem kfree_accepts_double_free :
    ∃ heap₀ r, HeapInit heap₀ ∧ Reachable (requestSystem heap₀) r ∧
      r.heap.map (·.used) = [16] ∧ (∀ a ∈ r.live, a.ptr ≠ 0x101114) ∧
      (kfree r.heap 0x101114).toOption.map (·.map (·.used)) = some [2 ^ 32 - 222] ∧
      ¬ Rejects r.heap 0x101114 := by
  have hEval : ((HeapRun.mk onePageHeap []).requests 300 [.kalloc 40, .kfree 0x101114]).map
      (fun r => (r.live, r.heap.map (·.used), r.heap.map (·.addr),
        (kfree r.heap 0x101114).toOption.map (·.map (·.used)))) =
      some ([], [16], [0x101000], some [2 ^ 32 - 222]) := by decide +kernel
  obtain ⟨r, hRun, hr⟩ := Option.map_eq_some_iff.mp hEval
  simp only [Prod.mk.injEq] at hr
  obtain ⟨hLive, hUsed, hAddrs, hFree⟩ := hr
  have hReach : Reachable (requestSystem onePageHeap) r :=
    HeapRun.requests_reachable (.init rfl) hRun
  have hPages := requestSystem_pages onePageHeap_init hReach
  refine ⟨onePageHeap, r, onePageHeap_init, hReach, hUsed, by simp [hLive], hFree, ?_⟩
  rw [hPages.rejects_iff]
  intro hNone
  obtain ⟨b, hb, hAddr⟩ : ∃ b ∈ r.heap, b.addr = 0x101000 := by
    have hMem : 0x101000 ∈ r.heap.map (·.addr) := by simp [hAddrs]
    exact List.mem_map.mp hMem
  refine hNone b hb ⟨?_, ?_⟩
  · rw [hAddr]
    decide
  · rw [hAddr, (hPages.page b hb).size]
    decide

-- ---------------------------------------------------------------------------
-- Allocations of zero bytes
-- ---------------------------------------------------------------------------

/-- A live allocation does no harm: no other live allocation has its pointer,
and its free returns, frees no cell in use and leaves the counts right. -/
def HeapRun.Harmless (r : HeapRun) (a : Alloc) : Prop :=
  (∀ a' ∈ r.live.erase a, a'.ptr ≠ a.ptr) ∧
  ∃ heap', kfree r.heap a.ptr = .done heap' ∧
    List.Forall₂ (fun b b' => ∀ i < b.bcnt, b.bm i ≠ 0 → b'.bm i = b.bm i) r.heap heap' ∧
    ∀ b ∈ heap', b.used = usedCells b.bm b.bcnt

/-- `kalloc(0)` returns the address of the first free cell that its scan comes to. -/
theorem kalloc_zero {r : HeapRun} (h : r.Inv) {fuel ptr : Nat} {heap' : KernelHeap}
    (hAlloc : kalloc fuel r.heap 0 = .done (ptr, heap')) :
    ∃ pre b post x, r.heap = pre ++ b :: post ∧ heap' = pre ++ b.take x 0 :: post ∧
      x < 254 ∧ b.bm x = 0 ∧ ptr = b.addr + 20 + 16 * x := by
  obtain ⟨pre, b, post, x, hHeap, hScan, hPtr, rfl⟩ := kalloc_done hAlloc
  have hb := h.block b (by simp [hHeap])
  have hEnd := hb.page_end
  have hZero : blocksFor 0 b.bsize = 0 := by
    rw [hb.bsize]
    rfl
  rw [hZero] at hScan
  have hStart : b.scanStart ≤ b.bcnt := by
    have := hb.lfbBounds.below
    rw [hb.lfbBounds.scanStart]
    omega
  obtain ⟨hx, hFree⟩ := (scan_sound hb.lfbBounds hStart hScan).2
  rw [hb.bcnt] at hx
  refine ⟨pre, b, post, x, hHeap, by rw [hZero], by omega, hFree x (le_refl x) (by omega), ?_⟩
  rw [hPtr]
  unfold KernelHeapBlockBm.cellAddr headerSize
  rw [hb.bsize]
  omega

/-- No cell is marked for it. -/
theorem KernelHeapBlockBm.take_zero {b : KernelHeapBlockBm} (hUsed : b.used < 2 ^ 32) (x : Nat) :
    (b.take x 0).bm = b.bm ∧ (b.take x 0).used = b.used := by
  unfold KernelHeapBlockBm.take
  refine ⟨?_, Nat.mod_eq_of_lt (by omega)⟩
  funext i
  exact fill_out (by omega)

/-- **Zero bytes.** When every count is right, `kalloc(0)` returns the pointer of
a free cell, and the free of this pointer leaves the count of its block wrong. -/
theorem zero_size_used {r : HeapRun} (h : r.Inv) {fuel ptr : Nat} {heap' : KernelHeap}
    (hAlloc : kalloc fuel r.heap 0 = .done (ptr, heap')) :
    ∃ heap'', kfree heap' ptr = .done heap'' ∧
      ∃ b ∈ heap'', b.used ≠ usedCells b.bm b.bcnt := by
  obtain ⟨pre, b, post, x, hHeap, rfl, hx, hFree, hPtr⟩ := kalloc_zero h hAlloc
  have hb := h.block b (by simp [hHeap])
  obtain ⟨hBm, hUsed⟩ := KernelHeapBlockBm.take_zero hb.isPage.used x
  have hPages : Pages (pre ++ b.take x 0 :: post) := by
    have hOld : Pages r.heap := h.pages
    rw [hHeap] at hOld
    exact hOld.replace (b.take_addr x 0) ((hOld.page b (by simp)).take x 0)
  have hPage : (b.take x 0).IsPage := hPages.page _ (by simp)
  have hOwns : (b.take x 0).Owns ptr := by
    rw [hPage.owns_iff, take_addr]
    omega
  have hIndex : (b.take x 0).cellIndex ptr = x := by
    rw [hPage.cellIndex_of_ge (by rw [take_addr]; omega) (by rw [take_addr]; omega), take_addr]
    omega
  -- the block counted right before, and the free takes a run of free cells off its count
  obtain ⟨hBm', hUsed'⟩ := hPage.release_free hx hIndex (by rw [hBm]; exact hFree)
  refine ⟨_, kfree_eq (fun c hc => hPages.not_owns hOwns hc) hOwns, (b.take x 0).release ptr,
    by simp, ?_⟩
  rw [hBm', hBm, release_bcnt, hPage.bcnt, ← hb.count, ← hUsed]
  exact hUsed'

namespace HeapRun

variable {r r' : HeapRun} {fuel : Nat}

/-- A request for some bytes is an operation of a client. -/
theorem request_eq_exec {op : HeapOp} (h : op ≠ .kalloc 0) :
    r.request fuel op = r.exec fuel op := by
  unfold request
  split
  · exact absurd rfl h
  · rfl

theorem request_kalloc {n ptr : Nat} {heap : KernelHeap} (hPos : 1 ≤ n) (hWord : n < 2 ^ 32)
    (h : Hexos.kalloc fuel r.heap n = .done (ptr, heap)) :
    r.request fuel (.kalloc n) = some ⟨heap, ⟨ptr, n⟩ :: r.live⟩ := by
  have hOp : HeapOp.kalloc n ≠ .kalloc 0 := by
    intro hc
    have : n = 0 := HeapOp.kalloc.inj hc
    omega
  rw [request_eq_exec hOp]
  simp only [exec]
  rw [if_pos ⟨hPos, hWord⟩, h]

/-- Every operation of a client keeps the invariant and allocates some bytes. -/
theorem exec_sized {op : HeapOp} (hInv : r.Inv) (hSize : ∀ a ∈ r.live, 1 ≤ a.size)
    (h : r.exec fuel op = some r') : r'.Inv ∧ ∀ a ∈ r'.live, 1 ≤ a.size := by
  refine ⟨hInv.exec h, ?_⟩
  by_cases hZero : op = .kalloc 0
  · rw [hZero] at h
    simp [HeapRun.exec] at h
  · rw [← request_eq_exec hZero] at h
    obtain ⟨size, ptr, heap, rfl, -, rfl⟩ | ⟨a, -, heap, -, -, rfl⟩ | ⟨a, -, i, -,
      v, -, rfl⟩ :=
      request_cases h
    · intro a ha
      rcases List.mem_cons.mp ha with rfl | ha
      · have : size ≠ 0 := fun hc => hZero (congrArg HeapOp.kalloc hc)
        show 1 ≤ size
        omega
      · exact hSize a ha
    · intro a' ha'
      exact hSize a' (List.mem_of_mem_erase ha')
    · exact hSize

/-- **Run lemma.** As long as no zero bytes are asked for, the invariant holds
and no live allocation is empty. -/
theorem requests_sized {ops : List HeapOp} (hOps : HeapOp.kalloc 0 ∉ ops) (hInv : r.Inv)
    (hSize : ∀ a ∈ r.live, 1 ≤ a.size) (h : r.requests fuel ops = some r') :
    r'.Inv ∧ ∀ a ∈ r'.live, 1 ≤ a.size := by
  induction ops generalizing r with
  | nil =>
    obtain rfl : r = r' := by simpa [requests] using h
    exact ⟨hInv, hSize⟩
  | cons op ops ih =>
    obtain ⟨hOp, hOps⟩ : HeapOp.kalloc 0 ≠ op ∧ HeapOp.kalloc 0 ∉ ops := by
      simpa using hOps
    unfold requests at h
    rw [List.foldlM_cons, Option.bind_eq_bind, Option.bind_eq_some_iff] at h
    obtain ⟨r₁, hStep, hRest⟩ := h
    rw [request_eq_exec (Ne.symm hOp)] at hStep
    obtain ⟨hInv₁, hSize₁⟩ := exec_sized hInv hSize hStep
    exact ih hOps hInv₁ hSize₁ hRest

theorem requests_append (ops ops' : List HeapOp) :
    r.requests fuel (ops ++ ops') = (r.requests fuel ops).bind fun r' => r'.requests fuel ops' := by
  unfold requests
  rw [List.foldlM_append]
  rfl

end HeapRun

/-- **Zero-size allocations.** In a run of requests from disjoint page-aligned
pages, every live zero-size allocation does no harm, at every point of the run,
exactly when the run has none: when no `kalloc(0)` is among its calls. The first
one that returns can be freed at once, and the count of its block is wrong. -/
theorem zero_size_harmless_iff (heap₀ : KernelHeap) (hInit : HeapInit heap₀) (fuel : Nat)
    (ops : List HeapOp) (r : HeapRun) (hRun : (HeapRun.mk heap₀ []).requests fuel ops = some r) :
    (∀ pre r', pre <+: ops → (HeapRun.mk heap₀ []).requests fuel pre = some r' →
      ∀ a ∈ r'.live, a.size = 0 → r'.Harmless a) ↔ HeapOp.kalloc 0 ∉ ops := by
  constructor
  · intro hAll hMem
    -- the run up to the first `kalloc(0)`
    obtain ⟨pre, post, hOps, hPre⟩ := List.eq_append_cons_of_mem hMem
    rw [hOps, HeapRun.requests_append, Option.bind_eq_some_iff] at hRun
    obtain ⟨r₁, hRun₁, hRest⟩ := hRun
    obtain ⟨hInv, -⟩ := HeapRun.requests_sized hPre hInit.inv (by simp) hRun₁
    unfold HeapRun.requests at hRest
    rw [List.foldlM_cons, Option.bind_eq_bind, Option.bind_eq_some_iff] at hRest
    obtain ⟨r₂, hStep, -⟩ := hRest
    have hRun₂ : (HeapRun.mk heap₀ []).requests fuel (pre ++ [.kalloc 0]) = some r₂ := by
      rw [HeapRun.requests_append, hRun₁]
      simpa [HeapRun.requests] using hStep
    simp only [HeapRun.request] at hStep
    split at hStep
    · next ptr heap hAlloc =>
      obtain rfl := Option.some.inj hStep
      obtain ⟨-, heap', hFree, -, hUsed⟩ :=
        hAll (pre ++ [.kalloc 0]) _ ⟨post, by simp [hOps]⟩ hRun₂
        ⟨ptr, 0⟩ List.mem_cons_self rfl
      obtain ⟨heap'', hFree', b, hb, hWrong⟩ := zero_size_used hInv hAlloc
      obtain rfl : heap' = heap'' := by simpa [hFree] using hFree'
      exact hWrong (hUsed b hb)
    · cases hStep
  · intro hNone pre r' hPrefix hRun' a ha hZero
    have hPre : HeapOp.kalloc 0 ∉ pre := fun hc => hNone (hPrefix.subset hc)
    obtain ⟨-, hSize⟩ := HeapRun.requests_sized hPre hInit.inv (by simp) hRun'
    have := hSize a ha
    omega

/-- Three allocations and a free in one page, and no request for zero bytes. -/
theorem zero_size_harmless_sized_run :
    ∃ heap₀ r ops, HeapInit heap₀ ∧ (HeapRun.mk heap₀ []).requests 300 ops = some r ∧
      ops.length = 4 ∧ r.live = [⟨0x101154, 24⟩, ⟨0x101144, 5⟩] ∧
      ∀ pre r', pre <+: ops → (HeapRun.mk heap₀ []).requests 300 pre = some r' →
        ∀ a ∈ r'.live, a.size = 0 → r'.Harmless a := by
  let ops : List HeapOp := [.kalloc 40, .kalloc 5, .kalloc 24, .kfree 0x101114]
  have hEval : ((HeapRun.mk onePageHeap []).requests 300 ops).map (·.live) =
      some [⟨0x101154, 24⟩, ⟨0x101144, 5⟩] := by decide +kernel
  obtain ⟨r, hRun, hLive⟩ := Option.map_eq_some_iff.mp hEval
  exact ⟨onePageHeap, r, ops, onePageHeap_init, hRun, rfl, hLive,
    (zero_size_harmless_iff _ onePageHeap_init 300 ops r hRun).mpr (by simp [ops])⟩

/-- `kalloc(0)` and then `kalloc(5)` return the same pointer. -/
theorem zero_size_pointer_shared :
    ∃ heap₀ r, HeapInit heap₀ ∧
      (HeapRun.mk heap₀ []).requests 300 [.kalloc 0, .kalloc 5] = some r ∧
      r.live = [⟨0x101114, 5⟩, ⟨0x101114, 0⟩] ∧ ¬ r.Harmless ⟨0x101114, 0⟩ := by
  have hEval : ((HeapRun.mk onePageHeap []).requests 300 [.kalloc 0, .kalloc 5]).map (·.live) =
      some [⟨0x101114, 5⟩, ⟨0x101114, 0⟩] := by decide +kernel
  obtain ⟨r, hRun, hLive⟩ := Option.map_eq_some_iff.mp hEval
  refine ⟨onePageHeap, r, onePageHeap_init, hRun, hLive, ?_⟩
  rintro ⟨hOther, -⟩
  have hMem : (⟨0x101114, 5⟩ : Alloc) ∈ r.live.erase ⟨0x101114, 0⟩ := by
    rw [hLive]
    decide
  exact hOther _ hMem rfl

end Hexos
