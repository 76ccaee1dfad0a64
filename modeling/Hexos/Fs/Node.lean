import Hexos.Fs.Definitions
import Hexos.Heap.Invariant

/-!
# HexOS — nodes in memory

What the calls of the heap mean for the rest of the memory, and what
`iso9660_entry_to_node_mini` leaves at the address of the node. Its stores are
made while the directory record is still being read, so the record must be
followed through them.

## Results

* `Machine.kalloc_spec`, `Machine.kfree_spec` — the heap calls.
* `Stable` — memory that no allocation reaches.
* `strcpy_spec` — the string copied and the frame.
* `entryToNodeMini_spec` — the node, in terms of the record as it is read.
-/

namespace Hexos

open Mem

-- ---------------------------------------------------------------------------
-- Heap calls
-- ---------------------------------------------------------------------------

/-- The heap invariant with the given live allocations. -/
def Machine.Inv (s : Machine) (live : List Alloc) : Prop := HeapRun.Inv ⟨s.heap, live⟩

/-- The addresses of the heap's pages. -/
def Machine.pages (s : Machine) : List Nat := s.heap.map (·.addr)

variable {s s' : Machine} {live : List Alloc}

theorem kalloc_pages {fuel size ptr : Nat} {heap heap' : KernelHeap}
    (h : kalloc fuel heap size = .done (ptr, heap')) :
    heap'.map (·.addr) = heap.map (·.addr) := by
  obtain ⟨pre, b, post, x, rfl, -, -, rfl⟩ := kalloc_done h
  have hAddr : (b.take x (blocksFor size b.bsize)).addr = b.addr := by
    unfold KernelHeapBlockBm.take
    rfl
  simp [hAddr]

/-- **kalloc.** It changes no byte of its clients. -/
theorem Machine.kalloc_spec {fuel size ptr : Nat} (h : s.Inv live) (hSize : 1 ≤ size)
    (hk : s.kalloc fuel size = .done (ptr, s')) :
    s'.mem = s.mem ∧ s'.pages = s.pages ∧ s'.Inv (⟨ptr, size⟩ :: live) := by
  unfold Machine.kalloc at hk
  obtain ⟨⟨p, heap⟩, hAlloc, hEq⟩ := Outcome.map_eq_done.mp hk
  obtain ⟨rfl, rfl⟩ : p = ptr ∧ { s with heap := heap } = s' := by simpa using hEq
  exact ⟨rfl, kalloc_pages hAlloc, HeapRun.Inv.kalloc h hSize hAlloc⟩

/-- It does not read them either. -/
theorem Machine.kalloc_with_mem {fuel size ptr : Nat} (hk : s.kalloc fuel size = .done (ptr, s'))
    (m : Mem) : Machine.kalloc fuel { s with mem := m } size =
    .done (ptr, { s' with mem := m }) := by
  unfold Machine.kalloc at hk ⊢
  obtain ⟨⟨p, heap⟩, hAlloc, hEq⟩ := Outcome.map_eq_done.mp hk
  obtain ⟨rfl, rfl⟩ : p = ptr ∧ { s with heap := heap } = s' := by simpa using hEq
  simp only [hAlloc, Outcome.map_done]

/-- **kfree.** A live pointer is freed, and no byte of a client changes. -/
theorem Machine.kfree_spec {a : Alloc} (h : s.Inv live) (ha : a ∈ live) :
    ∃ s', s.kfree a.ptr = .done s' ∧ s'.mem = s.mem ∧ s'.pages = s.pages ∧
      s'.Inv (live.erase a) := by
  obtain ⟨pre, b, post, x, hHeap, hOwns, hx⟩ := HeapRun.Inv.exists_holds h ha
  have hFree := HeapRun.Inv.kfree_live h hHeap hOwns
  have hb := HeapRun.Inv.block_erase h ha (by rw [hHeap]; simp) hOwns
  have hAddr : (b.release a.ptr).addr = b.addr := (hb.release_spec hx hb.cells_le_used).1
  have hHeap' : s.heap = pre ++ b :: post := hHeap
  refine ⟨{ s with heap := pre ++ b.release a.ptr :: post }, ?_, rfl, ?_,
    HeapRun.Inv.kfree h ha hFree⟩
  · unfold Machine.kfree
    rw [hFree]
    rfl
  · unfold Machine.pages
    simp [hHeap', hAddr]

/-- The newest allocation is freed, whatever has been written to memory by then. -/
theorem Machine.Inv.kfree_newest {a : Alloc} (h : s.Inv (a :: live)) (m : Mem) :
    ∃ s', Machine.kfree { s with mem := m } a.ptr = .done s' ∧ s'.mem = m ∧
      s'.pages = s.pages ∧
      s'.Inv live ∧ Hexos.kfree s.heap a.ptr = .done s'.heap := by
  have hInvM : Machine.Inv { s with mem := m } (a :: live) := h
  obtain ⟨s', hFree, hMem, hPages, hInv'⟩ := Machine.kfree_spec hInvM List.mem_cons_self
  rw [List.erase_cons_head] at hInv'
  obtain ⟨heap, hHeap, rfl⟩ := Outcome.map_eq_done.mp hFree
  exact ⟨_, hFree, rfl, hPages, hInv', hHeap⟩

/-- Where a live allocation is. -/
theorem Machine.Inv.range (h : s.Inv live) {a : Alloc} (ha : a ∈ live) :
    (∃ addr ∈ s.pages, addr + 276 ≤ a.ptr ∧ a.ptr + a.size ≤ addr + 4096) ∧
      a.ptr % 16 = 4 ∧ a.ptr + a.size ≤ 2 ^ 32 := by
  obtain ⟨pre, b, post, x, hHeap, hOwns, hx⟩ := HeapRun.Inv.exists_holds h ha
  have hb : b ∈ s.heap := by
    have : s.heap = pre ++ b :: post := hHeap
    simp [this]
  have hBlock := HeapRun.Inv.block h b hb
  obtain ⟨k, hk⟩ := hBlock.aligned
  have hEnd := hBlock.page_end
  have hPage := BlockInv.in_page hx
  have hPtr := hx.ptr
  have hSize := a.cells_bounds
  simp only [pageSize, headerSize] at hk hPtr
  refine ⟨⟨b.addr,
    List.mem_map.mpr ⟨b, hb, rfl⟩, by omega, by omega⟩, by omega, by omega⟩

/-- Two live allocations do not overlap. -/
theorem Machine.Inv.apart {a a' : Alloc} (h : s.Inv (a :: live)) (ha' : a' ∈ live) :
    a.ptr + a.size ≤ a'.ptr ∨ a'.ptr + a'.size ≤ a.ptr := by
  have hApart := (List.pairwise_cons.mp (HeapRun.Inv.apart h)).1 a' ha'
  have := a.cells_bounds
  have := a'.cells_bounds
  unfold Alloc.Apart at hApart
  omega

-- ---------------------------------------------------------------------------
-- Memory that no allocation reaches
-- ---------------------------------------------------------------------------

/-- The range is inside a live allocation, or outside the pages of the heap. -/
def Stable (pages : List Nat) (live : List Alloc) (a n : Nat) : Prop :=
  (∃ al ∈ live, al.ptr ≤ a ∧ a + n ≤ al.ptr + al.size) ∨
    ∀ addr ∈ pages, a + n ≤ addr ∨ addr + 4096 ≤ a

theorem Stable.sub {pages : List Nat} {a n k l : Nat} (h : Stable pages live a n) (hl : a ≤ k)
    (hr : k + l ≤ a + n) : Stable pages live k l := by
  rcases h with ⟨al, hal, h1, h2⟩ | h
  · exact Or.inl ⟨al, hal, by omega, by omega⟩
  · refine Or.inr ?_
    intro addr ha
    have := h addr ha
    omega

theorem Stable.cons {pages : List Nat} {a n : Nat} (h : Stable pages live a n) (al : Alloc) :
    Stable pages (al :: live) a n := by
  rcases h with ⟨al', hal', hIn⟩ | h
  · exact Or.inl ⟨al', List.mem_cons_of_mem al hal', hIn⟩
  · exact Or.inr h

/-- A new allocation does not meet stable memory. -/
theorem Stable.apart {a : Alloc} {k l : Nat} (h : Stable s.pages live k l)
    (hInv : s.Inv (a :: live)) :
    k + l ≤ a.ptr ∨ a.ptr + a.size ≤ k := by
  rcases h with ⟨al, hal, h1, h2⟩ | h
  · have := hInv.apart hal
    omega
  · obtain ⟨⟨addr, hAddr, hLow, hHigh⟩, -, -⟩ := hInv.range List.mem_cons_self
    have := h addr hAddr
    omega

-- ---------------------------------------------------------------------------
-- Strings
-- ---------------------------------------------------------------------------

/-- **strcpy.** A string is copied to a place that does not overlap it. -/
theorem strcpy_spec {str : List UInt8} (hStr : 0 ∉ str) {fuel : Nat} {m : Mem} {d s : Nat}
    (hFuel : str.length < fuel) (hs : StringAt m s str)
    (hApart : d + str.length + 1 ≤ s ∨ s + str.length + 1 ≤ d) :
    ∃ m', strcpy fuel m d s = .done m' ∧ StringAt m' d str ∧
      SameOff m m' d (str.length + 1) := by
  induction str generalizing fuel m d s with
  | nil =>
    obtain ⟨fuel, rfl⟩ : ∃ f, fuel = f + 1 :=
      ⟨fuel - 1, by simp only [List.length_nil] at hFuel; omega⟩
    have hEnd : m s = 0 := hs.2
    refine ⟨m.store8 d 0, ?_, ⟨by simp, store8_self⟩, store8_sameOff m d 0⟩
    rw [strcpy, if_neg (by simpa using hEnd)]
  | cons c cs ih =>
    simp only [List.length_cons] at hFuel hApart ⊢
    obtain ⟨fuel, rfl⟩ : ∃ f, fuel = f + 1 := ⟨fuel - 1, by omega⟩
    obtain ⟨hHead, hTail⟩ := stringAt_cons.mp hs
    obtain ⟨hc, hcs⟩ : c ≠ 0 ∧ 0 ∉ cs :=
      ⟨fun h => hStr (by simp [h]), fun h => hStr (List.mem_cons_of_mem c h)⟩
    have hTail' : StringAt (m.store8 d c) (s + 1) cs :=
      hTail.congr ((store8_sameOff m d c).sameOn (by omega))
    obtain ⟨m', hRun, hCopy, hFrame⟩ : ∃ m', strcpy fuel (m.store8 d c) (d + 1) (s + 1) =
      .done m' ∧
        StringAt m' (d + 1) cs ∧ SameOff (m.store8 d c) m' (d + 1) (cs.length + 1) :=
      ih hcs (by omega) hTail' (by omega)
    refine ⟨m', ?_, stringAt_cons.mpr ⟨?_, hCopy⟩, ?_⟩
    · rw [strcpy, if_pos (by rw [hHead]; exact hc), hHead]
      exact hRun
    · rw [hFrame d (by omega), store8_self]
    · intro i hi
      rw [hFrame i (by omega), store8_other (by omega)]

/-- **strcmp.** It compares the whole strings. -/
theorem strEq_iff {str name : List UInt8} (hStr : 0 ∉ str) (hName : 0 ∉ name)
    {m : Mem} {a : Nat} (h : StringAt m a str) : strEq m a name = true ↔ str = name := by
  induction name generalizing str a with
  | nil =>
    cases str with
    | nil => simp [strEq, show m a = 0 from h.2]
    | cons c cs =>
      obtain ⟨hHead, -⟩ := stringAt_cons.mp h
      have hc : c ≠ 0 := fun h => hStr (by simp [h])
      simp [strEq, hHead, hc]
  | cons n ns ih =>
    have hn : n ≠ 0 := fun h => hName (by simp [h])
    cases str with
    | nil =>
      have hEnd : m a = 0 := h.2
      simp [strEq, hEnd, hn.symm]
    | cons c cs =>
      obtain ⟨hHead, hTail⟩ := stringAt_cons.mp h
      have hc : c ≠ 0 := fun h => hStr (by simp [h])
      have hRest := ih (fun h => hStr (List.mem_cons_of_mem c h))
        (fun h => hName (List.mem_cons_of_mem n h)) hTail
      by_cases hcn : c = n
      · subst hcn
        simp [strEq, hHead, hc, hRest]
      · simp [strEq, hHead, hcn]

-- ---------------------------------------------------------------------------
-- The node
-- ---------------------------------------------------------------------------

/-- The words of a mini node fit into memory. -/
def FsNodeMini.Words (mini : FsNodeMini) : Prop :=
  mini.inode < 2 ^ 32 ∧ mini.impl < 2 ^ 32 ∧ mini.recreate < 2 ^ 32

/-- A node of an ISO9660 volume at the address `a`. -/
structure NodeAt (env : Env) (m : Mem) (a flags inode length fsInfo : Nat) (parent : FsNodeMini) :
    Prop where
  flags    : m.load32 (a + 268) = flags
  inode    : m.load32 (a + 272) = inode
  length   : m.load32 (a + 276) = length
  impl     : m.load32 (a + 280) = fsInfo
  finddir  : m.load32 (a + 304) = env.iso9660Finddir
  recreate : m.load32 (a + 308) = env.iso9660Recreate
  freeNode : m.load32 (a + 312) = env.iso9660FreeNode
  parent   : loadMini m (a + 316) = parent

theorem NodeAt.congr {env : Env} {m m' : Mem} {a flags inode length fsInfo : Nat}
    {parent : FsNodeMini} (h : NodeAt env m a flags inode length fsInfo parent)
    (hSame : SameOn m m' a 332) :
    NodeAt env m' a flags inode length fsInfo parent := by
  have hWord : ∀ k, k + 4 ≤ 332 → m'.load32 (a + k) = m.load32 (a + k) :=
    fun k hk => (hSame.sub (by omega) (by omega)).load32
  refine ⟨?_, ?_, ?_, ?_, ?_, ?_, ?_, ?_⟩
  · rw [hWord 268 (by omega), h.flags]
  · rw [hWord 272 (by omega), h.inode]
  · rw [hWord 276 (by omega), h.length]
  · rw [hWord 280 (by omega), h.impl]
  · rw [hWord 304 (by omega), h.finddir]
  · rw [hWord 308 (by omega), h.recreate]
  · rw [hWord 312 (by omega), h.freeNode]
  · rw [← h.parent]
    unfold loadMini
    simp only [Nat.add_assoc]
    rw [hWord 316 (by omega), hWord (316 + 4) (by omega), hWord (316 + 8) (by omega)]

theorem storeMini_sameOff (m : Mem) (a : Nat) (mini : FsNodeMini) :
    SameOff m (storeMini m a mini) a 12 := by
  unfold storeMini
  refine ((store32_sameOff _ _ _).sub ?_ ?_).trans (((store32_sameOff _ _ _).sub ?_ ?_).trans
    ((store32_sameOff _ _ _).sub ?_ ?_)) <;> omega

theorem loadMini_storeMini {m : Mem} {a : Nat} {mini : FsNodeMini} (h : mini.Words) :
    loadMini (storeMini m a mini) a = mini := by
  unfold loadMini storeMini
  simp (disch := omega) only [load32_store32_other, load32_store32 h.1, load32_store32 h.2.1,
    load32_store32 h.2.2]

/-- The stores that do not depend on the record. -/
theorem storeLinks_spec (env : Env) (m : Mem) {a fsInfo : Nat} {parent : FsNodeMini}
    (hInfo : fsInfo < 2 ^ 32) (hParent : parent.Words) :
    NodeAt env (storeLinks env m a fsInfo parent) a (m.load32 (a + 268)) (m.load32 (a + 272))
      (m.load32 (a + 276)) fsInfo parent ∧
    SameOff m (storeLinks env m a fsInfo parent) a 332 := by
  have hFinddir := (env.words env.iso9660Finddir (by simp)).2
  have hRecreate := (env.words env.iso9660Recreate (by simp)).2
  have hFreeNode := (env.words env.iso9660FreeNode (by simp)).2
  obtain ⟨h1, h2, h3⟩ := hParent
  refine ⟨⟨?_, ?_, ?_, ?_, ?_, ?_, ?_, ?_⟩, ?_⟩
  all_goals unfold storeLinks storeMini
  · simp (disch := omega) only [load32_store32_other]
  · simp (disch := omega) only [load32_store32_other]
  · simp (disch := omega) only [load32_store32_other]
  · simp (disch := omega) only [load32_store32_other, load32_store32 hInfo]
  · simp (disch := omega) only [load32_store32_other, load32_store32 hFinddir]
  · simp (disch := omega) only [load32_store32_other, load32_store32 hRecreate]
  · simp (disch := omega) only [load32_store32 hFreeNode]
  · unfold loadMini
    simp (disch := omega) only [load32_store32_other, load32_store32 h1, load32_store32 h2,
      load32_store32 h3]
  · intro i hi
    simp (disch := omega) only [store32_other]

/-- The stores of the attributes. -/
theorem storeAttributes_spec (m : Mem) (a e : Nat) :
    (storeAttributes m a e).load32 (a + 268) =
      (if m (e + 25) &&& 2 ≠ 0 then fsDirectory else fsFile) ∧
    SameOff m (storeAttributes m a e) a 332 := by
  have hFlags : (if m (e + 25) &&& 2 ≠ 0 then fsDirectory else fsFile) < 2 ^ 32 := by
    split <;> decide
  unfold storeAttributes
  refine ⟨?_, ?_⟩
  · simp (disch := omega) only [load32_store32_other, load32_store32 hFlags]
  · intro i hi
    simp (disch := omega) only [store32_other]

/-- **The node.** It is built from the record `e` as each store finds it: `m₁` is
the memory after the stores to the name. -/
theorem entryToNodeMini_spec (env : Env) {fuel a e fsInfo : Nat} {parent : FsNodeMini}
    {s₁ : Machine} {m₁ : Mem} (hk : s.kalloc fuel sizeofFsNode = .done (a, s₁))
    (hName : storeName fuel s₁.mem a e = .done m₁) (hInfo : fsInfo < 2 ^ 32)
    (hParent : parent.Words) :
    ∃ m', iso9660EntryToNodeMini env fuel s e fsInfo parent =
      .done (a, { s₁ with mem := m' }) ∧
      NodeAt env m' a (if m₁ (e + 25) &&& 2 ≠ 0 then fsDirectory else fsFile)
        ((storeAttributes m₁ a e).load32 (e + 2)) ((storeAttributes m₁ a e).load32 (a + 276))
        fsInfo parent ∧
      SameOff m₁ m' a 332 := by
  obtain ⟨hFlags, hFrame⟩ := storeAttributes_spec m₁ a e
  generalize hm₂ : storeAttributes m₁ a e = m₂ at hFlags hFrame ⊢
  obtain ⟨hNode, hLinks⟩ :=
    storeLinks_spec env (m₂.store32 (a + 272) (m₂.load32 (e + 2))) (a := a)
    hInfo hParent
  rw [load32_store32 (load32_lt m₂ (e + 2)), load32_store32_other (by omega),
    load32_store32_other (by omega), hFlags] at hNode
  refine ⟨_, ?_, hNode, hFrame.trans (SameOff.trans ?_ hLinks)⟩
  · unfold iso9660EntryToNodeMini
    simp only [hk, Outcome.bind_done, hName, Outcome.map_done, hm₂]
  · exact (store32_sameOff m₂ (a + 272) _).sub (by omega) (by omega)

/-- The record lies outside the node: its identifier is copied, and nothing
outside the name is written. -/
theorem storeName_apart {fuel a e : Nat} {m : Mem} {ident : List UInt8} (hIdent : 0 ∉ ident)
    (hFuel : ident.length < fuel) (hLen : (m (e + 32)).toNat = ident.length)
    (hString : StringAt m (e + 33) ident) (hApart : e + 34 + ident.length ≤ a ∨ a + 332 ≤ e) :
    ∃ m₁, storeName fuel m a e = .done m₁ ∧ SameOff m m₁ a 256 := by
  have hByte := (m (e + 32)).toNat_lt
  obtain ⟨m', hCopy, -, hFrame⟩ := strcpy_spec (d := a) hIdent hFuel hString (by omega)
  refine ⟨m'.store8 (a + ident.length) 0, ?_, ?_⟩
  · unfold storeName
    rw [if_pos (by omega), hCopy, Outcome.map_done, hFrame (e + 32) (by omega), hLen]
  · exact (hFrame.sub (by omega) (by omega)).trans
      ((store8_sameOff _ _ _).sub (by omega) (by omega))

/-- **A node from a live record.** Lba, length and directory flag are those of
the record. -/
theorem entryToNodeMini_live (env : Env) {fuel a e fsInfo : Nat} {parent : FsNodeMini}
    {s₁ : Machine} {ident : List UInt8} (hk : s.kalloc fuel sizeofFsNode = .done (a, s₁))
    (hIdent : 0 ∉ ident) (hFuel : ident.length < fuel)
    (hLen : (s₁.mem (e + 32)).toNat = ident.length) (hString : StringAt s₁.mem (e + 33) ident)
    (hApart : e + 34 + ident.length ≤ a ∨ a + 332 ≤ e) (hInfo : fsInfo < 2 ^ 32)
    (hParent : parent.Words) :
    ∃ m', iso9660EntryToNodeMini env fuel s e fsInfo parent =
      .done (a, { s₁ with mem := m' }) ∧
      NodeAt env m' a (if s₁.mem (e + 25) &&& 2 ≠ 0 then fsDirectory else fsFile)
        (s₁.mem.load32 (e + 2)) (s₁.mem.load32 (e + 10)) fsInfo parent ∧
      SameOff s₁.mem m' a 332 := by
  obtain ⟨m₁, hName, hNameFrame⟩ := storeName_apart hIdent hFuel hLen hString hApart
  obtain ⟨m', hRun, hNode, hFrame⟩ := entryToNodeMini_spec env hk hName hInfo hParent
  have hLength : (storeAttributes m₁ a e).load32 (a + 276) = m₁.load32 (e + 10) := by
    unfold storeAttributes
    rw [load32_store32 (load32_lt _ _)]
    simp (disch := omega) only [load32_store32_other]
  have hAttributes := (storeAttributes_spec m₁ a e).2
  have hRecord : ∀ {m m' : Mem} {n : Nat}, n ≤ 332 → SameOff m m' a n → SameOn m m' e 34 :=
    fun hn h => (h.sub (n := 332) (le_refl a) (by omega)).sameOn (by omega)
  have hOld := hRecord (by omega) hNameFrame
  have hNew := hOld.trans (hRecord (by omega) hAttributes)
  rw [hLength, hOld (e + 25) (by omega) (by omega),
    (hOld.sub (k := e + 10) (by omega) (by omega)).load32,
    (hNew.sub (k := e + 2) (by omega) (by omega)).load32] at hNode
  exact ⟨m', hRun, hNode, (hNameFrame.sub (by omega) (by omega)).trans hFrame⟩

end Hexos
