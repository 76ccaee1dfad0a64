import Hexos.Lib.Outcome
import Hexos.Lib.Transition
import Hexos.Mem.Definitions

/-!
# HexOS — the kernel heap

`kernel/kernel/heap.c`: a list of blocks, each a header of five words
followed by a bitmap with one byte for each cell of `bsize` bytes. A free cell
is 0; the cells of one allocation carry one id. `kalloc` is a next-fit scan
from `lfb`; `kfree` has no length to go by and clears the run of cells with
the id it finds at the pointer.

The pointer `next` of a block is the order of the list. The counter
`heap_used_blocks` is written and never read, and is left out.
-/

namespace Hexos

open Transition

/-- `sizeof(kernel_heap_block_bm)`. -/
def headerSize : Nat := 20

/-- `kernel_heap_block_bm`, at the address `addr`. The bytes `bm` start at
`&b[1]`: first the bitmap and then, in the same page, the cells themselves. -/
structure KernelHeapBlockBm where
  addr  : Nat
  size  : Nat
  used  : Nat
  bsize : Nat
  lfb   : Nat
  bm    : Nat → UInt8

/-- `kernel_heap`: the blocks from `fblock` on. -/
abbrev KernelHeap := List KernelHeapBlockBm

/-- Set the `n` bytes from `x` on to `v`. -/
def fill (bm : Nat → UInt8) (x n : Nat) (v : UInt8) : Nat → UInt8 :=
  fun i => if x ≤ i ∧ i < x + n then v else bm i

/-- `size / bsize`, rounded up. -/
def blocksFor (size bsize : Nat) : Nat :=
  if size / bsize * bsize < size then size / bsize + 1 else size / bsize

-- ---------------------------------------------------------------------------
-- Initialisation
-- ---------------------------------------------------------------------------

/-- `kheap_init`. -/
def kheapInit : KernelHeap := []

/-- `kheap_add_block`. The bytes of the page after the header are `page`. -/
def kheapAddBlock (heap : KernelHeap) (addr size bsize : Nat) (page : Nat → UInt8) : KernelHeap :=
  let bcnt := size / bsize
  -- clear bitmap
  let bm := fill page 0 bcnt 0
  -- reserve room for bitmap
  let bcnt := blocksFor bcnt bsize
  let bm := fill bm 0 bcnt 5
  -- a block at address 0 makes `fblock` null, which is how an empty heap looks
  if addr = 0 then []
  else
    { addr := addr
      size := (size + 2 ^ 32 - headerSize) % 2 ^ 32
      used := bcnt
      bsize := bsize
      lfb := (bcnt + 2 ^ 32 - 1) % 2 ^ 32
      bm := bm } :: heap

/-- The loop of `main_heap_init` for `n` more pages. -/
def addPages (mem : Nat → UInt8) :
    Nat → KernelHeap → PageMem → Outcome (KernelHeap × PageMem)
  | 0, heap, m => .done (heap, m)
  | n + 1, heap, m =>
    (m.memoryAllocPage false).bind fun (block, m) =>
      addPages mem n (kheapAddBlock heap block pageSize 16 fun i => mem (block + headerSize + i)) m

/-- `main_heap_init`, over memory with the contents `mem`. -/
def mainHeapInit (mem : Nat → UInt8) (m : PageMem) : Outcome (KernelHeap × PageMem) :=
  addPages mem 15 kheapInit m

-- ---------------------------------------------------------------------------
-- kalloc
-- ---------------------------------------------------------------------------

/-- The loop of `kheap_get_nid`. It skips two of the 256 ids at most, so its
bound on the rounds is never used up. -/
def nidLoop (b : UInt8) : Nat → UInt8 → UInt8
  | 0, c => c
  | k + 1, c => if c = b ∨ c = 0 then nidLoop b k (c + 1) else c

/-- `kheap_get_nid`. -/
def kheapGetNid (a b : UInt8) : UInt8 := nidLoop b 256 (a + 1)

namespace KernelHeapBlockBm

/-- `b->size / b->bsize`. -/
def bcnt (b : KernelHeapBlockBm) : Nat := b.size / b.bsize

/-- `b->size - (b->used * b->bsize) >= size`: the block has enough room. -/
def Room (b : KernelHeapBlockBm) (size : Nat) : Prop :=
  (b.size + 2 ^ 32 - b.used * b.bsize % 2 ^ 32) % 2 ^ 32 ≥ size

instance (b : KernelHeapBlockBm) (size : Nat) : Decidable (b.Room size) :=
  inferInstanceAs (Decidable (_ ≥ _))

/-- Count free blocks: the zero cells from `i` on, `k` at most. -/
def countFree (b : KernelHeapBlockBm) : Nat → Nat → Nat
  | 0, _ => 0
  | k + 1, i => if b.bm i = 0 ∧ i < b.bcnt then b.countFree k (i + 1) + 1 else 0

/-- `bm[x - 1]`; before the first cell lies the last byte of `lfb`. -/
def leftOf (b : KernelHeapBlockBm) (x : Nat) : UInt8 :=
  if x = 0 then UInt8.ofNat (b.lfb / 2 ^ 24) else b.bm (x - 1)

/-- The scan of `kalloc` over one block from `x` on: the cell it allocates
from, `some none` when it ends at `lfb`, `none` when it is still running after
`fuel` rounds. -/
def kallocScan (b : KernelHeapBlockBm) (bneed : Nat) : Nat → Nat → Option (Option Nat)
  | 0, _ => none
  | fuel + 1, x =>
    if x = b.lfb then some none
    else
      -- just wrap around
      let x := if x ≥ b.bcnt then 0 else x
      if b.bm x = 0 then
        let y := b.countFree bneed x
        if y = bneed then some (some x) else b.kallocScan bneed fuel (x + y)
      else b.kallocScan bneed fuel (x + 1)

/-- Where the scan starts. -/
def scanStart (b : KernelHeapBlockBm) : Nat :=
  if (b.lfb + 1) % 2 ^ 32 ≥ b.bcnt then 0 else (b.lfb + 1) % 2 ^ 32

/-- Allocate the `bneed` cells from `x` on. -/
def take (b : KernelHeapBlockBm) (x bneed : Nat) : KernelHeapBlockBm :=
  -- find ID that does not match left or right
  let nid := kheapGetNid (b.leftOf x) (b.bm (x + bneed))
  { b with
    bm := fill b.bm x bneed nid
    lfb := (x + bneed + 2 ^ 32 - 2) % 2 ^ 32
    used := (b.used + bneed) % 2 ^ 32 }

/-- The address of cell `x`. -/
def cellAddr (b : KernelHeapBlockBm) (x : Nat) : Nat :=
  (x * b.bsize + (b.addr + headerSize)) % 2 ^ 32

end KernelHeapBlockBm

/-- `kalloc`, with at most `fuel` rounds of the scan for each block. -/
def kalloc (fuel : Nat) : KernelHeap → Nat → Outcome (Nat × KernelHeap)
  | [], _ => .panic "kalloc: Out of memory!"
  | b :: bs, size =>
    let next := (kalloc fuel bs size).map fun (ptr, bs) => (ptr, b :: bs)
    if b.Room size then
      let bneed := blocksFor size b.bsize
      match b.kallocScan bneed fuel b.scanStart with
      | none => .running
      | some (some x) => .done (b.cellAddr x, b.take x bneed :: bs)
      | some none => next
    else next

-- ---------------------------------------------------------------------------
-- kfree
-- ---------------------------------------------------------------------------

/-- Clear allocation: zero the cells with the given id, `k` at most, from `x`
on. Returns the bitmap and the cell it stopped at. -/
def clearRun (id : UInt8) : Nat → Nat → (Nat → UInt8) → (Nat → UInt8) × Nat
  | 0, x, bm => (bm, x)
  | k + 1, x, bm =>
    if bm x = id then clearRun id k (x + 1) (Function.update bm x 0) else (bm, x)

namespace KernelHeapBlockBm

/-- The test of `kfree` for the block of a pointer. -/
def Owns (b : KernelHeapBlockBm) (ptr : Nat) : Prop :=
  b.addr < ptr ∧ ptr < (b.addr + b.size) % 2 ^ 32

instance (b : KernelHeapBlockBm) (ptr : Nat) : Decidable (b.Owns ptr) :=
  inferInstanceAs (Decidable (_ ∧ _))

/-- The cell a pointer points to. -/
def cellIndex (b : KernelHeapBlockBm) (ptr : Nat) : Nat :=
  (ptr + 2 ^ 32 - (b.addr + headerSize)) % 2 ^ 32 / b.bsize

/-- Free the allocation that starts at the cell `bi`. -/
def releaseCell (b : KernelHeapBlockBm) (bi : Nat) : KernelHeapBlockBm :=
  let run := clearRun (b.bm bi) (b.bcnt - bi) bi b.bm
  { b with
    bm := run.1
    -- update free block count
    used := (b.used + 2 ^ 32 - (run.2 - bi)) % 2 ^ 32 }

/-- Free the allocation at `ptr` in the block found. -/
def release (b : KernelHeapBlockBm) (ptr : Nat) : KernelHeapBlockBm :=
  b.releaseCell (b.cellIndex ptr)

end KernelHeapBlockBm

/-- `kfree`. -/
def kfree : KernelHeap → Nat → Outcome KernelHeap
  | [], _ => .panic "kfree: Invalid pointer!"
  | b :: bs, ptr =>
    if b.Owns ptr then .done (b.release ptr :: bs)
    else (kfree bs ptr).map (b :: ·)

-- ---------------------------------------------------------------------------
-- Clients
-- ---------------------------------------------------------------------------

/-- A byte written to the memory of a block, after its header. -/
def KernelHeapBlockBm.storeByte (b : KernelHeapBlockBm) (a : Nat) (v : UInt8) : KernelHeapBlockBm :=
  if b.addr + headerSize ≤ a ∧ a < b.addr + headerSize + b.size then
    { b with bm := Function.update b.bm (a - (b.addr + headerSize)) v }
  else b

/-- An allocation of a client: the pointer and the size it asked for. -/
structure Alloc where
  ptr  : Nat
  size : Nat
deriving DecidableEq

/-- The heap and the allocations not yet freed. -/
structure HeapRun where
  heap : KernelHeap
  live : List Alloc

/-- A call of a client, or its write of the byte `v` at the offset `i` of the
allocation at `ptr`. -/
inductive HeapOp
  | kalloc (size : Nat)
  | kfree (ptr : Nat)
  | write (ptr i : Nat) (v : UInt8)

namespace HeapRun

/-- One operation of a client, if it is allowed and completes: a request is a
32-bit size of at least 1, a free is of a live pointer, a write stays inside a
live allocation. -/
def exec (fuel : Nat) (r : HeapRun) : HeapOp → Option HeapRun
  | .kalloc size =>
    if 1 ≤ size ∧ size < 2 ^ 32 then
      match Hexos.kalloc fuel r.heap size with
      | .done (ptr, heap) => some ⟨heap, ⟨ptr, size⟩ :: r.live⟩
      | _ => none
    else none
  | .kfree ptr =>
    match r.live.find? (·.ptr = ptr), Hexos.kfree r.heap ptr with
    | some a, .done heap => some ⟨heap, r.live.erase a⟩
    | _, _ => none
  | .write ptr i v =>
    match r.live.find? (·.ptr = ptr) with
    | some a =>
      if i < a.size then some { r with heap := r.heap.map (·.storeByte (ptr + i) v) } else none
    | none => none

/-- A sequence of operations. -/
def run (fuel : Nat) (r : HeapRun) (ops : List HeapOp) : Option HeapRun :=
  ops.foldlM (exec fuel) r

end HeapRun

/-- The heap `kheap_init` leaves, with pages added one after another: pairwise
disjoint, page-aligned pages of the 32-bit address space. -/
inductive HeapInit : KernelHeap → Prop
  | init : HeapInit kheapInit
  | add {heap : KernelHeap} {addr : Nat} {page : Nat → UInt8} :
      HeapInit heap → pageSize ∣ addr → addr < 2 ^ 32 → (∀ b ∈ heap, b.addr ≠ addr) →
      HeapInit (kheapAddBlock heap addr pageSize 16 page)

/-- All runs of clients from the heap `heap₀`. -/
def heapSystem (heap₀ : KernelHeap) : System HeapRun where
  init r := r = ⟨heap₀, []⟩
  step r r' := ∃ fuel op, r.exec fuel op = some r'

end Hexos
