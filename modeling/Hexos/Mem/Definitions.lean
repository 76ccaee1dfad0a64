import Hexos.Lib.Outcome
import Hexos.Lib.Transition
import Mathlib.Algebra.Group.Int.Defs
import Mathlib.Algebra.Group.Nat.Defs
import Mathlib.Data.Finset.Card
import Mathlib.Data.Finset.Range
import Mathlib.Logic.Function.Basic

/-!
# HexOS — the page allocator

`kernel/kernel/mem.c`: physical pages of 4096 bytes from
`ALLOC_MEMORY_START` on, one bit for each page in the array `freemap`, set
while the page is free. Addresses and counters are 32-bit words: natural
numbers below `2^32`, reduced where the code can wrap.
-/

namespace Hexos

open Transition

/-- `ALLOC_MEMORY_START`. -/
def allocMemoryStart : Nat := 0x100000

/-- `PAGE_SIZE`. -/
def pageSize : Nat := 4096

/-- `CELL_BITS`. -/
def cellBits : Nat := 32

/-- The globals of the page allocator: the pointer `freemap` (0 before
`mem_init`), the cells it points to, their number and the counter of free
pages. -/
structure PageMem where
  freemap      : Nat
  cells        : Nat → BitVec 32
  freemapCells : Nat
  pagesFree    : Nat

namespace PageMem

/-- The inner loop of `memory_alloc_page`: the first of the bits `j`, ...,
`j + k - 1` that is set in `cell`. -/
def scanBits (cell : BitVec 32) : Nat → Nat → Option Nat
  | 0, _ => none
  | k + 1, j => if cell &&& (1#32 <<< j) ≠ 0 then some j else scanBits cell k (j + 1)

/-- The outer loop of `memory_alloc_page`: the first set bit of the cells
`i`, ..., `i + k - 1`, as its cell and its place in the cell. -/
def scanCells (cells : Nat → BitVec 32) : Nat → Nat → Option (Nat × Nat)
  | 0, _ => none
  | k + 1, i =>
    if cells i ≠ 0 then
      match scanBits (cells i) cellBits 0 with
      | some j => some (i, j)
      | none => scanCells cells k (i + 1)
    else scanCells cells k (i + 1)

/-- `memset(pageaddr,0,PAGE_SIZE)` as far as it touches the freemap array:
the cells that lie in the page are zeroed. (Pages and cells are aligned, so a
cell is in the page as a whole or not at all.) -/
def zeroPage (m : PageMem) (pageaddr : Nat) : PageMem :=
  { m with cells := fun c =>
      if pageaddr ≤ m.freemap + 4 * c ∧ m.freemap + 4 * c < pageaddr + pageSize then 0
      else m.cells c }

/-- `memory_alloc_page`: the page's address and the new state; the address 0
before `mem_init`. -/
def memoryAllocPage (m : PageMem) (zeroit : Bool) : Outcome (Nat × PageMem) :=
  if m.freemap = 0 then .done (0, m)
  else
    match scanCells m.cells m.freemapCells 0 with
    | none => .panic "memory_alloc_page: Out of memory!"
    | some (i, j) =>
      let cellmask := 1#32 <<< j
      let m := { m with cells := Function.update m.cells i (m.cells i &&& ~~~cellmask) }
      let pagenumber := (i * cellBits + j) % 2 ^ 32
      let pageaddr := (pagenumber * pageSize % 2 ^ 32 + allocMemoryStart) % 2 ^ 32
      let m := if zeroit then m.zeroPage pageaddr else m
      .done (pageaddr, { m with pagesFree := (m.pagesFree + 2 ^ 32 - 1) % 2 ^ 32 })

/-- `(pageaddr-alloc_memory_start)>>PAGE_BITS` as a `uint32_t`: the pointer
difference is a signed word and the shift is arithmetic. -/
def pageNumberOf (pageaddr : Nat) : Nat :=
  let diff : Nat := (pageaddr + 2 ^ 32 - allocMemoryStart) % 2 ^ 32
  let signed : Int := if diff < 2 ^ 31 then diff else diff - 2 ^ 32
  (signed / 4096 % 2 ^ 32).toNat

/-- `memory_free_page`. -/
def memoryFreePage (m : PageMem) (pageaddr : Nat) : PageMem :=
  let pagenumber := pageNumberOf pageaddr
  let cellnumber := pagenumber / cellBits
  let celloffset := pagenumber % cellBits
  let cellmask := 1#32 <<< celloffset
  { m with
    cells := Function.update m.cells cellnumber (m.cells cellnumber ||| cellmask)
    pagesFree := (m.pagesFree + 1) % 2 ^ 32 }

/-! ## The freemap as a set of pages -/

/-- The freemap bit of page number `n`. -/
def bit (m : PageMem) (n : Nat) : Bool := (m.cells (n / cellBits)).getLsbD (n % cellBits)

/-- The number of pages the freemap has bits for. -/
def pages (m : PageMem) : Nat := m.freemapCells * cellBits

/-- The number of set freemap bits. -/
def setBits (m : PageMem) : Nat := ((Finset.range m.pages).filter fun n => m.bit n).card

/-- The address of page number `n`. -/
def pageAddr (n : Nat) : Nat := allocMemoryStart + pageSize * n

/-- The page at `pageaddr` does not meet the freemap array. -/
def ClearOfFreemap (m : PageMem) (pageaddr : Nat) : Prop :=
  ∀ c < m.freemapCells,
    ¬ (pageaddr ≤ m.freemap + 4 * c ∧ m.freemap + 4 * c < pageaddr + pageSize)

end PageMem

/-! ## Clients -/

/-- The allocator and the addresses its clients hold. -/
structure PageRun where
  mem  : PageMem
  held : List Nat

/-- A call that returns a page, or the return of a held page. A page is
zero-filled only when it does not overlap the freemap array. -/
inductive PageStep : PageRun → PageRun → Prop
  | alloc {r : PageRun} {zeroit : Bool} {p : Nat} {m : PageMem} :
      r.mem.memoryAllocPage zeroit = .done (p, m) → p ≠ 0 →
      (zeroit = true → r.mem.ClearOfFreemap p) →
      PageStep r ⟨m, p :: r.held⟩
  | free {r : PageRun} {p : Nat} :
      p ∈ r.held → PageStep r ⟨r.mem.memoryFreePage p, r.held.erase p⟩

/-- All runs from the allocator state `m₀` with no page held. -/
def pageSystem (m₀ : PageMem) : System PageRun where
  init r := r = ⟨m₀, []⟩
  step := PageStep

end Hexos
