import Hexos.Lib.Bits
import Hexos.Lib.Memory
import Hexos.Lib.Outcome

/-!
# HexOS — the identity map

`paging_init` of `kernel/kernel/mem.c`: a page directory and three page tables,
each in a page from `memory_alloc_page`, whose entries are filled in through
packed bit fields. `memory_alloc_page` is a parameter here, with its contract as
a hypothesis.

## Results

* `fillTable_spec` — the loop over one page table.
* `PageSource.pagingInit_returns` — `paging_init` returns.
* `PageSource.pagingInit_built` — what `paging_init` leaves in memory.
* `IdentityMap.walk_low`, `IdentityMap.walk_high` — the walk through it.
-/

namespace Hexos

-- ---------------------------------------------------------------------------
-- Entries
-- ---------------------------------------------------------------------------

/-- The widths of the fields of `pagetable_entry_t`: present, read_write,
usermode_access, writethrough, cache_disabled, accessed, dirty, reserved, global,
extra, address. -/
def pagetableEntry : List Nat := [1, 1, 1, 1, 1, 1, 1, 1, 1, 3, 20]

/-- The widths of the fields of `pagedirectory_entry_t`: present, read_write,
usermode_access, writethrough, cache_disabled, accessed, reserved, page_size,
reserved2, extra, address. -/
def pagedirectoryEntry : List Nat := [1, 1, 1, 1, 1, 1, 1, 1, 1, 3, 20]

/-- `present`, in an entry of either kind. -/
def fieldPresent (entry : List Nat) : BitField := .nth entry 0

/-- `read_write`. -/
def fieldReadWrite (entry : List Nat) : BitField := .nth entry 1

/-- `address`. -/
def fieldAddress (entry : List Nat) : BitField := .nth entry 10

/-- The assignment of `v` to a bit field of the entry at `a`. -/
def setField (m : Mem) (a : Nat) (f : BitField) (v : Nat) : Mem :=
  m.store32 a (f.set (m.load32 a) v)

-- ---------------------------------------------------------------------------
-- `paging_init`
-- ---------------------------------------------------------------------------

/-- One round of the loop over the entries of a page table. -/
def fillEntry (m : Mem) (pagetable dirI tableI : Nat) : Mem :=
  let tableEntry := pagetable + 4 * tableI
  let m := setField m tableEntry (fieldPresent pagetableEntry) 1
  let m := setField m tableEntry (fieldReadWrite pagetableEntry) 1
  setField m tableEntry (fieldAddress pagetableEntry)
    ((0x400000 * dirI + 4096 * tableI) % 2 ^ 32 / 2 ^ 12)

/-- The loop over the entries of a page table: `k` rounds from `tableI` on. -/
def fillTable (m : Mem) (pagetable dirI : Nat) : Nat → Nat → Mem
  | 0, _ => m
  | k + 1, tableI => fillTable (fillEntry m pagetable dirI tableI) pagetable dirI k (tableI + 1)

section

variable {A : Type} (alloc : A → Mem → Outcome (Nat × A × Mem))

/-- The loop over the entries of the directory: `k` rounds from `dirI` on.
`alloc` is `memory_alloc_page(1)`, with its own variables in `A`. -/
def fillDirectory (pagedir : Nat) : Nat → Nat → A → Mem → Outcome (A × Mem)
  | 0, _, s, m => .done (s, m)
  | k + 1, dirI, s, m =>
    let dirEntry := pagedir + 4 * dirI
    let m := setField m dirEntry (fieldPresent pagedirectoryEntry) 1
    let m := setField m dirEntry (fieldReadWrite pagedirectoryEntry) 1
    (alloc s m).bind fun r =>
      let pagetable := r.1
      let m := fillTable r.2.2 pagetable dirI 1024 0
      let m := setField m dirEntry (fieldAddress pagedirectoryEntry) (pagetable / 2 ^ 12)
      fillDirectory pagedir k (dirI + 1) r.2.1 m

/-- `paging_init`; the address returned is the one that
`paging_load_directory` puts into `cr3`. -/
def pagingInit (s : A) (m : Mem) : Outcome (Nat × A × Mem) :=
  (alloc s m).bind fun r =>
    (fillDirectory alloc r.1 3 0 r.2.1 r.2.2).map fun t => (r.1, t)

end

-- ---------------------------------------------------------------------------
-- The walk
-- ---------------------------------------------------------------------------

/-- The two-level walk of the i386: the physical address and whether it is
writable, or `none` at an entry that is not present. -/
def walk (m : Mem) (cr3 va : Nat) : Option (Nat × Bool) :=
  let dirEntry := m.load32 (cr3 + 4 * (va / 2 ^ 22))
  if (fieldPresent pagedirectoryEntry).get dirEntry = 0 then none
  else
    let table := (fieldAddress pagedirectoryEntry).get dirEntry * 2 ^ 12
    let tableEntry := m.load32 (table + 4 * (va / 2 ^ 12 % 1024))
    if (fieldPresent pagetableEntry).get tableEntry = 0 then none
    else
      some ((fieldAddress pagetableEntry).get tableEntry * 2 ^ 12 + va % 2 ^ 12,
        (fieldReadWrite pagedirectoryEntry).get dirEntry ≠ 0 &&
          (fieldReadWrite pagetableEntry).get tableEntry ≠ 0)

/-- The entry at `a` is present and writable and holds the address `v`. -/
structure EntryAt (entry : List Nat) (m : Mem) (a v : Nat) : Prop where
  present   : (fieldPresent entry).get (m.load32 a) = 1
  readWrite : (fieldReadWrite entry).get (m.load32 a) = 1
  address   : (fieldAddress entry).get (m.load32 a) = v

/-- The directory at `pagedir` has the page tables `table 0`, ..., `table (k-1)`
in its first entries, filled with the identity map, and nothing in the others. -/
structure IdentityMap (m : Mem) (pagedir k : Nat) (table : Nat → Nat) : Prop where
  entry : ∀ d < k, EntryAt pagedirectoryEntry m (pagedir + 4 * d) (table d / 2 ^ 12)
  page  : ∀ d < k, ∀ t < 1024, EntryAt pagetableEntry m (table d + 4 * t) (1024 * d + t)
  rest  : ∀ d, k ≤ d → d < 1024 → m.load32 (pagedir + 4 * d) = 0

/-- The frame number that the identity map holds for an address. -/
theorem frame_add_offset (va : Nat) :
    (1024 * (va / 2 ^ 22) + va / 2 ^ 12 % 1024) * 2 ^ 12 + va % 2 ^ 12 = va := by
  omega

/-- An address below `k` page tables is mapped to itself, writable. -/
theorem IdentityMap.walk_low {m : Mem} {pagedir k va : Nat} {table : Nat → Nat}
    (h : IdentityMap m pagedir k table) (hAligned : ∀ d < k, table d % 4096 = 0)
    (hva : va < k * 2 ^ 22) : walk m pagedir va = some (va, true) := by
  have hd : va / 2 ^ 22 < k := by omega
  have hDir := h.entry _ hd
  have hPage := h.page _ hd (va / 2 ^ 12 % 1024) (by omega)
  have hTable : table (va / 2 ^ 22) / 2 ^ 12 * 2 ^ 12 = table (va / 2 ^ 22) := by
    have := hAligned _ hd
    omega
  simp only [walk, hDir.present, hDir.address, hDir.readWrite, hTable, hPage.present, hPage.address,
    hPage.readWrite, frame_add_offset]
  rfl

/-- An address above them is not mapped. -/
theorem IdentityMap.walk_high {m : Mem} {pagedir k va : Nat} {table : Nat → Nat}
    (h : IdentityMap m pagedir k table) (hLow : k * 2 ^ 22 ≤ va) (hva : va < 2 ^ 32) :
    walk m pagedir va = none := by
  rw [walk, if_pos]
  rw [h.rest _ (by omega) (by omega), BitField.get_zero]

-- ---------------------------------------------------------------------------
-- Filling entries
-- ---------------------------------------------------------------------------

variable {m m' : Mem} {a v : Nat}

theorem setField_sameOff (m : Mem) (a : Nat) (f : BitField) (v : Nat) :
    Mem.SameOff m (setField m a f v) a 4 :=
  Mem.store32_sameOff m a _

theorem load32_setField {f : BitField} (hf : f.offset + f.width ≤ 32) :
    (setField m a f v).load32 a = f.set (m.load32 a) v :=
  Mem.load32_store32 (BitField.set_lt (Mem.load32_lt m a) hf)

/-- The word of an entry after the three assignments to it. -/
theorem EntryAt.of_word {entry : List Nat} (hEntry : entry = [1, 1, 1, 1, 1, 1, 1, 1, 1, 3, 20])
    (hv : v < 2 ^ 20) {w : Nat}
    (h : m.load32 a =
      (fieldAddress entry).set ((fieldReadWrite entry).set ((fieldPresent entry).set w 1) 1) v) :
    EntryAt entry m a v := by
  subst hEntry
  refine ⟨?_, ?_, ?_⟩
  · rw [h, BitField.get_set_other (by decide), BitField.get_set_other (by decide),
      BitField.get_set]
    rfl
  · rw [h, BitField.get_set_other (by decide), BitField.get_set]
    rfl
  · rw [h, BitField.get_set]
    exact Nat.mod_eq_of_lt hv

theorem EntryAt.congr {entry : List Nat} (h : EntryAt entry m a v)
    (hWord : m'.load32 a = m.load32 a) :
    EntryAt entry m' a v := by
  refine ⟨?_, ?_, ?_⟩
  · rw [hWord, h.present]
  · rw [hWord, h.readWrite]
  · rw [hWord, h.address]

/-- The map depends on the pages of the directory and of the tables only. -/
theorem IdentityMap.congr {pagedir k : Nat} {table : Nat → Nat}
    (h : IdentityMap m pagedir k table) (hDirectory : Mem.SameOn m m' pagedir 4096)
    (hTable : ∀ d < k, Mem.SameOn m m' (table d) 4096) (hk : k ≤ 1024) :
    IdentityMap m' pagedir k table := by
  refine ⟨?_, ?_, ?_⟩
  · intro d hd
    exact (h.entry d hd).congr (hDirectory.sub (by omega) (by omega)).load32
  · intro d hd t ht
    exact (h.page d hd t ht).congr ((hTable d hd).sub (by omega) (by omega)).load32
  · intro d hd hLt
    rw [(hDirectory.sub (by omega) (by omega)).load32]
    exact h.rest d hd hLt

/-- One more page table: its entry and its page are new, and the words of the map so
far are as they were. -/
theorem IdentityMap.extend {pagedir k p : Nat} {table : Nat → Nat}
    (h : IdentityMap m pagedir k table) (hk : k < 1024)
    (hEntry : EntryAt pagedirectoryEntry m' (pagedir + 4 * k) (p / 2 ^ 12))
    (hPage : ∀ t < 1024, EntryAt pagetableEntry m' (p + 4 * t) (1024 * k + t))
    (hDirectory : ∀ d < 1024, d ≠ k →
      m'.load32 (pagedir + 4 * d) = m.load32 (pagedir + 4 * d))
    (hTable : ∀ d < k, ∀ t < 1024, m'.load32 (table d + 4 * t) = m.load32 (table d + 4 * t)) :
    IdentityMap m' pagedir (k + 1) (Function.update table k p) := by
  refine ⟨?_, ?_, ?_⟩
  · intro d hd
    by_cases hdk : d = k
    · subst hdk
      rw [Function.update_self]
      exact hEntry
    · rw [Function.update_of_ne hdk]
      exact (h.entry d (by omega)).congr (hDirectory d (by omega) hdk)
  · intro d hd t ht
    by_cases hdk : d = k
    · subst hdk
      rw [Function.update_self]
      exact hPage t ht
    · rw [Function.update_of_ne hdk]
      exact (h.page d (by omega) t ht).congr (hTable d (by omega) t ht)
  · intro d hd hLt
    rw [hDirectory d hLt (by omega)]
    exact h.rest d (by omega) hLt

/-- One round of the inner loop. -/
theorem fillEntry_spec (m : Mem) (pagetable : Nat) {dirI tableI : Nat} (hd : dirI < 1024)
    (ht : tableI < 1024) :
    EntryAt pagetableEntry (fillEntry m pagetable dirI tableI) (pagetable + 4 * tableI)
        (1024 * dirI + tableI) ∧
      Mem.SameOff m (fillEntry m pagetable dirI tableI) (pagetable + 4 * tableI) 4 := by
  constructor
  · refine .of_word (w := m.load32 (pagetable + 4 * tableI)) rfl (by omega) ?_
    have hFrame : (0x400000 * dirI + 4096 * tableI) % 2 ^ 32 / 2 ^ 12 = 1024 * dirI + tableI := by
      omega
    rw [fillEntry, hFrame]
    rw [load32_setField (by decide), load32_setField (by decide), load32_setField (by decide)]
  · exact ((setField_sameOff _ _ _ _).trans (setField_sameOff _ _ _ _)).trans
      (setField_sameOff _ _ _ _)

/-- **Loop lemma.** The entries of the rounds done are filled in, and nothing
else is changed. -/
theorem fillTable_spec (m : Mem) (pagetable : Nat) {dirI k : Nat} (tableI : Nat) (hd : dirI < 1024)
    (hk : tableI + k ≤ 1024) :
    (∀ t, tableI ≤ t → t < tableI + k →
        EntryAt pagetableEntry (fillTable m pagetable dirI k tableI) (pagetable + 4 * t)
          (1024 * dirI + t)) ∧
      Mem.SameOff m (fillTable m pagetable dirI k tableI) (pagetable + 4 * tableI) (4 * k) := by
  induction k generalizing m tableI with
  | zero => exact ⟨by omega, Mem.SameOff.refl _ _ _⟩
  | succ k ih =>
    obtain ⟨hEntry, hOff⟩ := fillEntry_spec m pagetable hd (show tableI < 1024 by omega)
    obtain ⟨hRest, hRestOff⟩ := ih (fillEntry m pagetable dirI tableI) (tableI + 1) (by omega)
    rw [fillTable]
    refine ⟨?_, ?_⟩
    · intro t ht hlt
      by_cases htt : t = tableI
      · -- the later rounds leave this entry alone
        subst htt
        exact hEntry.congr (hRestOff.sameOn (by omega)).load32
      · exact hRest t (by omega) (by omega)
    · exact (hOff.sub (by omega) (by omega)).trans (hRestOff.sub (by omega) (by omega))

-- ---------------------------------------------------------------------------
-- The directory
-- ---------------------------------------------------------------------------

section

variable {A : Type} {alloc : A → Mem → Outcome (Nat × A × Mem)}
  {Owns : A → Mem → List Nat → Prop}

/-- The contract of `memory_alloc_page(1)`. `Owns s m held` says that the pages
`held` have been handed out; a call then returns a zero-filled page that is not
one of them and leaves them alone, and writing to them does not disturb the
allocator. -/
structure PageSource (alloc : A → Mem → Outcome (Nat × A × Mem))
    (Owns : A → Mem → List Nat → Prop) : Prop where
  page  : ∀ {s s' m m' held p}, Owns s m held → alloc s m = .done (p, s', m') →
            p % 4096 = 0 ∧ p + 4096 ≤ 2 ^ 32 ∧ p ∉ held ∧
            (∀ k < 4096, m' (p + k) = 0) ∧
            (∀ q ∈ held, Mem.SameOn m m' q 4096) ∧ Owns s' m' (p :: held)
  frame : ∀ {s m m' held}, Owns s m held →
            (∀ i, (∀ q ∈ held, i < q ∨ q + 4096 ≤ i) → m' i = m i) → Owns s m' held

/-- What every call keeps of the allocator's own state may be added to what is owned. -/
theorem PageSource.keeping (hSource : PageSource alloc Owns) (Keep : A → Prop)
    (hKeep : ∀ {s s' m m' p}, alloc s m = .done (p, s', m') → Keep s → Keep s') :
    PageSource alloc fun s m held => Owns s m held ∧ Keep s where
  page := by
    intro s s' m m' held p h hAlloc
    obtain ⟨hAligned, hBound, hNew, hZero, hSame, hOwns⟩ := hSource.page h.1 hAlloc
    exact ⟨hAligned, hBound, hNew, hZero, hSame, hOwns, hKeep hAlloc h.2⟩
  frame := fun h hSame => ⟨hSource.frame h.1 hSame, h.2⟩

/-- What holds between two rounds of the outer loop: the pages of the directory
and of the tables are among those handed out since `paging_init` began. -/
structure Building (Owns : A → Mem → List Nat → Prop) (s : A) (m : Mem) (held : List Nat)
    (pagedir k : Nat) (table : Nat → Nat) (pages : List Nat) : Prop where
  map       : IdentityMap m pagedir k table
  owns      : Owns s m (pages ++ held)
  directory : pagedir ∈ pages
  tables    : ∀ d < k, table d ∈ pages ∧ table d ≠ pagedir
  aligned   : ∀ p ∈ pages, p % 4096 = 0

variable {s s' : A} {held pages : List Nat} {pagedir k : Nat} {table : Nat → Nat}

/-- The memory before the call of `memory_alloc_page` in a round of the outer
loop. -/
def roundBefore (m : Mem) (pagedir k : Nat) : Mem :=
  setField (setField m (pagedir + 4 * k) (fieldPresent pagedirectoryEntry) 1) (pagedir + 4 * k)
    (fieldReadWrite pagedirectoryEntry) 1

/-- The memory at the end of the round, from that after the call. -/
def roundAfter (m : Mem) (pagedir k p : Nat) : Mem :=
  setField (fillTable m p k 1024 0) (pagedir + 4 * k) (fieldAddress pagedirectoryEntry) (p / 2 ^ 12)

theorem roundBefore_sameOff (m : Mem) (pagedir k : Nat) :
    Mem.SameOff m (roundBefore m pagedir k) (pagedir + 4 * k) 4 :=
  (setField_sameOff _ _ _ _).trans (setField_sameOff _ _ _ _)

theorem fillDirectory_succ (alloc : A → Mem → Outcome (Nat × A × Mem))
    (pagedir n k : Nat) (s : A) (m : Mem) :
    fillDirectory alloc pagedir (n + 1) k s m = (alloc s (roundBefore m pagedir k)).bind fun r =>
      fillDirectory alloc pagedir n (k + 1) r.2.1 (roundAfter r.2.2 pagedir k r.1) := rfl

/-- What the assignments of a round do, given what the call does. -/
theorem round_words {p : Nat} (hk : k < 1024)
    (hApart : pagedir + 4096 ≤ p ∨ p + 4096 ≤ pagedir) (hp : p < 2 ^ 32)
    (hKeep : Mem.SameOn (roundBefore m pagedir k) m' pagedir 4096) :
    EntryAt pagedirectoryEntry (roundAfter m' pagedir k p) (pagedir + 4 * k) (p / 2 ^ 12) ∧
      (∀ t < 1024, EntryAt pagetableEntry (roundAfter m' pagedir k p) (p + 4 * t)
        (1024 * k + t)) ∧
      ∀ q, Mem.SameOn (roundBefore m pagedir k) m' q 4096 → q + 4096 ≤ p ∨
        p + 4096 ≤ q →
        ∀ x, q ≤ x → x + 4 ≤ q + 4096 →
          (x + 4 ≤ pagedir + 4 * k ∨ pagedir + 4 * k + 4 ≤ x) →
          (roundAfter m' pagedir k p).load32 x = m.load32 x := by
  obtain ⟨hEntries, hTable⟩ := fillTable_spec m' p (k := 1024) 0 hk
    (by omega)
  have hLast := setField_sameOff (fillTable m' p k 1024 0) (pagedir + 4 * k)
    (fieldAddress pagedirectoryEntry) (p / 2 ^ 12)
  refine ⟨?_, ?_, ?_⟩
  · refine .of_word (w := m.load32 (pagedir + 4 * k)) rfl (by omega) ?_
    have hSame :
        Mem.SameOn (roundBefore m pagedir k) (fillTable m' p k 1024 0) (pagedir + 4 * k) 4 :=
      (hKeep.sub (by omega) (by omega)).trans (hTable.sameOn (by omega))
    rw [roundAfter, load32_setField (by decide), hSame.load32, roundBefore,
      load32_setField (by decide), load32_setField (by decide)]
  · intro t ht
    exact (hEntries t (by omega) (by omega)).congr (hLast.sameOn (by omega)).load32
  · intro q hq hqp x hx hxq hEntry
    have hSame₁ := (roundBefore_sameOff m pagedir k).sameOn (k := x) (l := 4) (by omega)
    have hSame₂ := hq.sub hx hxq
    have hSame₃ := hTable.sameOn (k := x) (l := 4) (by omega)
    have hSame₄ := hLast.sameOn (k := x) (l := 4) (by omega)
    exact (((hSame₁.trans hSame₂).trans hSame₃).trans hSame₄).load32

/-- The assignments before the call are to the directory, which is handed out ... -/
theorem Building.owns_before (hSource : PageSource alloc Owns)
    (h : Building Owns s m held pagedir k table pages) (hk : k < 1024) :
    Owns s (roundBefore m pagedir k) (pages ++ held) := by
  refine hSource.frame h.owns fun i hi => roundBefore_sameOff m pagedir k i ?_
  have := hi pagedir (List.mem_append_left _ h.directory)
  omega

/-- ... and those after it to the directory and to the new table. -/
theorem PageSource.owns_after (hSource : PageSource alloc Owns) {p : Nat} (hOwns : Owns s m held)
    (hDirectory : pagedir ∈ held) (hTable : p ∈ held) (hk : k < 1024) :
    Owns s (roundAfter m pagedir k p) held := by
  refine hSource.frame hOwns ?_
  intro i hi
  have hPage := hi p hTable
  have hDir := hi pagedir hDirectory
  have hLast := setField_sameOff (fillTable m p k 1024 0) (pagedir + 4 * k)
    (fieldAddress pagedirectoryEntry) (p / 2 ^ 12) i (by omega)
  have hFill := (fillTable_spec m p (k := 1024) 0 hk (by omega)).2 i (by omega)
  exact hLast.trans hFill

/-- **Step lemma.** One round of the outer loop. -/
theorem Building.round (hSource : PageSource alloc Owns)
    (h : Building Owns s m held pagedir k table pages) (hk : k < 1024) {p : Nat}
    (hAlloc : alloc s (roundBefore m pagedir k) = .done (p, s', m')) :
    Building Owns s' (roundAfter m' pagedir k p) held pagedir (k + 1) (Function.update table k p)
      (p :: pages) := by
  have hDirHeld : pagedir ∈ pages ++ held := List.mem_append_left _ h.directory
  obtain ⟨hAligned, hBound, hNew, -, hKeep, hOwns'⟩ :=
    hSource.page (h.owns_before hSource hk) hAlloc
  have hApart : ∀ q ∈ pages, q + 4096 ≤ p ∨ p + 4096 ≤ q := by
    intro q hq
    have hne : q ≠ p := by
      rintro rfl
      exact hNew (List.mem_append_left _ hq)
    have := h.aligned q hq
    omega
  have hDirApart := hApart pagedir h.directory
  obtain ⟨hEntry, hTable, hOld⟩ := round_words hk hDirApart (by omega) (hKeep pagedir hDirHeld)
  have hOldWord : ∀ q ∈ pages, ∀ x, q ≤ x → x + 4 ≤ q + 4096 →
      (x + 4 ≤ pagedir + 4 * k ∨ pagedir + 4 * k + 4 ≤ x) →
      (roundAfter m' pagedir k p).load32 x = m.load32 x :=
    fun q hq => hOld q (hKeep q (List.mem_append_left _ hq)) (hApart q hq)
  refine ⟨?_, ?_, ?_, ?_, ?_⟩
  · refine h.map.extend hk hEntry hTable ?_ ?_
    · intro d hd hdk
      exact hOldWord pagedir h.directory _ (by omega) (by omega) (by omega)
    · intro d hd t ht
      obtain ⟨hMem, hne⟩ := h.tables d hd
      have hTableAligned := h.aligned _ hMem
      have hDirAligned := h.aligned _ h.directory
      exact hOldWord _ hMem _ (by omega) (by omega) (by omega)
  · exact hSource.owns_after hOwns' (List.mem_cons_of_mem _ hDirHeld) List.mem_cons_self hk
  · exact List.mem_cons_of_mem _ h.directory
  · intro d hd
    by_cases hdk : d = k
    · subst hdk
      rw [Function.update_self]
      exact ⟨List.mem_cons_self, by omega⟩
    · rw [Function.update_of_ne hdk]
      obtain ⟨hMem, hne⟩ := h.tables d (by omega)
      exact ⟨List.mem_cons_of_mem _ hMem, hne⟩
  · intro q hq
    rcases List.mem_cons.mp hq with rfl | hq
    · exact hAligned
    · exact h.aligned q hq

/-- **Loop lemma.** The rounds of the outer loop. -/
theorem Building.fillDirectory (hSource : PageSource alloc Owns) {n : Nat}
    (h : Building Owns s m held pagedir k table pages) (hn : k + n ≤ 1024)
    (hRun : fillDirectory alloc pagedir n k s m = .done (s', m')) :
    ∃ table' pages', Building Owns s' m' held pagedir (k + n) table' pages' := by
  induction n generalizing s m k table pages with
  | zero =>
    obtain ⟨rfl, rfl⟩ : s = s' ∧ m = m' := by simpa [Hexos.fillDirectory] using hRun
    exact ⟨table, pages, h⟩
  | succ n ih =>
    rw [fillDirectory_succ] at hRun
    obtain ⟨⟨p, s₁, m₁⟩, hAlloc, hRest⟩ := Outcome.bind_eq_done.mp hRun
    have hRound := h.round hSource (by omega) hAlloc
    obtain ⟨table', pages', hBuilt⟩ := ih hRound (by omega) hRest
    exact ⟨table', pages', by rwa [show k + (n + 1) = k + 1 + n by omega]⟩

/-- **Progress.** They end when the pages do not run out. -/
theorem Building.fillDirectory_returns (hSource : PageSource alloc Owns) {n bound : Nat}
    (hSupply : ∀ s m held, Owns s m held → held.length < bound → ∃ r, alloc s m = .done r)
    (h : Building Owns s m held pagedir k table pages) (hn : k + n ≤ 1024)
    (hBound : pages.length + held.length + n ≤ bound) :
    ∃ r, Hexos.fillDirectory alloc pagedir n k s m = .done r := by
  induction n generalizing s m k table pages with
  | zero => exact ⟨_, rfl⟩
  | succ n ih =>
    obtain ⟨⟨p, s₁, m₁⟩, hAlloc⟩ := hSupply _ _ _ (h.owns_before hSource (by omega))
      (by rw [List.length_append]; omega)
    have hRound := h.round hSource (by omega) hAlloc
    obtain ⟨r, hRest⟩ := ih hRound (by omega) (by rw [List.length_cons]; omega)
    refine ⟨r, ?_⟩
    rw [fillDirectory_succ, hAlloc, Outcome.bind_done]
    exact hRest

/-- The directory page as it comes from the allocator. -/
theorem PageSource.building_zero (hSource : PageSource alloc Owns) (table : Nat → Nat)
    (hOwns : Owns s m held)
    (hAlloc : alloc s m = .done (pagedir, s', m')) :
    Building Owns s' m' held pagedir 0 table [pagedir] := by
  obtain ⟨hAligned, -, -, hZero, -, hOwns'⟩ := hSource.page hOwns hAlloc
  refine ⟨⟨by omega, by omega, ?_⟩, hOwns', List.mem_singleton_self _, by omega, ?_⟩
  · intro d _ hd
    have hByte : ∀ i < 4, m' (pagedir + 4 * d + i) = 0 := by
      intro i hi
      rw [Nat.add_assoc]
      exact hZero _ (by omega)
    have h0 := hByte 0 (by omega)
    rw [Nat.add_zero] at h0
    rw [Mem.load32, h0, hByte 1 (by omega), hByte 2 (by omega), hByte 3 (by omega)]
    rfl
  · intro q hq
    rw [List.mem_singleton.mp hq]
    exact hAligned

/-- **Progress.** `paging_init` returns when the allocator has four pages. -/
theorem PageSource.pagingInit_returns (hSource : PageSource alloc Owns) (bound : Nat)
    (hSupply : ∀ s m held, Owns s m held → held.length < bound → ∃ r, alloc s m = .done r)
    (hOwns : Owns s m held) (hBound : held.length + 4 ≤ bound) :
    ∃ pagedir s' m', pagingInit alloc s m = .done (pagedir, s', m') := by
  obtain ⟨⟨pagedir, s₁, m₁⟩, hAlloc⟩ := hSupply s m held hOwns (by omega)
  have hZero := hSource.building_zero (fun _ => 0) hOwns hAlloc
  obtain ⟨⟨s₂, m₂⟩, hFill⟩ :=
    hZero.fillDirectory_returns hSource hSupply (n := 3) (by omega)
    (by rw [List.length_singleton]; omega)
  refine ⟨pagedir, s₂, m₂, ?_⟩
  rw [pagingInit, hAlloc, Outcome.bind_done, hFill, Outcome.map_done]

/-- **What `paging_init` leaves.** A directory with three page tables that map
the first 12 MiB to themselves. -/
theorem PageSource.pagingInit_built (hSource : PageSource alloc Owns) (hOwns : Owns s m held)
    (hRun : pagingInit alloc s m = .done (pagedir, s', m')) :
    ∃ table pages, Building Owns s' m' held pagedir 3 table pages := by
  obtain ⟨⟨p, s₁, m₁⟩, hAlloc, hFill⟩ := Outcome.bind_eq_done.mp hRun
  obtain ⟨⟨s₂, m₂⟩, hDirectory, hEq⟩ := Outcome.map_eq_done.mp hFill
  obtain ⟨rfl, rfl, rfl⟩ : p = pagedir ∧ s₂ = s' ∧ m₂ = m' := by simpa using hEq
  have hZero := hSource.building_zero (fun _ => 0) hOwns hAlloc
  exact hZero.fillDirectory hSource (by omega) hDirectory

end

end Hexos
