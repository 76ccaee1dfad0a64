import Hexos.Mem.Physical
import Mathlib.Algebra.GroupWithZero.Nat

/-!
# HexOS — the walk over the memory map

The loop of `mem_check_avail` moves a pointer by the size that each record states
for itself. The addresses it visits are a list of their own, and the counters are
the body of the loop folded over that list.

## Results

* `checkEntries_eq_foldl` — the loop as a fold over the addresses it visits.
* `visitEntries_spec` — over a memory map it visits the records.
* `foldl_countEntry` — what the body does to the counters.
* `memory_map_walk_iff` — `mem_check_avail` walks a memory map of any length, unless
  the map ends where the addresses do.
* `map_at_top_not_walked` — such a map of one record.
-/

namespace Hexos

-- ---------------------------------------------------------------------------
-- The memory map
-- ---------------------------------------------------------------------------

/-- A `multiboot_memory_map_t`. -/
structure MmapEntry where
  size     : Nat
  baseAddr : Nat
  length   : Nat
  type     : Nat
  deriving DecidableEq, Repr

/-- The entry at the address `a`. -/
structure MmapEntry.At (e : MmapEntry) (m : Mem) (a : Nat) : Prop where
  size     : m.load32 a = e.size
  baseAddr : m.load32 (a + 4) + 2 ^ 32 * m.load32 (a + 8) = e.baseAddr
  length   : m.load32 (a + 12) + 2 ^ 32 * m.load32 (a + 16) = e.length
  type     : m.load32 (a + 20) = e.type

/-- The entries that follow each other from `a` to `stop`; the size of an entry
does not count its own field. -/
def MmapAt (m : Mem) (stop : Nat) : Nat → List MmapEntry → Prop
  | a, [] => a = stop
  | a, e :: es => e.At m a ∧ MmapAt m stop (a + e.size + 4) es

/-- The number of bytes in regions of type 1. -/
def usable (es : List MmapEntry) : Nat := ((es.filter fun e => e.type = 1).map (·.length)).sum

/-- The boot information at `mbInfo` gives the place of the memory map `es`, which
does not wrap. -/
structure MapInfo (m : Mem) (mbInfo : Nat) (es : List MmapEntry) : Prop where
  bound : m.load32 (mbInfo + 48) + m.load32 (mbInfo + 44) ≤ 2 ^ 32
  map   : MmapAt m (m.load32 (mbInfo + 48) + m.load32 (mbInfo + 44)) (m.load32 (mbInfo + 48)) es

/-- The boot information at `mbInfo` describes the memory map `es`, which does not
reach the last address. -/
structure BootInfo (m : Mem) (mbInfo : Nat) (es : List MmapEntry) : Prop where
  bound : m.load32 (mbInfo + 48) + m.load32 (mbInfo + 44) < 2 ^ 32
  map   : MmapAt m (m.load32 (mbInfo + 48) + m.load32 (mbInfo + 44)) (m.load32 (mbInfo + 48)) es

variable {m : Mem} {mbInfo : Nat} {es : List MmapEntry}

theorem BootInfo.mapInfo (hBoot : BootInfo m mbInfo es) : MapInfo m mbInfo es :=
  ⟨Nat.le_of_lt hBoot.bound, hBoot.map⟩

theorem MapInfo.bootInfo (hMap : MapInfo m mbInfo es)
    (hBelow : m.load32 (mbInfo + 48) + m.load32 (mbInfo + 44) ≠ 2 ^ 32) :
    BootInfo m mbInfo es :=
  ⟨lt_of_le_of_ne hMap.bound hBelow, hMap.map⟩

/-- A map that ends at `2^32` has a record. -/
theorem MapInfo.ne_nil (hMap : MapInfo m mbInfo es)
    (hTop : m.load32 (mbInfo + 48) + m.load32 (mbInfo + 44) = 2 ^ 32) : es ≠ [] := by
  rintro rfl
  have hEnd : m.load32 (mbInfo + 48) = m.load32 (mbInfo + 48) + m.load32 (mbInfo + 44) := hMap.map
  have hAddr := m.load32_lt (mbInfo + 48)
  omega

namespace MemVars

-- ---------------------------------------------------------------------------
-- The addresses visited
-- ---------------------------------------------------------------------------

/-- The addresses that the loop of `mem_check_avail` visits from `mmap` on. -/
def visitEntries (m : Mem) (stop : Nat) : Nat → Nat → Outcome (List Nat)
  | 0, _ => .running
  | fuel + 1, mmap =>
    if mmap < stop then
      (visitEntries m stop fuel ((mmap + m.load32 mmap + 4) % 2 ^ 32)).map (mmap :: ·)
    else .done []

/-- What the body of the loop does to the variables at the record `mmap`. -/
def countEntry (m : Mem) (g : MemVars) (mmap : Nat) : MemVars :=
  let length := m.load32 (mmap + 12) + 2 ^ 32 * m.load32 (mmap + 16)
  { g with
    usableMemorySize :=
      if m.load32 (mmap + 20) = 1 then (g.usableMemorySize + length) % 2 ^ 32
      else g.usableMemorySize
    totalMemorySize := (g.totalMemorySize + length) % 2 ^ 32 }

/-- **The loop as a fold.** -/
theorem checkEntries_eq_foldl (m : Mem) (stop fuel mmap : Nat) (g : MemVars) :
    checkEntries m stop fuel mmap g =
      (visitEntries m stop fuel mmap).map fun visited => visited.foldl (countEntry m) g := by
  induction fuel generalizing mmap g with
  | zero => rfl
  | succ fuel ih =>
    rw [checkEntries, visitEntries]
    by_cases hMore : mmap < stop
    · rw [if_pos hMore, if_pos hMore, Outcome.map_map]
      by_cases hType : m.load32 (mmap + 20) = 1
      · simp only [if_pos hType, ih, List.foldl_cons, countEntry]
      · simp only [if_neg hType, ih, List.foldl_cons, countEntry]
    · rw [if_neg hMore, if_neg hMore]
      rfl

-- ---------------------------------------------------------------------------
-- The walk over a map
-- ---------------------------------------------------------------------------

/-- The addresses of the records that follow each other from `a` on. -/
def entryStarts : Nat → List MmapEntry → List Nat
  | _, [] => []
  | a, e :: es => a :: entryStarts (a + e.size + 4) es

variable {stop a : Nat}

theorem mmapAt_le (h : MmapAt m stop a es) : a ≤ stop := by
  induction es generalizing a with
  | nil => exact Nat.le_of_eq h
  | cons e es ih =>
    have := ih h.2
    omega

/-- **Run lemma.** The loop visits every record once, in order, and stops. -/
theorem visitEntries_spec (h : MmapAt m stop a es) (hStop : stop < 2 ^ 32) {fuel : Nat}
    (hFuel : es.length < fuel) : visitEntries m stop fuel a = .done (entryStarts a es) := by
  induction es generalizing a fuel with
  | nil =>
    obtain ⟨fuel, rfl⟩ := Nat.exists_eq_succ_of_ne_zero (Nat.ne_of_gt hFuel)
    obtain rfl : a = stop := h
    rw [visitEntries, if_neg (Nat.lt_irrefl a)]
    rfl
  | cons e es ih =>
    obtain ⟨hAt, hNext⟩ := h
    rw [List.length_cons] at hFuel
    obtain ⟨fuel, rfl⟩ := Nat.exists_eq_succ_of_ne_zero (show fuel ≠ 0 by omega)
    -- the next record starts at `stop` at the latest, below 2^32
    have hLe := mmapAt_le hNext
    rw [visitEntries, if_pos (by omega), hAt.size, Nat.mod_eq_of_lt (by omega),
      ih hNext (by omega), Outcome.map_done]
    rfl

/-- The number of bytes in all regions. -/
def total (es : List MmapEntry) : Nat := (es.map (·.length)).sum

/-- One record. -/
theorem countEntry_at {e : MmapEntry} (h : e.At m a) (g : MemVars) :
    countEntry m g a = { g with
      usableMemorySize :=
        if e.type = 1 then (g.usableMemorySize + e.length) % 2 ^ 32 else g.usableMemorySize
      totalMemorySize := (g.totalMemorySize + e.length) % 2 ^ 32 } := by
  unfold countEntry
  simp only [h.length, h.type]

/-- **The sums.** The body over the records of a map adds the lengths up in 32 bits;
the other variables stay. -/
theorem foldl_countEntry (h : MmapAt m stop a es) {g : MemVars}
    (hUsable : g.usableMemorySize < 2 ^ 32) (hTotal : g.totalMemorySize < 2 ^ 32) :
    (entryStarts a es).foldl (countEntry m) g = { g with
      usableMemorySize := (g.usableMemorySize + usable es) % 2 ^ 32
      totalMemorySize := (g.totalMemorySize + total es) % 2 ^ 32 } := by
  induction es generalizing a g with
  | nil =>
    show g = _
    simp only [usable, total, List.filter_nil, List.map_nil, List.sum_nil, Nat.add_zero,
      Nat.mod_eq_of_lt hUsable, Nat.mod_eq_of_lt hTotal]
  | cons e es ih =>
    obtain ⟨hAt, hNext⟩ := h
    rw [entryStarts, List.foldl_cons, countEntry_at hAt]
    have hTotalCons : total (e :: es) = e.length + total es := by
      simp only [total, List.map_cons, List.sum_cons]
    by_cases hType : e.type = 1
    · have hUsableCons : usable (e :: es) = e.length + usable es := by simp [usable, hType]
      rw [ih hNext (by rw [if_pos hType]; exact Nat.mod_lt _ (by omega)) (Nat.mod_lt _ (by omega)),
        hUsableCons, hTotalCons, if_pos hType, Nat.mod_add_mod, Nat.mod_add_mod, Nat.add_assoc,
        Nat.add_assoc]
    · have hUsableCons : usable (e :: es) = usable es := by simp [usable, hType]
      rw [ih hNext (by rw [if_neg hType]; exact hUsable) (Nat.mod_lt _ (by omega)), hUsableCons,
        hTotalCons, if_neg hType, Nat.mod_add_mod, Nat.add_assoc]

/-- `mem_check_avail` ends; its loop visits every record of `es` once, in order, and the
counters are the sums of the lengths modulo `2^32`. -/
def WalksMap (m : Mem) (mbInfo : Nat) (es : List MmapEntry) (fuel : Nat) : Prop :=
  ∃ g, start.memCheckAvail m mbInfo fuel = .done g ∧
    visitEntries m ((m.load32 (mbInfo + 48) + m.load32 (mbInfo + 44)) % 2 ^ 32) fuel
      (m.load32 (mbInfo + 48)) = .done (entryStarts (m.load32 (mbInfo + 48)) es) ∧
    g = (entryStarts (m.load32 (mbInfo + 48)) es).foldl (countEntry m) start ∧
    g.usableMemorySize = usable es % 2 ^ 32 ∧ g.totalMemorySize = total es % 2 ^ 32

/-- A map that ends below the last address is walked. -/
theorem memCheckAvail_walks (hBoot : BootInfo m mbInfo es) {fuel : Nat}
    (hFuel : es.length < fuel) : WalksMap m mbInfo es fuel := by
  have hVisits := visitEntries_spec hBoot.map hBoot.bound hFuel
  rw [← Nat.mod_eq_of_lt hBoot.bound] at hVisits
  have hSums := foldl_countEntry hBoot.map (g := start) (by decide) (by decide)
  refine ⟨_, ?_, hVisits, rfl, ?_, ?_⟩
  · rw [memCheckAvail, checkEntries_eq_foldl, hVisits, Outcome.map_done]
  · rw [hSums]
    show (0 + usable es) % 2 ^ 32 = _
    rw [Nat.zero_add]
  · rw [hSums]
    show (0 + total es) % 2 ^ 32 = _
    rw [Nat.zero_add]

/-- The end address of a map that ends at `2^32` is the word 0: no pointer is below
it, and the loop does not run once. -/
theorem visitEntries_at_top
    (hTop : m.load32 (mbInfo + 48) + m.load32 (mbInfo + 44) = 2 ^ 32) {fuel : Nat}
    (hFuel : 0 < fuel) (mmap : Nat) :
    visitEntries m ((m.load32 (mbInfo + 48) + m.load32 (mbInfo + 44)) % 2 ^ 32) fuel mmap =
      .done [] := by
  obtain ⟨fuel, rfl⟩ := Nat.exists_eq_succ_of_ne_zero (Nat.ne_of_gt hFuel)
  rw [hTop, Nat.mod_self, visitEntries, if_neg (Nat.not_lt_zero mmap)]

/-- **The memory map.** Over every memory map that does not wrap, `mem_check_avail`
visits every record once, in order, and adds the lengths up, if and only if the map
does not end at `2^32`. -/
theorem memory_map_walk_iff (m : Mem) (mbInfo : Nat) (es : List MmapEntry)
    (hMap : MapInfo m mbInfo es) (fuel : Nat) (hFuel : es.length < fuel) :
    WalksMap m mbInfo es fuel ↔
      m.load32 (mbInfo + 48) + m.load32 (mbInfo + 44) ≠ 2 ^ 32 := by
  constructor
  · rintro ⟨g, -, hVisits, -⟩ hTop
    rw [visitEntries_at_top hTop (Nat.zero_lt_of_lt hFuel)] at hVisits
    have hNone : entryStarts (m.load32 (mbInfo + 48)) es = [] := (Outcome.done.inj hVisits).symm
    cases es with
    | nil => exact hMap.ne_nil hTop rfl
    | cons e es => cases hNone
  · intro hBelow
    exact memCheckAvail_walks (hMap.bootInfo hBelow) hFuel

/-- A map of two records: 512 MiB of usable memory and a record of 28 bytes for a
region of another type. -/
def twoRegions : Mem :=
  let zeroed : Mem := fun _ => 0
  let mbInfo := (zeroed.store32 0x102c 52).store32 0x1030 0x2000
  let first := ((mbInfo.store32 0x2000 20).store32 0x200c 0x20000000).store32 0x2014 1
  ((first.store32 0x2018 24).store32 0x2024 0x1000).store32 0x202c 2

/-- Both records are visited, and the first one alone is usable. -/
theorem memory_map_walk_two_regions :
    ∃ g, start.memCheckAvail twoRegions 0x1000 3 = .done g ∧
      visitEntries twoRegions 0x2034 3 0x2000 = .done [0x2000, 0x2018] ∧
      g.usableMemorySize = 0x20000000 ∧ g.totalMemorySize = 0x20001000 := by
  have hAddr : twoRegions.load32 (0x1000 + 48) = 0x2000 := by decide
  have hLength : twoRegions.load32 (0x1000 + 44) = 52 := by decide
  have hMap : MapInfo twoRegions 0x1000 [⟨20, 0, 0x20000000, 1⟩, ⟨24, 0, 0x1000, 2⟩] := by
    refine ⟨by rw [hAddr, hLength]; decide, ?_⟩
    rw [hAddr, hLength]
    exact ⟨⟨by decide, by decide, by decide, by decide⟩,
      ⟨by decide, by decide, by decide, by decide⟩, rfl⟩
  have hBelow : twoRegions.load32 (0x1000 + 48) + twoRegions.load32 (0x1000 + 44) ≠ 2 ^ 32 := by
    rw [hAddr, hLength]
    decide
  obtain ⟨g, hRun, hVisits, -, hUsable, hTotal⟩ :=
    (memory_map_walk_iff twoRegions 0x1000 _ hMap 3 (by decide)).2 hBelow
  rw [hAddr, hLength] at hVisits
  exact ⟨g, hRun, hVisits, hUsable, hTotal⟩

/-- A map of one record of 24 bytes, at the end of the addresses: 4 KiB of usable
memory. -/
def topRegion : Mem :=
  let zeroed : Mem := fun _ => 0
  let mbInfo := (zeroed.store32 0x102c 24).store32 0x1030 0xFFFFFFE8
  ((mbInfo.store32 0xFFFFFFE8 20).store32 0xFFFFFFF4 0x1000).store32 0xFFFFFFFC 1

/-- The record fills the map and does not wrap, but `mem_check_avail` returns with
both counters at 0. -/
theorem map_at_top_not_walked :
    MapInfo topRegion 0x1000 [⟨20, 0, 0x1000, 1⟩] ∧
      start.memCheckAvail topRegion 0x1000 2 = .done start ∧
      ¬ WalksMap topRegion 0x1000 [⟨20, 0, 0x1000, 1⟩] 2 := by
  have hAddr : topRegion.load32 (0x1000 + 48) = 0xFFFFFFE8 := by decide
  have hLength : topRegion.load32 (0x1000 + 44) = 24 := by decide
  have hRun : start.memCheckAvail topRegion 0x1000 2 = .done start := by
    rw [memCheckAvail, hAddr, hLength]
    rfl
  refine ⟨⟨by rw [hAddr, hLength]; decide, ?_⟩, hRun, ?_⟩
  · rw [hAddr, hLength]
    exact ⟨⟨by decide, by decide, by decide, by decide⟩, rfl⟩
  · rintro ⟨g, hRun', -, -, hUsable, -⟩
    rw [hRun] at hRun'
    obtain rfl := Outcome.done.inj hRun'
    exact absurd hUsable (by decide)

end MemVars

end Hexos
