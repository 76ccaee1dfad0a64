import Hexos.Fs.Format
import Hexos.Heap.Totality

/-!
# HexOS — volumes on a small machine

Addresses for the globals and the callbacks, disks of a few sectors, and the shell
that `kernel_main` leaves on such a machine: the heap of `main_heap_init` on 32 free
pages, and the disk mounted.

## Results

* `sampleShell_mounted` — what is in memory on that machine.
* `treeVolume` — a disk with the directories `D` and `D/E`.
-/

namespace Hexos

open Mem

-- ---------------------------------------------------------------------------
-- The machine
-- ---------------------------------------------------------------------------

/-- Addresses as a linker might choose them, with one disk. -/
def sampleEnv (disk : Nat → Mem) : Env where
  fsRoot := 0x1000
  fsMnt := 0x2000
  fsCdromMnt := 0x3000
  iso9660Resp := 0x4000
  rootReaddir := 0x5010
  rootFinddir := 0x5020
  rootRecreate := 0x5030
  rootFreeNode := 0x5040
  iso9660Read := 0x5050
  iso9660Write := 0x5060
  iso9660Open := 0x5070
  iso9660Close := 0x5080
  iso9660Readdir := 0x5090
  iso9660Finddir := 0x50A0
  iso9660Recreate := 0x50B0
  iso9660FreeNode := 0x50C0
  devices := fun _ => disk
  globals_ne_null := by decide
  nodes_apart := by decide
  words := by decide
  functions_ne := by decide

/-- The shell after `main_heap_init` and the mount of a disk. -/
def sampleShell (disk : Nat → Mem) : Option Shell :=
  (mainHeapInit (fun _ => 0) samplePages).toOption.bind fun (heap, _) =>
    (mountCdrom (sampleEnv disk) 600 ⟨heap, fun _ => 0⟩ 1).toOption

theorem sampleShell_done {disk : Nat → Mem} {sh : Shell} (h : sampleShell disk = some sh) :
    ∃ heap m', mainHeapInit (fun _ => 0) samplePages = .done (heap, m') ∧
      mountCdrom (sampleEnv disk) 600 ⟨heap, fun _ => 0⟩ 1 = .done sh := by
  obtain ⟨⟨heap, m'⟩, hInit, hMount⟩ := Option.bind_eq_some_iff.mp h
  exact ⟨heap, m', Outcome.toOption_eq_some.mp hInit, Outcome.toOption_eq_some.mp hMount⟩

/-- The pages of the heap lie above the globals. -/
theorem samplePages_low {heap : KernelHeap} {m' : PageMem}
    (h : mainHeapInit (fun _ => 0) samplePages = .done (heap, m')) :
    ∀ addr ∈ heap.map (·.addr), 0x10000 ≤ addr := by
  have hEval : (mainHeapInit (fun _ => 0) samplePages).toOption.map
      (fun p => decide (∀ addr ∈ p.1.map (·.addr), 0x10000 ≤ addr)) = some true := by
      decide +kernel
  rw [h] at hEval
  simpa [Outcome.toOption] using hEval

theorem samplePages_apart {disk : Nat → Mem} {heap : KernelHeap} {m' : PageMem}
    (h : mainHeapInit (fun _ => 0) samplePages = .done (heap, m')) :
    GlobalsApart (sampleEnv disk) (heap.map (·.addr)) := by
  intro addr hAddr g hg
  have := samplePages_low h addr hAddr
  simp only [sampleEnv, List.mem_cons, List.not_mem_nil, or_false] at hg
  omega

/-- The mounted disk: no allocations but those of the mount. -/
theorem sampleShell_mounted {disk : Nat → Mem} {sh : Shell} (h : sampleShell disk = some sh) :
    ∃ fsInfo buffer2, sh.currentDir = 0x1000 ∧
      sh.machine.Inv [⟨buffer2, 2048⟩, ⟨fsInfo, 16⟩] ∧
      (∀ addr ∈ sh.machine.pages, 0x10000 ≤ addr) ∧
      GlobalsApart (sampleEnv disk) sh.machine.pages ∧
      Mounted (sampleEnv disk) sh.machine.mem 1 fsInfo := by
  obtain ⟨heap, m', hInit, hMount⟩ := sampleShell_done h
  have hInv : Machine.Inv ⟨heap, fun _ => 0⟩ [] := (mainHeapInit_init (by decide) hInit).inv
  obtain ⟨fsInfo, buffer2, hDir, hInv', hPages', hMounted⟩ :=
    mountCdrom_spec hInv (samplePages_apart hInit) (fun g _ k _ => rfl) (by omega) hMount
  rw [show Machine.pages ⟨heap, fun _ => 0⟩ = heap.map (·.addr) from rfl] at hPages'
  refine ⟨fsInfo, buffer2, hDir, hInv', ?_, ?_, hMounted⟩
  · rw [hPages']
    exact samplePages_low hInit
  · rw [hPages']
    exact samplePages_apart hInit

-- ---------------------------------------------------------------------------
-- A directory with tight records
-- ---------------------------------------------------------------------------

/-- The bytes of a directory record. -/
def DirRecord.encode (r : DirRecord) : List UInt8 :=
  let le32 (v : Nat) : List UInt8 := (List.range 4).map fun i => UInt8.ofNat (v / 256 ^ i)
  let fixed := [UInt8.ofNat r.len, 0] ++ le32 r.lba ++ le32 0 ++ le32 r.fileLength ++ le32 0 ++
    List.replicate 7 0 ++ [r.flags] ++ List.replicate 6 0 ++ [UInt8.ofNat r.ident.length] ++ r.ident
  fixed ++ List.replicate (r.len - fixed.length) 0

/-- A sector that starts with the given bytes. -/
def sectorOf (bytes : List UInt8) : Mem := fun i => bytes.getD i 0

/-- The records of a directory with the files `A` and `B`, each with nothing
behind its identifier. -/
def sampleRecords : List DirRecord :=
  [⟨34, 20, 2048, 2, [0]⟩, ⟨34, 20, 2048, 2, [1]⟩, ⟨34, 21, 10, 0, [0x41]⟩,
    ⟨34, 22, 10, 0, [0x42]⟩]

/-- The volume: sector 16 points to the path table in sector 18, whose one entry
is the root directory in sector 20. -/
def sampleDisk (lba : Nat) : Mem :=
  if lba = 16 then sectorOf (List.replicate 140 0 ++ [18])
  else if lba = 18 then sectorOf [1, 0, 20, 0, 0, 0, 1, 0, 0, 0]
  else if lba = 20 then sectorOf (sampleRecords.flatMap DirRecord.encode)
  else fun _ => 0

/-- The disk as a volume with the root directory only. -/
def sampleVolume : Volume (sampleEnv sampleDisk) 1 where
  entries := [⟨1, 20, 1⟩]
  table := by decide +kernel
  root := rfl
  lbas := by decide
  parents i e h hi := by
    obtain ⟨hlt, -⟩ := List.getElem?_eq_some_iff.mp h
    simp only [List.length_cons, List.length_nil] at hlt
    omega
  dots := by decide +kernel

-- ---------------------------------------------------------------------------
-- The directories D and D/E
-- ---------------------------------------------------------------------------

/-- The record of a directory. -/
def dirRecord (lba : Nat) (ident : UInt8) : DirRecord := ⟨34, lba, 2048, 2, [ident]⟩

/-- Sector 18 is the path table, sectors 20 to 22 are the directories. -/
def treeDisk (lba : Nat) : Mem :=
  if lba = 16 then sectorOf (List.replicate 140 0 ++ [18])
  else if lba = 18 then
    sectorOf ([1, 0, 20, 0, 0, 0, 1, 0, 0, 0] ++ [1, 0, 21, 0, 0, 0, 1, 0, 0x44, 0] ++
      [1, 0, 22, 0, 0, 0, 2, 0, 0x45, 0])
  else if lba = 20 then
    sectorOf ([dirRecord 20 0, dirRecord 20 1, dirRecord 21 0x44].flatMap DirRecord.encode)
  else if lba = 21 then
    sectorOf ([dirRecord 21 0, dirRecord 20 1, dirRecord 22 0x45].flatMap DirRecord.encode)
  else if lba = 22 then sectorOf ([dirRecord 22 0, dirRecord 21 1].flatMap DirRecord.encode)
  else fun _ => 0

/-- The path table of the disk with the directories `D` and `D/E`. -/
def treeEntries : List PathEntry := [⟨1, 20, 1⟩, ⟨1, 21, 1⟩, ⟨1, 22, 2⟩]

/-- The records of its directories behind the first two. -/
def treeRecords (lba : Nat) : List DirRecord :=
  if lba = 20 then [dirRecord 21 0x44]
  else if lba = 21 then [dirRecord 22 0x45]
  else []

theorem tree_table : PathTable (pathTableSector (sampleEnv treeDisk) 1) 0 treeEntries := by
  decide +kernel

theorem tree_lbas : (treeEntries.map PathEntry.lba).Nodup := by decide

theorem tree_parents (i : Nat) (e : PathEntry) (h : treeEntries[i]? = some e) (hi : i ≠ 0) :
    e.parentNum < i + 1 := by
  rcases i with _ | _ | _ | i
  · exact absurd rfl hi
  · obtain rfl : ⟨1, 21, 1⟩ = e := by simpa [treeEntries] using h
    decide
  · obtain rfl : ⟨1, 22, 2⟩ = e := by simpa [treeEntries] using h
    decide
  · simp [treeEntries] at h

theorem tree_dots : ∀ e ∈ treeEntries, IsDot (treeDisk e.lba) e.lba := by decide +kernel

/-- The volume on it. -/
def treeVolume : Volume (sampleEnv treeDisk) 1 where
  entries := treeEntries
  table := tree_table
  root := rfl
  lbas := tree_lbas
  parents := tree_parents
  dots := tree_dots

theorem tree_directories : ∀ e ∈ treeEntries, ∃ dot dotDot,
    IsDirectory (treeDisk e.lba) dot dotDot (treeRecords e.lba) := by
  intro e he
  simp only [treeEntries, List.mem_cons, List.not_mem_nil, or_false] at he
  rcases he with rfl | rfl | rfl
  · exact ⟨dirRecord 20 0, dirRecord 20 1, ⟨by decide +kernel, rfl, rfl, by decide⟩⟩
  · exact ⟨dirRecord 21 0, dirRecord 20 1, ⟨by decide +kernel, rfl, rfl, by decide⟩⟩
  · exact ⟨dirRecord 22 0, dirRecord 21 1, ⟨by decide +kernel, rfl, rfl, by decide⟩⟩

end Hexos
