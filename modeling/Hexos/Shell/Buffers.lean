import Hexos.Fs.Read
import Hexos.Heap.Misuse
import Hexos.Heap.Totality
import Hexos.Shell.Line
import Hexos.Shell.Services

/-!
# HexOS — the buffers of block transfers

A transfer of one block stores 2048 bytes, and nothing tells `read_block` how
large the buffer is. Here the services of the model remember the size that each
pointer was allocated with, and stop at a transfer to a buffer that is too small.

## Results

* `sized_readFs` — short of such a transfer they do what the model does.
* `sized_read_eq_panic` — `iso9660_read` transfers to the buffer it has just
  allocated.
* `block_buffer_fits_iff` — exactly when that buffer holds a block.
-/

namespace Hexos

-- ---------------------------------------------------------------------------
-- Sizes
-- ---------------------------------------------------------------------------

/-- A machine, and the size that each pointer was last allocated with. -/
structure Sized where
  machine : Machine
  sizes   : Nat → Nat

/-- The report of a transfer to a buffer that does not hold a block. -/
def smallBuffer : String := "transfer of a block to a smaller buffer"

/-- The services of the model, with a check of the buffer before each transfer. -/
def sized (env : Env) (fuel : Nat) : Services Sized where
  mem l := l.machine.mem
  setMem l m := { l with machine := { l.machine with mem := m } }
  kalloc l size := (l.machine.kalloc fuel size).map fun (ptr, s) =>
    (ptr, ⟨s, Function.update l.sizes ptr size⟩)
  kfree l ptr := (l.machine.kfree ptr).map fun s => ⟨s, Function.update l.sizes ptr 0⟩
  readBlock l dev buffer lba :=
    if l.sizes buffer < 2048 then .panic smallBuffer
    else .done { l with machine := l.machine.readBlock env dev buffer lba }

theorem sized_mem (env : Env) (fuel : Nat) (l : Sized) :
    (sized env fuel).mem l = l.machine.mem := (rfl)

theorem sized_readBlock (env : Env) (fuel : Nat) (l : Sized) (dev buffer lba : Nat) :
    (sized env fuel).readBlock l dev buffer lba =
      if l.sizes buffer < 2048 then .panic smallBuffer
      else .done { l with machine := l.machine.readBlock env dev buffer lba } := rfl

/-- The only report of `kalloc`. -/
theorem kalloc_eq_panic {fuel size : Nat} {heap : KernelHeap} {msg : String}
    (h : kalloc fuel heap size = .panic msg) : msg = outOfMemory := by
  induction heap with
  | nil => exact (Outcome.panic.inj h).symm
  | cons b bs ih =>
    rw [kalloc] at h
    simp only at h
    split at h
    · split at h
      · cases h
      · cases h
      · exact ih (Outcome.map_eq_panic.mp h)
    · exact ih (Outcome.map_eq_panic.mp h)

theorem roundToBlocks_ne_panic (fuel n : Nat) (msg : String) :
    roundToBlocks fuel n ≠ .panic msg := by
  induction fuel generalizing n with
  | zero => simp [roundToBlocks]
  | succ fuel ih =>
    rw [roundToBlocks]
    split
    · exact ih _
    · simp

section Sized

variable {env : Env} {fuel : Nat} {l : Sized}

theorem sized_kalloc_done {size ptr : Nat} {l' : Sized}
    (h : (sized env fuel).kalloc l size = .done (ptr, l')) :
    l.machine.kalloc fuel size = .done (ptr, l'.machine) ∧ l'.sizes ptr = size := by
  obtain ⟨⟨p, s⟩, hAlloc, hEq⟩ := Outcome.map_eq_done.mp h
  obtain ⟨rfl, rfl⟩ := Prod.mk.inj hEq
  exact ⟨hAlloc, Function.update_self _ _ _⟩

/-- The heap does not report small buffers. -/
theorem sized_heap_quiet (size ptr : Nat) :
    (sized env fuel).kalloc l size ≠ .panic smallBuffer ∧
      (sized env fuel).kfree l ptr ≠ .panic smallBuffer := by
  refine ⟨?_, ?_⟩
  · intro h
    have hPanic := Outcome.map_eq_panic.mp (Outcome.map_eq_panic.mp h)
    exact absurd (kalloc_eq_panic hPanic) (by decide)
  · intro h
    have hPanic := Outcome.map_eq_panic.mp (Outcome.map_eq_panic.mp h)
    rcases kfree_cases l.machine.heap ptr with ⟨hEq, -⟩ | ⟨_, _, _, -, -, hEq⟩
    · exact absurd (Outcome.panic.inj (hEq.symm.trans hPanic)) (by decide)
    · cases hEq.symm.trans hPanic

/-- `iso9660_read` transfers to the buffer that it has just allocated: it is stopped
exactly when it gets that far with a buffer of less than a block. -/
theorem sized_read_eq_panic (node offset size buffer : Nat) :
    (sized env fuel).read fuel l node offset size buffer = .panic smallBuffer ↔
      ∃ blocksize r, roundToBlocks fuel (min size (l.machine.mem.load32 (node + 276))) =
        .done blocksize ∧
        l.machine.kalloc fuel blocksize = .done r ∧ blocksize < 2048 := by
  have hClip : (if size > l.machine.mem.load32 (node + 276) then l.machine.mem.load32 (node + 276)
      else size) = min size (l.machine.mem.load32 (node + 276)) := by
    split <;> omega
  unfold Services.read
  simp only [sized_mem, hClip]
  constructor
  · intro h
    rcases Outcome.bind_eq_panic.mp h with h | ⟨blocksize, hRound, h⟩
    · exact absurd h (roundToBlocks_ne_panic _ _ _)
    rcases Outcome.bind_eq_panic.mp h with h | ⟨⟨blockbuf, l₁⟩, hAlloc, h⟩
    · exact absurd h (sized_heap_quiet blocksize 0).1
    obtain ⟨hMachine, hSize⟩ := sized_kalloc_done hAlloc
    refine ⟨blocksize, _, hRound, hMachine, ?_⟩
    by_contra hLarge
    -- a large buffer is filled, copied and freed
    rcases Outcome.bind_eq_panic.mp h with h | ⟨l₂, -, h⟩
    · rw [sized_readBlock, hSize, if_neg hLarge] at h
      cases h
    · exact absurd h (sized_heap_quiet 0 blockbuf).2
  · rintro ⟨blocksize, ⟨blockbuf, s⟩, hRound, hAlloc, hSmall⟩
    have hSized : (sized env fuel).kalloc l blocksize =
        .done (blockbuf, ⟨s, Function.update l.sizes blockbuf blocksize⟩) :=
      Outcome.map_eq_done.mpr ⟨_, hAlloc, rfl⟩
    rw [hRound, Outcome.bind_done, hSized, Outcome.bind_done]
    simp only [sized_readBlock, Function.update_self, if_pos hSmall]
    rfl

theorem sized_matches : (sized env fuel).Matches (Services.model env fuel) Sized.machine where
  mem _ := rfl
  setMem _ _ := rfl
  kalloc l size := Outcome.map_map_self (fun _ => rfl) (l.machine.kalloc fuel size)
  kfree l ptr := Outcome.map_map_self (fun _ => rfl) (l.machine.kfree ptr)

/-- Where no transfer is stopped, the read is that of the model. -/
theorem sized_read (node offset size buffer : Nat) :
    (sized env fuel).read fuel l node offset size buffer = .panic smallBuffer ∨
      ((sized env fuel).read fuel l node offset size buffer).map Sized.machine =
        iso9660Read env fuel l.machine node offset size buffer := by
  have hMatch : (sized env fuel).Matches (Services.model env fuel) Sized.machine := sized_matches
  refine or_iff_not_imp_left.mpr ?_
  intro hNot
  show _ = (Services.model env fuel).read fuel l.machine node offset size buffer
  unfold Services.read at hNot ⊢
  rw [hMatch.mem] at hNot ⊢
  simp only at hNot ⊢
  generalize (if size > ((Services.model env fuel).mem l.machine).load32 (node + 276) then
    ((Services.model env fuel).mem l.machine).load32 (node + 276) else size) = readsize at hNot ⊢
  cases hRound : roundToBlocks fuel readsize with
  | panic msg => rfl
  | running => rfl
  | done blocksize =>
    rw [hRound, Outcome.bind_done] at hNot
    rw [Outcome.bind_done, Outcome.bind_done, ← hMatch.kalloc]
    cases hAlloc : (sized env fuel).kalloc l blocksize with
    | panic msg => rfl
    | running => rfl
    | done r =>
      obtain ⟨blockbuf, l₁⟩ := r
      rw [hAlloc, Outcome.bind_done] at hNot
      simp only [Outcome.map_done, Outcome.bind_done, sized_mem, sized_readBlock] at hNot ⊢
      by_cases hSmall : l₁.sizes blockbuf < 2048
      · rw [if_pos hSmall] at hNot
        exact absurd rfl hNot
      · rw [if_neg hSmall]
        exact hMatch.kfree _ _

/-- Where no transfer is stopped, `read_fs` is that of the model. -/
theorem sized_readFs {env : ShellEnv} (node offset size buffer : Nat) :
    (sized env.toEnv fuel).readFs env fuel l node offset size buffer = .panic smallBuffer ∨
      ((sized env.toEnv fuel).readFs env fuel l node offset size buffer).map Sized.machine =
        readFs env.toEnv fuel l.machine node offset size buffer := by
  unfold Services.readFs readFs
  simp only [sized_mem]
  split
  · split
    · exact sized_read node offset size buffer
    · exact Or.inr rfl
  · exact Or.inr rfl

/-- On a node of a volume, it is `iso9660_read`. -/
theorem sized_readFs_file {env : ShellEnv} {node : Nat}
    (hRead : l.machine.mem.load32 (node + 284) = env.iso9660Read) (hNull : env.iso9660Read ≠ 0)
    (fuel offset size buffer : Nat) :
    (sized env.toEnv fuel).readFs env fuel l node offset size buffer =
      (sized env.toEnv fuel).read fuel l node offset size buffer := by
  unfold Services.readFs
  simp only [sized_mem, hRead, if_pos hNull, if_true]

/-- A clipped size of 0, or one that is rounded up to 2³², makes a buffer of no bytes. -/
theorem sized_read_stopped {node size : Nat} (hSize : size < 2 ^ 32)
    (hBad : ¬ (1 ≤ min size (l.machine.mem.load32 (node + 276)) ∧
      min size (l.machine.mem.load32 (node + 276)) ≤ 2 ^ 32 - 2048))
    (hAlloc : ∃ f r, kalloc f l.machine.heap 0 = .done r) (offset buffer : Nat) :
    ∃ fuel, (sized env fuel).read fuel l node offset size buffer = .panic smallBuffer := by
  obtain ⟨fuel, r, hAlloc⟩ := hAlloc
  refine ⟨max fuel 2048, (sized_read_eq_panic node offset size buffer).mpr ⟨0, _, ?_,
    Machine.kalloc_eq (kalloc_mono hAlloc (by simp) (le_max_left fuel 2048)) l.machine.mem,
    by omega⟩⟩
  have hMin : min size (l.machine.mem.load32 (node + 276)) < 2 ^ 32 := by omega
  generalize min size (l.machine.mem.load32 (node + 276)) = n at hMin hBad ⊢
  have hZero : (n + 2047) / 2048 * 2048 % 2 ^ 32 = 0 := by omega
  rw [roundToBlocks_eq hMin (by omega), hZero]

end Sized

-- ---------------------------------------------------------------------------
-- The transfer of a read
-- ---------------------------------------------------------------------------

/-- The block transfer that `read_fs` asks for, if it gets that far, is to a buffer
that was allocated with at least 2048 bytes. -/
def BlockBufferFits (env : ShellEnv) (l : Sized) (node offset size buffer : Nat) : Prop :=
  ∀ fuel, (sized env.toEnv fuel).readFs env fuel l node offset size buffer ≠ .panic smallBuffer

/-- **Block transfers.** Whatever the length of the node, the offset and the size: the
buffer holds a block exactly when the clipped size is neither 0 nor rounded up to 2³²,
or the heap does not serve a request of no bytes. -/
theorem block_buffer_fits_iff (env : ShellEnv) (l : Sized) (node offset size buffer : Nat)
    (hRead : l.machine.mem.load32 (node + 284) = env.iso9660Read) (hNull : env.iso9660Read ≠ 0)
    (hSize : size < 2 ^ 32) :
    BlockBufferFits env l node offset size buffer ↔
      (1 ≤ min size (l.machine.mem.load32 (node + 276)) ∧
        min size (l.machine.mem.load32 (node + 276)) ≤ 2 ^ 32 - 2048) ∨
      ∀ fuel r, kalloc fuel l.machine.heap 0 ≠ .done r := by
  unfold BlockBufferFits
  simp only [sized_readFs_file hRead hNull]
  constructor
  · intro hFits
    refine or_iff_not_imp_left.mpr ?_
    intro hBad fuel r hAlloc
    obtain ⟨fuel', hStop⟩ := sized_read_stopped hSize hBad ⟨fuel, r, hAlloc⟩ offset buffer
    exact hFits fuel' hStop
  · intro hGood fuel hStop
    obtain ⟨blocksize, ⟨ptr, s⟩, hRound, hAlloc, hSmall⟩ :=
      (sized_read_eq_panic node offset size buffer).mp hStop
    have hBlock := roundToBlocks_done (by omega) hRound
    rcases hGood with hGood | hFull
    · omega
    · -- a buffer of less than a block is one of no bytes
      obtain rfl : blocksize = 0 := by omega
      exact hFull fuel _ (Machine.kalloc_done hAlloc)

/-- The file of 2050 bytes, a block at a time. -/
theorem block_buffer_fits_file :
    BlockBufferFits (sampleShellEnv letterDisk)
      ⟨fileMachine (sampleEnv letterDisk) 2050, fun _ => 0⟩ 0x3000 1 2048 0x9000 := by
  have hNode :
      FileNode (sampleEnv letterDisk) (fileMem (sampleEnv letterDisk) 2050) 0x3000 0x4000 1 21
      2050 := fileMem_node (by decide) (by decide) (by omega)
  have hFits : 1 ≤ min 2048 ((fileMem (sampleEnv letterDisk) 2050).load32 (0x3000 + 276)) ∧
      min 2048 ((fileMem (sampleEnv letterDisk) 2050).load32 (0x3000 + 276)) ≤ 2 ^ 32 - 2048 := by
    rw [hNode.length]
    decide
  exact (block_buffer_fits_iff (sampleShellEnv letterDisk)
    ⟨fileMachine (sampleEnv letterDisk) 2050, fun _ => 0⟩ 0x3000 1 2048 0x9000 hNode.read.1
    hNode.read.2
    (by omega)).mpr (Or.inl hFits)

/-- An empty file, and one of nearly 2³² bytes that is read as a whole. -/
theorem block_buffer_too_small :
    ¬ BlockBufferFits (sampleShellEnv letterDisk)
      ⟨fileMachine (sampleEnv letterDisk) 0, fun _ => 0⟩ 0x3000 0 2048 0x9000 ∧
    ¬ BlockBufferFits (sampleShellEnv letterDisk)
      ⟨fileMachine (sampleEnv letterDisk) 0xFFFFFFFF, fun _ => 0⟩ 0x3000 0 0xFFFFFFFF
        0x9000 := by
  have hZero : (kalloc 300 (kheapAddBlock kheapInit 0x101000 pageSize 16 fun _ => 0)
      0).toOption.isSome := by decide +kernel
  have hStop : ∀ length size, length < 2 ^ 32 → size < 2 ^ 32 →
      ¬ (1 ≤ min size length ∧ min size length ≤ 2 ^ 32 - 2048) →
      ¬ BlockBufferFits (sampleShellEnv letterDisk)
        ⟨fileMachine (sampleEnv letterDisk) length, fun _ => 0⟩ 0x3000 0 size 0x9000 := by
    intro length size hLength hSize hBad hFits
    have hNode :
        FileNode (sampleEnv letterDisk) (fileMem (sampleEnv letterDisk) length) 0x3000 0x4000 1
        21 length := fileMem_node (by decide) (by decide) hLength
    rw [← hNode.length] at hBad
    obtain ⟨fuel, hStop⟩ := sized_read_stopped
      (l := ⟨fileMachine (sampleEnv letterDisk) length, fun _ => 0⟩) hSize hBad
      (fileMachine_kalloc _ length hZero) 0 0x9000
    exact hFits fuel ((sized_readFs_file hNode.read.1 hNode.read.2 fuel 0 size 0x9000).trans hStop)
  exact ⟨hStop 0 2048 (by omega) (by omega) (by omega),
    hStop 0xFFFFFFFF 0xFFFFFFFF (by omega) (by omega) (by omega)⟩

end Hexos
