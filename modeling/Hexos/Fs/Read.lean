import Hexos.Fs.Fuel
import Hexos.Fs.Recreate
import Hexos.Lib.Moves

/-!
# HexOS — reading files

`iso9660_read` clips the size to the length of the whole file, rounds it up to
whole blocks for a buffer on the heap, reads one block into the buffer, with the
offset added to the lba, and copies the clipped size. It has no `return`
statement.

## Results

* `roundToBlocks_eq` — the size of the buffer, with the wrap at 2³².
* `iso9660Read_spec` — a request that fits into a block.
* `iso9660Read_large` — a larger one.
* `iso9660_read_never_delivers` — what is stored, and that what the caller gets is
  not its size.
-/

namespace Hexos

open Mem

-- ---------------------------------------------------------------------------
-- Copies and sizes
-- ---------------------------------------------------------------------------

theorem memcpy_eq_run (m : Mem) (dst src n i : Nat) :
    memcpy m dst src n i = Move.run m ((List.range' i n).map (Move.between dst src)) := by
  induction n generalizing m i with
  | zero => rfl
  | succ n ih =>
    rw [memcpy, ih, store8_eq_update, List.range'_succ, List.map_cons, Move.run]
    rfl

/-- **memcpy.** Between ranges that do not overlap. -/
theorem memcpy_spec (m : Mem) (dst src n i : Nat)
    (h : dst + (i + n) ≤ src + i ∨ src + (i + n) ≤ dst + i) :
    (∀ k, i ≤ k → k < i + n → memcpy m dst src n i (dst + k) = m (src + k)) ∧
      SameOff m (memcpy m dst src n i) (dst + i) n := by
  rw [memcpy_eq_run]
  exact (Move.run_atOnce (Move.up_spares (by omega))).copies

/-- A round of the loop does not change what it comes to. -/
theorem roundUp_succ {n : Nat} (h : n % 2048 ≠ 0) :
    ((n + 1) % 2 ^ 32 + 2047) / 2048 * 2048 % 2 ^ 32 = (n + 2047) / 2048 * 2048 % 2 ^ 32 := by
  omega

/-- The size of the buffer: the next multiple of 2048, modulo 2³². The induction is
on the rounds. -/
theorem roundToBlocks_eq {fuel n : Nat} (hn : n < 2 ^ 32)
    (hFuel : (2048 - n % 2048) % 2048 < fuel) :
    roundToBlocks fuel n = .done ((n + 2047) / 2048 * 2048 % 2 ^ 32) := by
  induction fuel generalizing n with
  | zero => omega
  | succ fuel ih =>
    rw [roundToBlocks]
    by_cases hEnd : n % 2048 = 0
    · have hSame : (n + 2047) / 2048 * 2048 % 2 ^ 32 = n := by omega
      rw [if_neg (by omega), hSame]
    · rw [if_pos hEnd, ih (Nat.mod_lt _ (by omega)) (by omega), roundUp_succ hEnd]

theorem roundToBlocks_done {fuel n blocksize : Nat} (hn : n < 2 ^ 32)
    (h : roundToBlocks fuel n = .done blocksize) :
    blocksize = (n + 2047) / 2048 * 2048 % 2 ^ 32 := by
  induction fuel generalizing n with
  | zero => cases h
  | succ fuel ih =>
    rw [roundToBlocks] at h
    split at h
    · next hEnd => rw [ih (Nat.mod_lt _ (by omega)) h, roundUp_succ hEnd]
    · obtain rfl := Outcome.done.inj h
      omega

-- ---------------------------------------------------------------------------
-- Files
-- ---------------------------------------------------------------------------

/-- The node of a file of a volume. -/
structure FileNode (env : Env) (m : Mem) (node fsInfo dev inode length : Nat) : Prop where
  ne_null  : node ≠ 0
  file     : m.load32 (node + 268) &&& 7 ≠ fsDirectory
  inode    : m.load32 (node + 272) = inode
  length   : m.load32 (node + 276) = length
  impl     : m.load32 (node + 280) = fsInfo
  read     : m.load32 (node + 284) = env.iso9660Read ∧ env.iso9660Read ≠ 0
  openFile : m.load32 (node + 292) = env.iso9660Open
  dev      : m.load32 fsInfo = dev

theorem FileNode.congr {env : Env} {m m' : Mem} {node fsInfo dev inode length : Nat}
    (h : FileNode env m node fsInfo dev inode length) (hNode : SameOn m m' node 332)
    (hInfo : SameOn m m' fsInfo 16) : FileNode env m' node fsInfo dev inode length := by
  have hWord : ∀ k, k + 4 ≤ 332 → m'.load32 (node + k) = m.load32 (node + k) :=
    fun k hk => (hNode.sub (by omega) (by omega)).load32
  refine ⟨h.ne_null, ?_, ?_, ?_, ?_, ?_, ?_, ?_⟩
  · rw [hWord 268 (by omega)]
    exact h.file
  · rw [hWord 272 (by omega), h.inode]
  · rw [hWord 276 (by omega), h.length]
  · rw [hWord 280 (by omega), h.impl]
  · rw [hWord 284 (by omega)]
    exact h.read
  · rw [hWord 292 (by omega), h.openFile]
  · rw [(hInfo.sub (l := 4) (le_refl fsInfo) (by omega)).load32, h.dev]

/-- The device returns the content in consecutive blocks from `inode` on. Block
numbers are 32-bit words. -/
def IsFile (env : Env) (dev inode : Nat) (content : List UInt8) : Prop :=
  ∀ k (hk : k < content.length),
    env.devices dev ((inode + k / 2048) % 2 ^ 32) (k % 2048) = content.get ⟨k, hk⟩

/-- The bytes of the file that a request asks for. -/
def requested (content : List UInt8) (offset size : Nat) : List UInt8 :=
  (content.drop (2048 * offset)).take size

theorem length_requested (content : List UInt8) (offset size : Nat) :
    (requested content offset size).length = min size (content.length - 2048 * offset) := by
  unfold requested
  rw [List.length_take, List.length_drop]

-- ---------------------------------------------------------------------------
-- One block
-- ---------------------------------------------------------------------------

section Read

variable {env : Env} {s : Machine} {live : List Alloc}
  {node fsInfo dev inode length buffer size : Nat}

/-- **One block.** A request for at least one and at most 2048 bytes, with room for a
block buffer: the clipped size is copied from the block with the number `offset`,
nothing else that is stable changes, and there is room for the next block buffer. -/
theorem iso9660Read_spec (offset : Nat) (hInv : s.Inv live)
    (hNode : FileNode env s.mem node fsInfo dev inode length) (hPos : 1 ≤ min size length)
    (hLe : min size length ≤ 2048) (hDest : Stable s.pages live buffer (min size length))
    (hRoom : ∃ f r, kalloc f s.heap 2048 = .done r) :
    ∃ fuel₀ s',
      (∀ fuel, fuel₀ ≤ fuel → iso9660Read env fuel s node offset size buffer = .done s') ∧
      s'.Inv live ∧ s'.pages = s.pages ∧
      (∀ k l, Stable s.pages live k l → k + l ≤ buffer ∨ buffer + min size length ≤ k →
        SameOn s.mem s'.mem k l) ∧
      (∀ k, k < min size length →
        s'.mem (buffer + k) = env.devices dev ((inode + offset) % 2 ^ 32) k) ∧
      ∃ f r, kalloc f s'.heap 2048 = .done r := by
  obtain ⟨n, hn⟩ : ∃ n, n = min size length := ⟨_, rfl⟩
  rw [← hn] at hPos hLe hDest ⊢
  obtain ⟨f, ⟨blockbuf, heap₁⟩, hAlloc⟩ := hRoom
  obtain ⟨-, hPages₁, hInv₁⟩ :=
    Machine.kalloc_spec hInv (by omega) (Machine.kalloc_eq hAlloc s.mem)
  have hApart := Stable.apart (s := ⟨heap₁, s.mem⟩) (by rw [hPages₁]; exact hDest) hInv₁
  simp only at hApart
  -- the block is read and copied
  obtain ⟨m₁, hm₁⟩ : ∃ m, m =
    s.mem.copyIn blockbuf 2048 (env.devices dev ((inode + offset) % 2 ^ 32)) :=
    ⟨_, rfl⟩
  have hFrame₁ : SameOff s.mem m₁ blockbuf 2048 := hm₁ ▸ copyIn_sameOff _ _ _ _
  obtain ⟨hCopy, hFrame₂⟩ := memcpy_spec m₁ buffer blockbuf n 0 (by omega)
  obtain ⟨m₂, hm₂⟩ : ∃ m, m = memcpy m₁ buffer blockbuf n 0 := ⟨_, rfl⟩
  rw [← hm₂] at hCopy hFrame₂
  -- the block buffer is freed
  obtain ⟨s', hFree, hMem', hPages', hInv', hHeap⟩ := hInv₁.kfree_newest m₂
  refine ⟨max f 2048, s', ?_, hInv', hPages'.trans hPages₁, ?_, ?_,
    kalloc_again hInv (by omega) hAlloc hHeap⟩
  · intro fuel hFuel
    have hAlloc' : s.kalloc fuel 2048 = .done (blockbuf, ⟨heap₁, s.mem⟩) :=
      Machine.kalloc_eq (kalloc_mono hAlloc (by simp) (by omega)) s.mem
    have hClip : (if size > length then length else size) = n := by
      split <;> omega
    have hRound : roundToBlocks fuel n = .done 2048 := by
      have hBlock : (n + 2047) / 2048 * 2048 % 2 ^ 32 = 2048 := by omega
      rw [roundToBlocks_eq (by omega) (by omega), hBlock]
    unfold iso9660Read
    simp only [hNode.impl, hNode.length, hClip]
    rw [hRound, Outcome.bind_done, hAlloc']
    simp only [Outcome.bind_done, Machine.readBlock, hNode.inode, hNode.dev, ← hm₁, ← hm₂]
    exact hFree
  · intro k l hk hOut
    rw [hMem']
    have hBlock := Stable.apart (s := ⟨heap₁, s.mem⟩) (by rw [hPages₁]; exact hk) hInv₁
    simp only at hBlock
    exact (hFrame₁.sameOn hBlock).trans (hFrame₂.sameOn (by omega))
  · intro k hk
    rw [hMem', hCopy k (by omega) (by omega), hm₁, copyIn_in (by omega)]

/-- A block of the heap has no room for more than its page. -/
theorem kalloc_large {heap : KernelHeap} {live : List Alloc}
    (h : HeapRun.Inv ⟨heap, live⟩) {n : Nat} (hn : 4076 < n) (fuel : Nat) :
    kalloc fuel heap n = .panic "kalloc: Out of memory!" := by
  have hBlocks : ∀ b ∈ heap, ¬ b.Room n := by
    intro b hb hRoom
    have hBlock := h.block b hb
    have hUsed := hBlock.used_le
    unfold KernelHeapBlockBm.Room at hRoom
    rw [hBlock.size, hBlock.bsize] at hRoom
    omega
  clear h
  induction heap with
  | nil => rfl
  | cons b bs ih =>
    rw [kalloc]
    dsimp only
    rw [if_neg (hBlocks b List.mem_cons_self), ih fun c hc => hBlocks c (List.mem_cons_of_mem b hc)]
    rfl

/-- **More than a block.** The buffer for the blocks that the request spans is larger
than any block of the heap. -/
theorem iso9660Read_large (offset : Nat) (hInv : s.Inv live)
    (hNode : FileNode env s.mem node fsInfo dev inode length) (hLow : 2048 < min size length)
    (hHigh : min size length ≤ 2 ^ 32 - 2048) {fuel : Nat} (hFuel : 2048 ≤ fuel) :
    iso9660Read env fuel s node offset size buffer = .panic "kalloc: Out of memory!" := by
  have hClip : (if size > length then length else size) = min size length := by
    split <;> omega
  have hRound : roundToBlocks fuel (min size length) =
      .done ((min size length + 2047) / 2048 * 2048 % 2 ^ 32) :=
      roundToBlocks_eq (by omega) (by omega)
  have hAlloc : s.kalloc fuel ((min size length + 2047) / 2048 * 2048 % 2 ^ 32) =
      .panic "kalloc: Out of memory!" := by
    unfold Machine.kalloc
    rw [kalloc_large hInv (by omega)]
    rfl
  unfold iso9660Read
  simp only [hNode.length, hClip]
  rw [hRound, Outcome.bind_done, hAlloc]
  rfl

-- ---------------------------------------------------------------------------
-- The contract
-- ---------------------------------------------------------------------------

/-- `iso9660_read` as its caller sees it. The function ends without a `return`
statement, so the caller takes for the result what happens to be in the register
`eax`. -/
def iso9660ReadResult (env : Env) (fuel : Nat) (s : Machine) (node offset size buffer eax : Nat) :
    Outcome (Nat × Machine) :=
  (iso9660Read env fuel s node offset size buffer).map fun s => (eax, s)

/-- Of the `size` bytes at `buffer`, the first ones are the requested bytes and the
others are as they were. -/
def StoresRequested (content : List UInt8) (offset size buffer : Nat) (m m' : Mem) : Prop :=
  ∀ k, k < size → m' (buffer + k) = ((requested content offset size)[k]?).getD (m (buffer + k))

/-- The request is met: the call ends, whatever is in `eax`, with the requested bytes
stored and their number as the result. -/
def Delivers (env : Env) (s : Machine) (node offset size buffer : Nat)
    (content : List UInt8) : Prop :=
  ∃ fuel₀, ∀ fuel, fuel₀ ≤ fuel → ∀ eax, ∃ s',
    iso9660ReadResult env fuel s node offset size buffer eax =
      .done ((requested content offset size).length, s') ∧
    StoresRequested content offset size buffer s.mem s'.mem

/-- The result is not the number of bytes. -/
theorem not_delivers (offset : Nat) (content : List UInt8) :
    ¬ Delivers env s node offset size buffer content := by
  rintro ⟨fuel₀, hAll⟩
  obtain ⟨s', hRun, -⟩ :=
    hAll fuel₀ (le_refl fuel₀) ((requested content offset size).length + 1)
  obtain ⟨s'', -, hEq⟩ := Outcome.map_eq_done.mp hRun
  have := (Prod.mk.inj hEq).1
  omega

/-- The requested byte `k` is a byte of the block with the number `offset`. -/
theorem requested_getElem {content : List UInt8} (hFile : IsFile env dev inode content)
    (offset : Nat) {k : Nat} (hk : k < 2048)
    (hLength : k < (requested content offset size).length) :
    (requested content offset size)[k]? = some (env.devices dev ((inode + offset) % 2 ^ 32) k) := by
  have hLen := length_requested content offset size
  have hByte := hFile (2048 * offset + k) (by omega)
  rw [show (2048 * offset + k) / 2048 = offset by omega,
    show (2048 * offset + k) % 2048 = k by omega] at hByte
  unfold requested
  rw [hByte, List.getElem?_take, if_pos (by omega), List.getElem?_drop,
    List.getElem?_eq_getElem (by omega)]
  rfl

/-- **`iso9660_read`.** For every file node, block offset, size and destination, with a
device that returns the file and room for a block buffer: no call delivers what was
requested, since no call returns a value. As to the bytes: a request for at least one
and at most 2048 bytes ends, and they are right exactly when the bytes of the block
behind the end of the request are what the destination held before (there are none
when `offset` is 0 or the request ends in the file); a larger request panics. -/
theorem iso9660_read_never_delivers (env : Env) (s : Machine) (live : List Alloc)
    (node fsInfo dev inode offset size buffer : Nat) (content : List UInt8) (hInv : s.Inv live)
    (hNode : FileNode env s.mem node fsInfo dev inode content.length)
    (hFile : IsFile env dev inode content) (hDest : Stable s.pages live buffer size)
    (hRoom : ∃ f r, kalloc f s.heap 2048 = .done r) :
    ¬ Delivers env s node offset size buffer content ∧
    (1 ≤ min size content.length → min size content.length ≤ 2048 →
      ∃ fuel₀ s', (∀ fuel, fuel₀ ≤ fuel →
          iso9660Read env fuel s node offset size buffer = .done s') ∧
        (StoresRequested content offset size buffer s.mem s'.mem ↔
          ∀ k, (requested content offset size).length ≤ k → k < min size content.length →
            env.devices dev ((inode + offset) % 2 ^ 32) k = s.mem (buffer + k))) ∧
    (2048 < min size content.length → min size content.length ≤ 2 ^ 32 - 2048 →
      ∀ fuel, 2048 ≤ fuel →
        iso9660Read env fuel s node offset size buffer = .panic "kalloc: Out of memory!") := by
  refine ⟨not_delivers offset content, ?_, fun hLow hHigh fuel hFuel =>
    iso9660Read_large offset hInv hNode hLow hHigh hFuel⟩
  intro hPos hLe
  obtain ⟨n, hn⟩ : ∃ n, n = min size content.length := ⟨_, rfl⟩
  obtain ⟨fuel₀, s', hRead, -, -, hSame, hCopy, -⟩ :=
    iso9660Read_spec offset hInv hNode hPos hLe
    (hDest.sub (le_refl buffer) (by omega)) hRoom
  rw [← hn] at hSame hCopy hLe ⊢
  have hLen := length_requested content offset size
  -- what lies behind the bytes copied is as it was
  have hRest : ∀ k, n ≤ k → k < size → s'.mem (buffer + k) = s.mem (buffer + k) := by
    intro k hk hkSize
    have hStable : Stable s.pages live (buffer + k) 1 := hDest.sub (by omega) (by omega)
    exact hSame (buffer + k) 1 hStable (Or.inr (by omega)) (buffer + k) (le_refl _) (by omega)
  refine ⟨fuel₀, s', hRead, ?_⟩
  constructor
  · intro hStored k hk hkn
    have hByte := hStored k (by omega)
    rw [List.getElem?_eq_none hk, Option.getD_none] at hByte
    rw [← hByte, hCopy k hkn]
  · intro hBehind k hk
    by_cases hIn : k < (requested content offset size).length
    · rw [requested_getElem hFile offset (by omega) hIn, Option.getD_some, hCopy k (by omega)]
    · rw [List.getElem?_eq_none (by omega), Option.getD_none]
      by_cases hkn : k < n
      · rw [hCopy k hkn, hBehind k (by omega) hkn]
      · exact hRest k (by omega) hk

end Read

/-- A disk whose sectors 21 and 22 are full of `A`. -/
def letterDisk (lba : Nat) : Mem := if lba = 21 ∨ lba = 22 then fun _ => 0x41 else fun _ => 0

/-- A memory with the node of a file of the given length, from sector 21 of device 1
on. -/
def fileMem (env : Env) (length : Nat) : Mem :=
  [(0x3000 + 268, fsFile), (0x3000 + 272, 21), (0x3000 + 276, length), (0x3000 + 280, 0x4000),
    (0x3000 + 284, env.iso9660Read), (0x3000 + 292, env.iso9660Open), (0x4000, 1)].foldl
    (fun m av => m.store32 av.1 av.2) fun _ => 0

theorem fileMem_node {env : Env} {length : Nat}
    (hRead : env.iso9660Read ≠ 0 ∧ env.iso9660Read < 2 ^ 32) (hOpen : env.iso9660Open < 2 ^ 32)
    (hLength : length < 2 ^ 32) :
    FileNode env (fileMem env length) 0x3000 0x4000 1 21 length := by
  have hWord : ∀ v, v < 2 ^ 32 → ∀ (m : Mem) a, (m.store32 a v).load32 a = v :=
    fun v hv m a => load32_store32 hv
  have hFile : (fileMem env length).load32 (0x3000 + 268) = fsFile := by
    simp (disch := decide)
      only [fileMem, List.foldl_cons, List.foldl_nil, load32_store32_other, hWord]
  refine ⟨by omega, by rw [hFile]; decide, ?_, ?_, ?_, ⟨?_, hRead.1⟩, ?_, ?_⟩
  · simp (disch := decide)
      only [fileMem, List.foldl_cons, List.foldl_nil, load32_store32_other, hWord]
  · simp (disch := decide) only [fileMem, List.foldl_cons, List.foldl_nil, load32_store32_other,
      hWord length hLength]
  · simp (disch := decide)
      only [fileMem, List.foldl_cons, List.foldl_nil, load32_store32_other, hWord]
  · simp (disch := decide) only [fileMem, List.foldl_cons, List.foldl_nil, load32_store32_other,
      hWord _ hRead.2]
  · simp (disch := decide) only [fileMem, List.foldl_cons, List.foldl_nil, load32_store32_other,
      hWord _ hOpen]
  · simp (disch := decide) only [fileMem, List.foldl_cons, List.foldl_nil, hWord]

/-- A machine with a heap of one page and such a node. -/
def fileMachine (env : Env) (length : Nat) : Machine :=
  ⟨kheapAddBlock kheapInit 0x101000 pageSize 16 fun _ => 0, fileMem env length⟩

theorem fileMachine_inv (env : Env) (length : Nat) : (fileMachine env length).Inv [] := by
  have hInit : HeapInit (kheapAddBlock kheapInit 0x101000 pageSize 16 fun _ => 0) :=
    .add .init (by decide) (by omega) (by simp [kheapInit])
  exact hInit.inv

/-- What its heap serves. -/
theorem fileMachine_kalloc (env : Env) (length : Nat) {n : Nat}
    (h : (kalloc 300 (kheapAddBlock kheapInit 0x101000 pageSize 16 fun _ => 0) n).toOption.isSome) :
    ∃ f r, kalloc f (fileMachine env length).heap n = .done r := by
  obtain ⟨r, hr⟩ := Option.isSome_iff_exists.mp h
  exact ⟨300, r, Outcome.toOption_eq_some.mp hr⟩

/-- There is memory outside of the heap for a destination, and room for a block. -/
theorem fileMachine_room (env : Env) (length : Nat) :
    Stable (fileMachine env length).pages [] 0x9000 2048 ∧
      ∃ f r, kalloc f (fileMachine env length).heap 2048 = .done r := by
  have hPages : (fileMachine env length).pages = [0x101000] := rfl
  refine ⟨Or.inr ?_, fileMachine_kalloc env length (by decide +kernel)⟩
  rw [hPages]
  decide

theorem letterDisk_file : IsFile (sampleEnv letterDisk) 1 21 (List.replicate 2050 0x41) := by
  intro k hk
  rw [List.length_replicate] at hk
  have hLba : (21 + k / 2048) % 2 ^ 32 = 21 ∨ (21 + k / 2048) % 2 ^ 32 = 22 := by omega
  show letterDisk _ _ = _
  unfold letterDisk
  rw [if_pos hLba, List.get_eq_getElem, List.getElem_replicate]

/-- The first block of a file of 2050 bytes: the bytes are right, the result is not. -/
theorem iso9660_read_first_block :
    ¬ Delivers (sampleEnv letterDisk)
      (fileMachine (sampleEnv letterDisk) 2050) 0x3000 0 2048 0x9000
      (List.replicate 2050 0x41) ∧
    ∃ fuel₀ s', (∀ fuel, fuel₀ ≤ fuel →
        iso9660Read (sampleEnv letterDisk) fuel
          (fileMachine (sampleEnv letterDisk) 2050) 0x3000 0 2048
          0x9000 = .done s') ∧
      StoresRequested (List.replicate 2050 0x41) 0 2048 0x9000 (fileMem (sampleEnv letterDisk) 2050)
        s'.mem := by
  have hLength : (List.replicate 2050 (0x41 : UInt8)).length = 2050 := List.length_replicate
  have hNode :
      FileNode (sampleEnv letterDisk) (fileMem (sampleEnv letterDisk) 2050) 0x3000 0x4000 1 21
      2050 := fileMem_node (by decide) (by decide) (by omega)
  obtain ⟨hNever, hOne, -⟩ :=
    iso9660_read_never_delivers (sampleEnv letterDisk) (fileMachine _ 2050) []
    0x3000 0x4000 1 21 0 2048 0x9000 (List.replicate 2050 0x41) (fileMachine_inv _ _)
    (by rw [hLength]; exact hNode) letterDisk_file (fileMachine_room _ _).1 (fileMachine_room _ _).2
  obtain ⟨fuel₀, s', hRead, hStored⟩ :=
    hOne (by rw [hLength]; decide) (by rw [hLength]; decide)
  refine ⟨hNever, fuel₀, s', hRead, hStored.mpr ?_⟩
  intro k hk hk'
  rw [length_requested, hLength] at hk
  omega

/-- The second block of that file has two bytes; a request for it stores 2048. -/
theorem iso9660_read_behind_end :
    (requested (List.replicate 2050 (0x41 : UInt8)) 1 2048).length = 2 ∧
    ¬ Delivers (sampleEnv letterDisk)
      (fileMachine (sampleEnv letterDisk) 2050) 0x3000 1 2048 0x9000
      (List.replicate 2050 0x41) ∧
    ∃ fuel₀ s', (∀ fuel, fuel₀ ≤ fuel →
        iso9660Read (sampleEnv letterDisk) fuel
          (fileMachine (sampleEnv letterDisk) 2050) 0x3000 1 2048
          0x9000 = .done s') ∧
      ¬ StoresRequested (List.replicate 2050 0x41) 1 2048 0x9000
        (fileMem (sampleEnv letterDisk) 2050)
        s'.mem := by
  have hLength : (requested (List.replicate 2050 (0x41 : UInt8)) 1 2048).length = 2 := by
    rw [length_requested, List.length_replicate]
    decide
  have hNode :
      FileNode (sampleEnv letterDisk) (fileMem (sampleEnv letterDisk) 2050) 0x3000 0x4000 1 21
      2050 := fileMem_node (by decide) (by decide) (by omega)
  have hDest := (fileMachine_room (sampleEnv letterDisk) 2050).1
  obtain ⟨fuel₀, s', hRead, -, -, -, hCopy, -⟩ :=
    iso9660Read_spec 1 (fileMachine_inv _ _) hNode
    (by omega) (by omega) (show Stable _ _ _ (min 2048 2050) from hDest) (fileMachine_room _ _).2
  refine ⟨hLength, not_delivers _ _, fuel₀, s', hRead, ?_⟩
  intro hStored
  -- the third byte is behind the end of the file
  have hThird := hStored 2 (by omega)
  rw [List.getElem?_eq_none (by rw [hLength]), Option.getD_none, hCopy 2 (by omega)] at hThird
  revert hThird
  decide +kernel

end Hexos
