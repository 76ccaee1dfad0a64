import Hexos.Fs.Read

/-!
# HexOS — `cat`

The shell reads a file in chunks of one block into a buffer of its own and
prints the buffer as a string. It counts the file in bytes and passes the
offset in blocks.

## Results

* `readFs_spec` — one chunk.
* `catLoop_round`, `catLoop_spec` — a round of the loop, and the loop, by induction on
  what is left of the file.
* `finddirFs_file` — the node of a file.
* `cat_prints_file` — the command prints the file.
-/

namespace Hexos

open Mem

section Read

variable {env : Env} {s : Machine} {live : List Alloc}
  {node fsInfo dev inode length filebuf n : Nat}

/-- **One chunk.** With room for a block buffer, `read_fs` copies `n` bytes of the
block with the number `offset` to the buffer of the shell, and there is room for
the next block buffer. Nothing stable but that buffer changes. -/
theorem readFs_spec (offset : Nat) (hInv : s.Inv (⟨filebuf, 2049⟩ :: live))
    (hNode : FileNode env s.mem node fsInfo dev inode length)
    (hPos : 1 ≤ n) (hLe : n ≤ 2048) (hLength : n ≤ length)
    (hRoom : ∃ f r, kalloc f s.heap 2048 = .done r) :
    ∃ fuel₀ s',
      (∀ fuel, fuel₀ ≤ fuel → readFs env fuel s node offset n filebuf = .done s') ∧
      s'.Inv (⟨filebuf, 2049⟩ :: live) ∧ s'.pages = s.pages ∧
      (∀ k l, Stable s.pages live k l → SameOn s.mem s'.mem k l) ∧
      (∀ k, k < n → s'.mem (filebuf + k) = env.devices dev ((inode + offset) % 2 ^ 32) k) ∧
      ∃ f r, kalloc f s'.heap 2048 = .done r := by
  have hMin : min n length = n := min_eq_left hLength
  have hDest : Stable s.pages (⟨filebuf, 2049⟩ :: live) filebuf (min n length) :=
    Or.inl ⟨_, List.mem_cons_self, le_refl _, by simp only; omega⟩
  obtain ⟨fuel₀, s', hRead, hInv', hPages, hSame, hCopy, hRoom'⟩ :=
    iso9660Read_spec offset hInv hNode (by omega) (by omega) hDest hRoom
  rw [hMin] at hSame hCopy
  refine ⟨fuel₀, s', ?_, hInv', hPages, ?_, hCopy, hRoom'⟩
  · intro fuel hFuel
    unfold readFs
    simp only [hNode.read.1, if_pos hNode.read.2, if_true]
    exact hRead fuel hFuel
  · intro k l hk
    have hApart := hk.apart hInv
    simp only at hApart
    exact hSame k l (hk.cons _) (by omega)

-- ---------------------------------------------------------------------------
-- The loop
-- ---------------------------------------------------------------------------

/-- What the buffer holds after a chunk and its terminator. -/
theorem stringAt_chunk {content : List UInt8} {off : Nat} {m : Mem}
    (hFile : IsFile env dev inode content) (hOff : off % 2048 = 0) (hLe : n ≤ 2048)
    (hEnd : off + n ≤ content.length)
    (hCopy : ∀ k, k < n → m (filebuf + k) = env.devices dev ((inode + off / 2048) % 2 ^ 32) k) :
    StringAt (m.store8 (filebuf + n) 0) filebuf ((content.drop off).take n) := by
  have hLength : ((content.drop off).take n).length = n := by
    rw [List.length_take, List.length_drop]
    omega
  refine ⟨?_, ?_⟩
  · intro k hk
    rw [hLength] at hk
    -- a chunk does not cross a block: byte `off + k` is byte `k` of its block
    have hByte := hFile (off + k) (by omega)
    rw [show (off + k) / 2048 = off / 2048 by omega, show (off + k) % 2048 = k by omega] at hByte
    rw [store8_other (by omega), hCopy k hk, hByte]
    simp
  · rw [hLength, store8_self]

/-- **One round** prints a chunk, and goes on while the file has more. -/
theorem catLoop_round {content : List UInt8} {off left : Nat} {s₁ s₂ : Machine}
    {fuel₁ fuel : Nat} (hNul : 0 ∉ content) (hn : n = min 2048 left) (hOff : off < 2 ^ 31)
    (hTop : filebuf + 2049 ≤ 2 ^ 32)
    (hRead : ∀ fuel, fuel₁ ≤ fuel →
      readFs env fuel s node (off / 2048) n filebuf = .done s₁)
    (hs₂ : s₂ = ⟨s₁.heap, s₁.mem.store8 (filebuf + n) 0⟩)
    (hString : StringAt s₂.mem filebuf ((content.drop off).take n))
    (hFuel : max fuel₁ 2049 ≤ fuel) (rounds : Nat) :
    catLoop env fuel node filebuf (rounds + 1) s left off =
      if (left : Int) - n ≤ 0 then .done ((content.drop off).take n, s₂)
      else (catLoop env fuel node filebuf rounds s₂ ((left : Int) - n) ((off : Int) + n)).map
        fun r => ((content.drop off).take n ++ r.1, r.2) := by
  have hToRead : (if (left : Int) ≥ 2048 then 2048 else (left : Int)) = (n : Int) := by
    split <;> omega
  have hBlock : wordOf ((off : Int).tdiv 2048) = off / 2048 :=
    (congrArg wordOf (Int.ofNat_tdiv off 2048).symm).trans (wordOf_natCast (by omega))
  have hEnd : wordOf ((filebuf : Int) + n) = filebuf + n :=
    (congrArg wordOf (Int.natCast_add filebuf n).symm).trans (wordOf_natCast (by omega))
  have hMem : s₂.mem = s₁.mem.store8 (filebuf + n) 0 := by rw [hs₂]
  rw [hMem] at hString
  have hPrint : printString fuel (s₁.mem.store8 (filebuf + n) 0) filebuf =
      .done ((content.drop off).take n) := by
    refine printString_spec (fun hc => hNul (List.mem_of_mem_drop (List.mem_of_mem_take hc)))
      ?_ hString
    rw [List.length_take]
    omega
  rw [catLoop]
  simp only [hToRead]
  rw [hBlock, wordOf_natCast (by omega), hEnd, hRead fuel (by omega), Outcome.bind_done, hPrint,
    Outcome.bind_done, ← hs₂]

/-- **The loop.** It prints the rest of the file, in as many rounds as there are
blocks left. -/
theorem catLoop_spec {content : List UInt8} {off left : Nat} (hNul : 0 ∉ content)
    (hLength : content.length < 2 ^ 31) (hFile : IsFile env dev inode content)
    (hLeft : off + left = content.length) (hPos : 1 ≤ left) (hOff : off % 2048 = 0)
    (hInv : s.Inv (⟨filebuf, 2049⟩ :: live))
    (hNode : FileNode env s.mem node fsInfo dev inode content.length)
    (hStable : Stable s.pages live node 332) (hInfo : Stable s.pages live fsInfo 16)
    (hRoom : ∃ f r, kalloc f s.heap 2048 = .done r) :
    ∃ fuel₀ s', (∀ fuel rounds, fuel₀ ≤ fuel → left ≤ 2048 * rounds →
        catLoop env fuel node filebuf rounds s left off = .done (content.drop off, s')) ∧
      s'.Inv (⟨filebuf, 2049⟩ :: live) := by
  induction left using Nat.strong_induction_on generalizing s off with
  | _ left ih =>
    have hTop := (hInv.range List.mem_cons_self).2.2
    simp only at hTop
    obtain ⟨n, hn⟩ : ∃ n, n = min 2048 left := ⟨_, rfl⟩
    obtain ⟨fuel₁, s₁, hRead, hInv₁, hPages₁, hSame, hCopy, hRoom₁⟩ :=
      readFs_spec (off / 2048)
      (n := n) hInv hNode (by omega) (by omega) (by omega) hRoom
    have hString := stringAt_chunk hFile hOff (by omega) (by omega) hCopy
    -- the terminator is in the buffer of the shell too
    obtain ⟨s₂, hs₂⟩ : ∃ s : Machine,
      s = ⟨s₁.heap, s₁.mem.store8 (filebuf + n) 0⟩ := ⟨_, rfl⟩
    have hString₂ : StringAt s₂.mem filebuf ((content.drop off).take n) := by
      rw [hs₂]
      exact hString
    have hInv₂ : s₂.Inv (⟨filebuf, 2049⟩ :: live) := by
      rw [hs₂]
      exact hInv₁
    by_cases hLast : left ≤ 2048
    · -- the last chunk
      refine ⟨max fuel₁ 2049, s₂, ?_, hInv₂⟩
      intro fuel rounds hFuel hRounds
      obtain ⟨rounds, rfl⟩ : ∃ r, rounds = r + 1 := ⟨rounds - 1, by omega⟩
      rw [catLoop_round hNul hn (by omega) (by omega) hRead hs₂ hString₂ hFuel rounds,
        if_pos (by omega), List.take_of_length_le (by rw [List.length_drop]; omega)]
    · have hSame₂ : ∀ k l, Stable s.pages live k l → SameOn s.mem s₂.mem k l := by
        intro k l hk
        have hBuffer := hk.apart hInv
        simp only at hBuffer
        rw [hs₂]
        exact (hSame k l hk).trans ((store8_sameOff _ _ _).sameOn (by omega))
      have hPages₂ : s₂.pages = s.pages := by
        rw [hs₂]
        exact hPages₁
      obtain ⟨fuel₂, s', hRest, hInv'⟩ := ih (left - n) (by omega) (s := s₂)
        (show off + n + (left - n) = content.length by omega) (by omega) (by omega) hInv₂
        (hNode.congr (hSame₂ _ _ hStable) (hSame₂ _ _ hInfo))
        (by rw [hPages₂]; exact hStable) (by rw [hPages₂]; exact hInfo)
          (by rw [hs₂]; exact hRoom₁)
      refine ⟨max (max fuel₁ 2049) fuel₂, s', ?_, hInv'⟩
      intro fuel rounds hFuel hRounds
      obtain ⟨rounds, rfl⟩ : ∃ r, rounds = r + 1 := ⟨rounds - 1, by omega⟩
      rw [catLoop_round hNul hn (by omega) (by omega) hRead hs₂ hString₂ (by omega) rounds,
        if_neg (by omega), ← Int.natCast_add, ← Int.ofNat_sub (by omega),
        hRest fuel rounds (by omega) (by omega), Outcome.map_done, ← List.drop_drop]
      simp only [List.take_append_drop]

end Read

-- ---------------------------------------------------------------------------
-- Nodes of files
-- ---------------------------------------------------------------------------

section Lookup

variable {env : Env} {s s₁ s₂ : Machine} {live : List Alloc}
  {dir fsInfo inode fuel buffer : Nat} {sec : Mem} {dot dotDot : DirRecord} {rest : List DirRecord}
  {name : CString}

/-- The pointers of a node that was found. -/
theorem iso9660Finddir_calls {p : Nat} {s' : Machine}
    (h : iso9660Finddir env fuel s dir name = .done (p, s')) (hp : p ≠ 0)
    (hRead : env.iso9660Read < 2 ^ 32) (hOpen : env.iso9660Open < 2 ^ 32) :
    s'.mem.load32 (p + 284) = env.iso9660Read ∧ s'.mem.load32 (p + 292) = env.iso9660Open := by
  unfold iso9660Finddir at h
  obtain ⟨⟨buffer, s₁⟩, -, h⟩ := Outcome.bind_eq_done.mp h
  obtain ⟨⟨found, m⟩, -, h⟩ := Outcome.bind_eq_done.mp h
  cases found with
  | none =>
    obtain ⟨s₂, -, hEq⟩ := Outcome.map_eq_done.mp h
    exact absurd (Prod.mk.inj hEq).1.symm hp
  | some dirEntry =>
    obtain ⟨⟨response, s₂⟩, hNode, h⟩ := Outcome.bind_eq_done.mp h
    obtain ⟨s₃, hFree, hEq⟩ := Outcome.map_eq_done.mp h
    obtain ⟨rfl, rfl⟩ := Prod.mk.inj hEq
    obtain ⟨heap, -, rfl⟩ := Outcome.map_eq_done.mp hFree
    unfold iso9660EntryToNode iso9660EntryToNodeMini at hNode
    obtain ⟨⟨a, s₄⟩, -, hNode⟩ := Outcome.bind_eq_done.mp hNode
    obtain ⟨m', -, hEq⟩ := Outcome.map_eq_done.mp hNode
    obtain ⟨rfl, rfl⟩ := Prod.mk.inj hEq
    constructor
    · unfold storeLinks storeMini
      simp (disch := omega) only [load32_store32_other, load32_store32 hRead]
    · unfold storeLinks storeMini
      simp (disch := omega) only [load32_store32_other, load32_store32 hOpen]

/-- **The node of a file.** `finddir_fs` makes it from the record of the file. -/
theorem finddirFs_file {response : Nat} {r : DirRecord} (hInv : s.Inv live)
    (hDir : DirAt env s live dir fsInfo inode sec) (hSec : IsDirectory sec dot dotDot rest)
    (hFlags : s.mem.load32 (dir + 268) = fsDirectory)
    (hFinddir : s.mem.load32 (dir + 304) = env.iso9660Finddir) (hFuel : 256 ≤ fuel)
    (hBuf : s.kalloc fuel 2048 = .done (buffer, s₁))
    (hNode : s₁.kalloc fuel sizeofFsNode = .done (response, s₂))
    (hLook : lookup name.bytes rest = some r) (hPlain : r.flags &&& 2 = 0)
    (hRead : env.iso9660Read ≠ 0 ∧ env.iso9660Read < 2 ^ 32)
    (hOpen : env.iso9660Open < 2 ^ 32) :
    ∃ s', finddirFs env fuel s dir name = .done (response, s') ∧
      s'.Inv (⟨response, 332⟩ :: live) ∧
      FileNode env s'.mem response fsInfo (s.mem.load32 fsInfo) r.lba r.fileLength ∧
      Stable s'.pages (⟨response, 332⟩ :: live) response 332 ∧
      Stable s'.pages (⟨response, 332⟩ :: live) fsInfo 16 := by
  obtain ⟨s', hRun, hInv', hPages, hSame, hNodeAt⟩ :=
    iso9660Finddir_some hInv hDir hSec hFuel hBuf hNode hLook
  have hNull : response ≠ 0 := by
    have := (hInv'.range List.mem_cons_self).2.1
    simp only at this
    omega
  obtain ⟨hReadPtr, hOpenPtr⟩ := iso9660Finddir_calls hRun hNull hRead.2 hOpen
  have hFile : s'.mem.load32 (response + 268) = fsFile := by
    rw [hNodeAt.flags, if_neg (by simpa using hPlain)]
  refine ⟨s', ?_, hInv',
    ⟨hNull, ?_, hNodeAt.inode, hNodeAt.length, hNodeAt.impl, ⟨hReadPtr, hRead.1⟩,
    hOpenPtr, ?_⟩, Or.inl ⟨_, List.mem_cons_self, le_refl _, le_refl _⟩, ?_⟩
  · have hVolume : OnVolume env s dir := ⟨by rw [hFlags]; decide, hFinddir⟩
    rw [finddirFs_onVolume hVolume, hRun]
  · rw [hFile]
    decide
  · rw [((hSame fsInfo 16 hDir.info).sub (l := 4) (le_refl fsInfo) (by omega)).load32]
  · rw [hPages]
    exact hDir.info.cons _

end Lookup

-- ---------------------------------------------------------------------------
-- The command
-- ---------------------------------------------------------------------------

theorem openFs_spec {env : Env} {s : Machine} {node fsInfo dev inode length : Nat}
    (h : FileNode env s.mem node fsInfo dev inode length) : openFs env s node = .done s := by
  unfold openFs
  simp only [h.openFile, if_true, ite_self]

/-- **cat prints the file.** For every file node that `finddir_fs` returns, with a
length below 2³¹ and not 0, content without a NUL that the device returns, and
room in the heap for the two buffers, the command ends and prints the content
and one newline. -/
theorem cat_prints_file (env : Env) (sh : Shell) (s : Machine) (live : List Alloc) (dest : CString)
    (node fsInfo dev inode f f₁ filebuf : Nat) (heap₁ : KernelHeap) (r : Nat × KernelHeap)
    (content : List UInt8) (hPos : 0 < content.length) (hLength : content.length < 2 ^ 31)
    (hNul : 0 ∉ content) (hFile : IsFile env dev inode content)
    (hFind : finddirFs env f sh.machine sh.currentDir dest = .done (node, s))
    (hInv : s.Inv live) (hNode : FileNode env s.mem node fsInfo dev inode content.length)
    (hStable : Stable s.pages live node 332) (hInfo : Stable s.pages live fsInfo 16)
    (hFilebuf : kalloc f₁ s.heap 2049 = .done (filebuf, heap₁))
    (hBlockbuf : kalloc f₁ heap₁ 2048 = .done r) :
    ∃ fuel₀ s', ∀ fuel, fuel₀ ≤ fuel →
      shellCat env fuel sh dest = .done (content ++ [0x0A], ⟨sh.currentDir, s'⟩) := by
  obtain ⟨-, hPages₁, hInv₁⟩ :=
    Machine.kalloc_spec hInv (by omega) (Machine.kalloc_eq hFilebuf s.mem)
  obtain ⟨fuel₂, s₂, hLoop, hInv₂⟩ :=
    catLoop_spec (s := ⟨heap₁, s.mem⟩) hNul hLength hFile
    (Nat.zero_add _) hPos (Nat.zero_mod _) hInv₁ hNode (by rw [hPages₁]; exact hStable)
    (by rw [hPages₁]; exact hInfo) ⟨f₁, r, hBlockbuf⟩
  obtain ⟨s', hFree, -⟩ := Machine.kfree_spec hInv₂ List.mem_cons_self
  refine ⟨max (max f f₁) (max fuel₂ content.length), s', ?_⟩
  intro fuel hFuel
  have hAlloc : s.kalloc fuel (2048 + 1) = .done (filebuf, ⟨heap₁, s.mem⟩) :=
    Machine.kalloc_eq (kalloc_mono hFilebuf (by simp) (by omega)) s.mem
  have hInt : intOf content.length = (content.length : Int) := if_pos hLength
  have hRun := hLoop fuel fuel (by omega) (by omega)
  rw [Int.natCast_zero, List.drop_zero] at hRun
  unfold shellCat
  rw [finddirFs_mono hFind (by omega), Outcome.bind_done]
  simp only [if_neg hNode.ne_null, if_neg hNode.file, hAlloc, Outcome.bind_done]
  rw [openFs_spec (s := ⟨heap₁, s.mem⟩) hNode, Outcome.bind_done]
  simp only [hNode.length, hInt, hRun, Outcome.bind_done]
  rw [hFree, Outcome.map_done]
  rfl

/-- The disk of the sample volume with a file `A` of two bytes more than a block,
all of them `A`. -/
def catDisk (lba : Nat) : Mem :=
  if lba = 20 then
    sectorOf
      ([⟨34, 20, 2048, 2, [0]⟩, ⟨34, 20, 2048, 2, [1]⟩, ⟨34, 21, 2050, 0, [0x41]⟩].flatMap
        DirRecord.encode)
  else if lba = 21 ∨ lba = 22 then fun _ => 0x41
  else sampleDisk lba

/-- On the freshly mounted disk, `cat A` in the root directory of the volume prints
the two blocks of the file. -/
theorem cat_prints_two_blocks :
    ∃ sh fuel₀ s', sampleShell catDisk = some sh ∧ ∀ fuel, fuel₀ ≤ fuel →
      shellCat (sampleEnv catDisk) fuel ⟨0x3000, sh.machine⟩ ⟨[0x41], by decide⟩ =
        .done (List.replicate 2050 0x41 ++ [0x0A], ⟨0x3000, s'⟩) := by
  have hEval : (sampleShell catDisk).map (fun sh =>
      (sh.machine.mem.load32 (0x3000 + 268), sh.machine.mem.load32 (0x3000 + 304),
        sh.machine.mem.load32 (sh.machine.mem.load32 (0x3000 + 280)),
        ((sh.machine.kalloc 600 2048).toOption.bind fun r =>
          (r.2.kalloc 600 sizeofFsNode).toOption).isSome,
        ((finddirFs (sampleEnv catDisk) 600 sh.machine 0x3000 ⟨[0x41], by decide⟩).toOption.bind
          fun r => (kalloc 600 r.2.heap 2049).toOption.bind
            fun r => (kalloc 600 r.2 2048).toOption).isSome)) =
      some (fsDirectory, 0x50A0, 1, true, true) := by decide +kernel
  obtain ⟨sh, hShell, hFacts⟩ := Option.map_eq_some_iff.mp hEval
  simp only [Prod.mk.injEq] at hFacts
  obtain ⟨hFlags, hFinddir, hDev, hRoom, hBuffers⟩ := hFacts
  obtain ⟨⟨response, s₂⟩, hRoom⟩ := Option.isSome_iff_exists.mp hRoom
  obtain ⟨⟨buffer, s₁⟩, hBuf, hNode⟩ := Option.bind_eq_some_iff.mp hRoom
  obtain ⟨r, hBuffers⟩ := Option.isSome_iff_exists.mp hBuffers
  obtain ⟨⟨node, s⟩, hFind, hBuffers⟩ := Option.bind_eq_some_iff.mp hBuffers
  obtain ⟨⟨filebuf, heap₁⟩, hFilebuf, hBlockbuf⟩ := Option.bind_eq_some_iff.mp hBuffers
  obtain ⟨fsInfo, live, hInv, -, hDir⟩ := sampleShell_dirAt hShell
  have hRoot : (catDisk ((catDisk 16).load32 140)).load32 2 = 20 := by decide +kernel
  have hSec : IsDirectory (catDisk 20) ⟨34, 20, 2048, 2, [0]⟩ ⟨34, 20, 2048, 2, [1]⟩
      [⟨34, 21, 2050, 0, [0x41]⟩] := ⟨by decide +kernel, rfl, rfl, by decide⟩
  rw [hRoot] at hDir
  -- the node that the lookup makes is the one the command works on
  obtain ⟨s', hRun, hInv', hFileNode, hStable, hInfo⟩ := finddirFs_file hInv hDir hSec hFlags
    hFinddir (by omega) (Outcome.toOption_eq_some.mp hBuf) (Outcome.toOption_eq_some.mp hNode)
    (show lookup (CString.bytes ⟨[0x41], by decide⟩) _ =
      some ⟨34, 21, 2050, 0, [0x41]⟩ from rfl)
    (by decide) (by decide) (by decide)
  have hSame := hRun.symm.trans (Outcome.toOption_eq_some.mp hFind)
  simp only [Outcome.done.injEq, Prod.mk.injEq] at hSame
  obtain ⟨rfl, rfl⟩ := hSame
  rw [hDir.impl] at hDev
  rw [hDev] at hFileNode
  have hFile : IsFile (sampleEnv catDisk) 1 21 (List.replicate 2050 0x41) := by
    intro k hk
    rw [List.length_replicate] at hk
    have hLba : (21 + k / 2048) % 2 ^ 32 = 21 ∨ (21 + k / 2048) % 2 ^ 32 = 22 := by omega
    have hByte : ∀ lba, lba = 21 ∨ lba = 22 → catDisk lba = fun _ => 0x41 := by
      rintro lba (rfl | rfl) <;> rfl
    show catDisk _ _ = _
    rw [hByte _ hLba, List.get_eq_getElem, List.getElem_replicate]
  obtain ⟨fuel₀, s'', hCat⟩ :=
    cat_prints_file (sampleEnv catDisk) ⟨0x3000, sh.machine⟩ s' _ _ response fsInfo
    1 21 600 600 filebuf heap₁ r (List.replicate 2050 0x41)
    (by rw [List.length_replicate]; decide)
    (by rw [List.length_replicate]; decide)
      (fun hc => absurd (List.eq_of_mem_replicate hc) (by decide))
    hFile hRun hInv'
    (by rw [List.length_replicate]; exact hFileNode) hStable hInfo
    (Outcome.toOption_eq_some.mp hFilebuf) (Outcome.toOption_eq_some.mp hBlockbuf)
  exact ⟨sh, fuel₀, s'', hShell, hCat⟩

end Hexos
