import Hexos.Fs.Cat
import Hexos.Fs.Extent
import Hexos.Fs.Navigate
import Hexos.Shell.Definitions

/-!
# HexOS — what the calls of a command leave alone

A command allocates buffers and nodes, fills them and frees the buffers. `readdir`
also writes to a global of its file system, the answer it returns. What the shell
relies on later is held: it lies in an allocation that is still live, or in one of
the global nodes.

## Results

* `Keeps` — nothing held has changed, and nothing live was freed.
* `catLoop_keeps`, `lsLoop_keeps` — the loops of `cat` and `ls`.
* `finddir_keeps` — a lookup, with the node it makes.
* `recreate_keeps` — the way up, with the node it makes.
-/

namespace Hexos

open Mem

-- ---------------------------------------------------------------------------
-- Frames
-- ---------------------------------------------------------------------------

/-- Where the linker and the heap have put things: the pages of the heap meet neither
the global nodes nor the answers of the two `readdir` functions, and the answer of
`iso9660_readdir` meets no global node. -/
structure Layout (env : ShellEnv) (pages : List Nat) : Prop where
  nodes   : GlobalsApart env.toEnv pages
  answers : ∀ r ∈ [env.iso9660Resp, env.direntResp], ∀ addr ∈ pages,
    r + 260 ≤ addr ∨ addr + 4096 ≤ r
  apart   : ∀ g ∈ [env.fsRoot, env.fsMnt, env.fsCdromMnt],
    env.iso9660Resp + 260 ≤ g ∨ g + 332 ≤ env.iso9660Resp

/-- The range is inside a live allocation or a global node. -/
def Held (env : Env) (live : List Alloc) (k l : Nat) : Prop :=
  (∃ al ∈ live, al.ptr ≤ k ∧ k + l ≤ al.ptr + al.size) ∨
    ∃ g ∈ [env.fsRoot, env.fsMnt, env.fsCdromMnt], g ≤ k ∧ k + l ≤ g + 332

/-- From `s` to `s'` nothing held has changed, and what is live in `s'` includes what
was. -/
structure Keeps (env : Env) (s : Machine) (live : List Alloc) (s' : Machine) (live' : List Alloc) :
    Prop where
  inv   : s'.Inv live'
  pages : s'.pages = s.pages
  kept  : ∀ al ∈ live, al ∈ live'
  same  : ∀ k l, Held env live k l → SameOn s.mem s'.mem k l

variable {env : Env} {s s' s₁ s₂ : Machine} {live live' live₁ live₂ : List Alloc}

theorem Held.of_live {al : Alloc} (h : al ∈ live) : Held env live al.ptr al.size :=
  Or.inl ⟨al, h, le_refl _, le_refl _⟩

theorem Held.of_global {g : Nat} (h : g ∈ [env.fsRoot, env.fsMnt, env.fsCdromMnt]) :
    Held env live g 332 := Or.inr ⟨g, h, le_refl _, le_refl _⟩

theorem Held.mono {k l : Nat} (h : Held env live k l) (hSub : ∀ al ∈ live, al ∈ live') :
    Held env live' k l := by
  rcases h with ⟨al, hal, hIn⟩ | h
  · exact Or.inl ⟨al, hSub al hal, hIn⟩
  · exact Or.inr h

/-- What is held is stable. -/
theorem Held.stable {pages : List Nat} {k l : Nat} (h : Held env live k l)
    (hApart : GlobalsApart env pages) : Stable pages live k l := by
  rcases h with h | ⟨g, hg, hl, hr⟩
  · exact Or.inl h
  · exact (hApart.stable hg).sub hl hr

/-- What is held is not part of an answer. -/
theorem Held.off_answer {env : ShellEnv} {k l r : Nat} (h : Held env.toEnv live k l)
    (hInv : s.Inv live) (hLayout : Layout env s.pages)
    (hr : r ∈ [env.iso9660Resp, env.direntResp]) :
    r + 260 ≤ k ∨ k + l ≤ r := by
  rcases h with ⟨al, hal, hl, hu⟩ | ⟨g, hg, hl, hu⟩
  · obtain ⟨⟨addr, hAddr, hLow, hHigh⟩, -, -⟩ := hInv.range hal
    have := hLayout.answers r hr addr hAddr
    omega
  · have hIso := hLayout.apart g hg
    have hDirent := env.dirent_apart g hg
    simp only [List.mem_cons, List.not_mem_nil, or_false] at hr
    rcases hr with rfl | rfl <;> omega

namespace Keeps

theorem refl (hInv : s.Inv live') (hLive : ∀ al ∈ live, al ∈ live') :
    Keeps env s live s live' :=
  ⟨hInv, rfl, hLive, fun k l _ => SameOn.refl _ k l⟩

theorem trans (h : Keeps env s live s₁ live₁) (h' : Keeps env s₁ live s₂ live₂) :
    Keeps env s live s₂ live₂ :=
  ⟨h'.inv, h'.pages.trans h.pages, h'.kept,
    fun k l hk => (h.same k l hk).trans (h'.same k l hk)⟩

/-- Fewer allocations are looked at. -/
theorem mono (h : Keeps env s live s' live') (hSub : ∀ al ∈ live₁, al ∈ live) :
    Keeps env s live₁ s' live' :=
  ⟨h.inv, h.pages, fun al hal => h.kept al (hSub al hal),
    fun k l hk => h.same k l (hk.mono hSub)⟩

/-- A call that changes no stable memory. -/
theorem of_stable (hApart : GlobalsApart env s.pages) (hInv : s'.Inv live')
    (hPages : s'.pages = s.pages) (hLive : ∀ al ∈ live, al ∈ live')
    (hSame : ∀ k l, Stable s.pages live k l → SameOn s.mem s'.mem k l) :
    Keeps env s live s' live' :=
  ⟨hInv, hPages, hLive, fun k l hk => hSame k l (hk.stable hApart)⟩

theorem kalloc {fuel size ptr : Nat} (hInv : s.Inv live) (hSize : 1 ≤ size)
    (h : s.kalloc fuel size = .done (ptr, s')) : Keeps env s live s' (⟨ptr, size⟩ :: live) := by
  obtain ⟨hMem, hPages, hInv'⟩ := Machine.kalloc_spec hInv hSize h
  refine ⟨hInv', hPages, fun _ hal => List.mem_cons_of_mem _ hal, ?_⟩
  intro k l _
  rw [hMem]
  exact SameOn.refl _ k l

/-- The newest allocation is freed. -/
theorem kfree {a : Alloc} (hInv : s.Inv (a :: live)) (h : s.kfree a.ptr = .done s') :
    Keeps env s live s' live := by
  obtain ⟨s₁, hFree, hMem, hPages, hInv', -⟩ := hInv.kfree_newest s.mem
  obtain rfl : s₁ = s' := Outcome.done.inj (hFree.symm.trans h)
  refine ⟨hInv', hPages, fun _ hal => hal, ?_⟩
  intro k l _
  rw [hMem]
  exact SameOn.refl _ k l

/-- The newest allocation is written. -/
theorem write {a : Alloc} {m : Mem} (hApart : GlobalsApart env s.pages) (hInv : s.Inv (a :: live))
    (hFrame : SameOff s.mem m a.ptr a.size) : Keeps env s live { s with mem := m } (a :: live) :=
  ⟨hInv, rfl, fun _ hal => List.mem_cons_of_mem _ hal,
    fun _ _ hk => hFrame.sameOn ((hk.stable hApart).apart hInv)⟩

/-- A word of something held. -/
theorem load32 {a k n : Nat} (h : Keeps env s live s' live') (hHeld : Held env live a n)
    (hk : k + 4 ≤ n) :
    s'.mem.load32 (a + k) = s.mem.load32 (a + k) :=
  ((h.same a n hHeld).sub (by omega) (by omega)).load32

end Keeps

-- ---------------------------------------------------------------------------
-- Files
-- ---------------------------------------------------------------------------

section Files

variable {fuel node filebuf : Nat}

/-- **A chunk.** Of a file that is not empty, at most a block is read, and nothing is
written but the buffer of the shell. -/
theorem readFs_keeps {offset n : Nat} (hApart : GlobalsApart env s.pages)
    (hInv : s.Inv (⟨filebuf, 2049⟩ :: live)) (hLength : 1 ≤ s.mem.load32 (node + 276))
    (hPos : 1 ≤ n) (hLe : n ≤ 2048) (h : readFs env fuel s node offset n filebuf = .done s') :
    Keeps env s live s' (⟨filebuf, 2049⟩ :: live) := by
  have hHere : Keeps env s live s (⟨filebuf, 2049⟩ :: live) :=
    .refl hInv fun _ hal => List.mem_cons_of_mem _ hal
  unfold readFs at h
  simp only at h
  split at h
  · split at h
    · unfold iso9660Read at h
      simp only at h
      obtain ⟨readsize, hSize⟩ : ∃ r, r = if n > s.mem.load32 (node + 276) then
        s.mem.load32 (node + 276) else n := ⟨_, rfl⟩
      rw [← hSize] at h
      have hReadsize : 1 ≤ readsize ∧ readsize ≤ 2048 := by
        split at hSize <;> omega
      clear hSize
      obtain ⟨blocksize, hRound, h⟩ := Outcome.bind_eq_done.mp h
      obtain rfl : blocksize = 2048 := by
        have hBlocks := roundToBlocks_done (by omega) hRound
        omega
      obtain ⟨⟨blockbuf, s₁⟩, hAlloc, hFree⟩ := Outcome.bind_eq_done.mp h
      have hKalloc : Keeps env s (⟨filebuf, 2049⟩ :: live) s₁
        (⟨blockbuf, 2048⟩ :: ⟨filebuf, 2049⟩ :: live) := .kalloc hInv (by omega) hAlloc
      have hBuffers := hKalloc.inv.apart List.mem_cons_self
      simp only at hBuffers hFree
      obtain ⟨m, hm⟩ : ∃ m, m =
        (s₁.readBlock env (s₁.mem.load32 (s.mem.load32 (node + 280))) blockbuf
        ((s₁.mem.load32 (node + 272) + offset) % 2 ^ 32)).mem := ⟨_, rfl⟩
      have hBlock : SameOff s₁.mem m blockbuf 2048 := hm ▸ copyIn_sameOff _ _ _ _
      rw [← hm] at hFree
      have hCopy := (memcpy_spec m filebuf blockbuf readsize 0 (by omega)).2
      -- what is held meets neither buffer
      have hWrite : Keeps env s₁ live { s₁ with mem := memcpy m filebuf blockbuf readsize 0 }
          (⟨blockbuf, 2048⟩ :: ⟨filebuf, 2049⟩ :: live) := by
        refine ⟨hKalloc.inv, rfl,
          fun _ hal => List.mem_cons_of_mem _ (List.mem_cons_of_mem _ hal), ?_⟩
        intro k l hk
        have hStable := hk.stable hApart
        have hOffFile := hStable.apart hInv
        have hOffBlock := Stable.apart (by rw [hKalloc.pages]; exact hStable.cons _) hKalloc.inv
        simp only at hOffFile hOffBlock
        exact (hBlock.sameOn hOffBlock).trans (hCopy.sameOn (by omega))
      have hKfree : Keeps env { s₁ with mem := memcpy m filebuf blockbuf readsize 0 }
          (⟨filebuf, 2049⟩ :: live) s' (⟨filebuf, 2049⟩ :: live) := .kfree hWrite.inv hFree
      have hSub : ∀ al ∈ live, al ∈ (⟨filebuf, 2049⟩ :: live : List Alloc) :=
        fun _ hal => List.mem_cons_of_mem _ hal
      exact ((hKalloc.mono hSub).trans hWrite).trans (hKfree.mono hSub)
    · cases h
  · obtain rfl := Outcome.done.inj h
    exact hHere

/-- **The loop of `cat`**, for a file whose node is live and whose length is neither 0
nor negative. -/
theorem catLoop_keeps {rounds : Nat} {left offset : Int} {text : List UInt8}
    (hApart : GlobalsApart env s.pages) (hInv : s.Inv (⟨filebuf, 2049⟩ :: live))
    (hNode : ⟨node, 332⟩ ∈ live) (hLength : 1 ≤ s.mem.load32 (node + 276))
    (hPos : 1 ≤ left)
    (h : catLoop env fuel node filebuf rounds s left offset = .done (text, s')) :
    Keeps env s live s' (⟨filebuf, 2049⟩ :: live) := by
  induction rounds generalizing s left offset text with
  | zero => cases h
  | succ rounds ih =>
    have hTop := (hInv.range List.mem_cons_self).2.2
    simp only at hTop
    rw [catLoop] at h
    simp only at h
    obtain ⟨n, hn, hPosN, hLeN⟩ : ∃ n : Nat,
      (if left ≥ 2048 then 2048 else left) = (n : Int) ∧
        1 ≤ n ∧ n ≤ 2048 := by
      refine ⟨(if left ≥ 2048 then 2048 else left).toNat, ?_, ?_, ?_⟩ <;> split <;> omega
    rw [hn, wordOf_natCast (by omega), show wordOf ((filebuf : Int) + n) = filebuf + n from
      (congrArg wordOf (Int.natCast_add filebuf n).symm).trans (wordOf_natCast (by omega))] at h
    obtain ⟨s₁, hRead, h⟩ := Outcome.bind_eq_done.mp h
    have hChunk := readFs_keeps hApart hInv hLength hPosN hLeN hRead
    have hApart₁ : GlobalsApart env s₁.pages := hChunk.pages ▸ hApart
    -- the terminator
    have hNul : Keeps env s₁ live { s₁ with mem := s₁.mem.store8 (filebuf + n) 0 }
        (⟨filebuf, 2049⟩ :: live) :=
      .write hApart₁ hChunk.inv ((store8_sameOff _ _ _).sub (by simp) (by simp; omega))
    have hRound := hChunk.trans hNul
    obtain ⟨chunk, -, h⟩ := Outcome.bind_eq_done.mp h
    split at h
    · obtain ⟨-, rfl⟩ := Prod.mk.inj (Outcome.done.inj h)
      exact hRound
    · obtain ⟨⟨rest, s₂⟩, hRest, hEq⟩ := Outcome.map_eq_done.mp h
      obtain ⟨-, rfl⟩ := Prod.mk.inj hEq
      refine hRound.trans (ih (by rw [hNul.pages]; exact hApart₁) hRound.inv ?_ (by omega) hRest)
      rw [hRound.load32 (.of_live hNode) (k := 276) (by simp)]
      exact hLength

end Files

-- ---------------------------------------------------------------------------
-- Listings
-- ---------------------------------------------------------------------------

/-- The directory at `dir` can be listed: it is one of the virtual file system, or a
well-formed one of a volume. -/
def Listable (env : ShellEnv) (s : Machine) (live : List Alloc) (dir : Nat) : Prop :=
  s.mem.load32 (dir + 300) = env.rootReaddir ∨
    ∃ fsInfo inode sec dot dotDot rest, Held env.toEnv live fsInfo 16 ∧
      DirAt env.toEnv s live dir fsInfo inode sec ∧ IsDirectory sec dot dotDot rest

section Listings

variable {env : ShellEnv} {fuel dir : Nat}

theorem storeDirent_sameOff (m : Mem) (resp : Nat) {name : List UInt8} (h : name.length ≤ 255) :
    SameOff m (storeDirent m resp name) resp 260 := by
  unfold storeDirent
  have hName :=
    (storeString_sameOff name m (resp + 4)).sub (a := resp) (n := 260) (by omega) (by omega)
  exact (hName.trans ((store8_sameOff _ _ _).sub (by omega) (by omega))).trans
    ((store32_sameOff _ _ _).sub (by omega) (by omega))

/-- Only an answer is written. -/
theorem Keeps.answer {r : Nat} {m : Mem} (hLayout : Layout env s.pages) (hInv : s.Inv live)
    (hr : r ∈ [env.iso9660Resp, env.direntResp]) (hFrame : SameOff s.mem m r 260) :
    Keeps env.toEnv s live { s with mem := m } live :=
  ⟨hInv, rfl, fun _ hal => hal,
    fun _ _ hk => hFrame.sameOn ((hk.off_answer hInv hLayout hr).symm)⟩

theorem rootReaddir_keeps {i : Nat} (hLayout : Layout env s.pages) (hInv : s.Inv live) :
    Keeps env.toEnv s live (rootReaddir env s dir i).2 live := by
  have hSame : Keeps env.toEnv s live s live := .refl hInv fun _ hal => hal
  have hStore : ∀ {name : List UInt8}, name.length ≤ 255 →
      Keeps env.toEnv s live { s with mem := storeDirent s.mem env.direntResp name } live :=
    fun hName => .answer hLayout hInv (by simp) (storeDirent_sameOff _ _ hName)
  unfold rootReaddir
  simp only
  split
  · split
    · exact hStore (by decide)
    · exact hSame
  · split
    · split
      · exact hStore (by decide)
      · exact hSame
    · exact hSame

/-- **One call of `readdir_fs`.** -/
theorem readdirFs_keeps {i p : Nat} (hLayout : Layout env s.pages) (hInv : s.Inv live)
    (hList : Listable env s live dir) (hFuel : 256 ≤ fuel)
    (h : readdirFs env fuel s dir i = .done (p, s')) : Keeps env.toEnv s live s' live := by
  unfold readdirFs at h
  simp only at h
  split at h
  · split at h
    · obtain rfl := congrArg Prod.snd (Outcome.done.inj h)
      exact rootReaddir_keeps hLayout hInv
    · next hNotRoot =>
      split at h
      · obtain ⟨fsInfo, inode, sec, dot, dotDot, rest, -, hDir, hSec⟩ :=
          hList.resolve_left hNotRoot
        have hDone := h
        unfold iso9660Readdir at h
        obtain ⟨⟨buffer, s₁⟩, hBuf, -⟩ := Outcome.bind_eq_done.mp h
        obtain ⟨q, s'', hRun, hInv', hPages, -, hSame, -⟩ :=
          iso9660Readdir_spec (i := i) hInv hDir hSec
          (hLayout.answers _ (by simp)) hFuel hBuf
        obtain ⟨rfl, rfl⟩ : q = p ∧ s'' = s' := by simpa using hRun.symm.trans hDone
        exact ⟨hInv', hPages, fun _ hal => hal, fun k l hk =>
          hSame k l (hk.stable hLayout.nodes) (hk.off_answer hInv hLayout (by simp))⟩
      · cases h
  · obtain ⟨-, rfl⟩ := Prod.mk.inj (Outcome.done.inj h)
    exact .refl hInv fun _ hal => hal

theorem Listable.keep (h : Listable env s live dir) (hHeld : Held env.toEnv live dir 332)
    (hKeeps : Keeps env.toEnv s live s' live) : Listable env s' live dir := by
  rcases h with hRoot | ⟨fsInfo, inode, sec, dot, dotDot, rest, hInfo, hDir, hSec⟩
  · exact Or.inl ((hKeeps.load32 hHeld (by omega)).trans hRoot)
  · exact Or.inr ⟨fsInfo, inode, sec, dot, dotDot, rest, hInfo,
      hDir.congr hKeeps.pages (hKeeps.same _ _ hHeld) (hKeeps.same _ _ hInfo), hSec⟩

/-- **The loop of `ls`.** -/
theorem lsLoop_keeps {rounds i : Nat} {text : List UInt8} (hLayout : Layout env s.pages)
    (hInv : s.Inv live) (hHeld : Held env.toEnv live dir 332) (hList : Listable env s live dir)
    (hFuel : 256 ≤ fuel) (h : lsLoop env fuel dir rounds s i = .done (text, s')) :
    Keeps env.toEnv s live s' live := by
  induction rounds generalizing s i text with
  | zero => cases h
  | succ rounds ih =>
    rw [lsLoop] at h
    obtain ⟨⟨entry, s₁⟩, hEntry, h⟩ := Outcome.bind_eq_done.mp h
    have hCall := readdirFs_keeps hLayout hInv hList hFuel hEntry
    simp only at h
    split at h
    · obtain ⟨line, -, h⟩ := Outcome.bind_eq_done.mp h
      obtain ⟨⟨rest, s₂⟩, hRest, hEq⟩ := Outcome.map_eq_done.mp h
      obtain ⟨-, rfl⟩ := Prod.mk.inj hEq
      exact hCall.trans
        (ih (by rw [hCall.pages]; exact hLayout) hCall.inv (hList.keep hHeld hCall) hRest)
    · obtain ⟨-, rfl⟩ := Prod.mk.inj (Outcome.done.inj h)
      exact hCall

end Listings

-- ---------------------------------------------------------------------------
-- Lookups and the way up
-- ---------------------------------------------------------------------------

section Nodes

variable {fuel fsInfo dev : Nat}

/-- **A lookup** in a well-formed directory. -/
theorem finddir_keeps {dir inode p : Nat} {sec : Mem} {dot dotDot : DirRecord}
    {rest : List DirRecord} {name : CString} (hApart : GlobalsApart env s.pages) (hInv : s.Inv live)
    (hDir : DirAt env s live dir fsInfo inode sec) (hSec : IsDirectory sec dot dotDot rest)
    (hFuel : 256 ≤ fuel) (h : iso9660Finddir env fuel s dir name = .done (p, s')) :
    (p = 0 ∧ Keeps env s live s' live) ∨ ∃ r, lookup name.bytes rest = some r ∧
      Keeps env s live s' (⟨p, 332⟩ :: live) ∧
      NodeAt env s'.mem p (if r.flags &&& 2 ≠ 0 then fsDirectory else fsFile) r.lba r.fileLength
        fsInfo ⟨inode, fsInfo, s.mem.load32 (dir + 308)⟩ := by
  obtain ⟨hPages, hSame, hCases⟩ := iso9660Finddir_cases hInv hDir hSec hFuel h
  rcases hCases with ⟨-, rfl, hInv'⟩ | ⟨r, hLook, hInv', hNode⟩
  · exact Or.inl ⟨rfl, .of_stable hApart hInv' hPages (fun _ hal => hal) hSame⟩
  · exact Or.inr ⟨r, hLook,
      .of_stable hApart hInv' hPages (fun _ hal => List.mem_cons_of_mem _ hal) hSame, hNode⟩

/-- The links that the shell can follow: to a global node, or to a directory of the
volume. -/
def FsNodeMini.Link (env : Env) (fsInfo : Nat) (mini : FsNodeMini) : Prop :=
  mini.recreate = env.rootRecreate ∨ (mini.impl = fsInfo ∧ mini.recreate = env.iso9660Recreate)

/-- What the path table says about a parent: its words, and that the shell can follow
the link. -/
theorem pathParent_link {m : Mem} {t p : Nat} {first : Bool} {parent : FsNodeMini}
    (hWord : fsInfo < 2 ^ 32) (hVolume : VolumeAt m fsInfo dev ⟨1, 0, env.rootRecreate⟩)
    (h : pathParent env m fsInfo t p first = some parent) :
    parent.Words ∧ parent.Link env fsInfo := by
  unfold pathParent at h
  split at h
  · obtain rfl := Option.some.inj h
    refine ⟨⟨load32_lt _ _, load32_lt _ _, load32_lt _ _⟩, Or.inl ?_⟩
    rw [hVolume.mountpoint]
  · obtain ⟨q, -, rfl⟩ := Option.map_eq_some_iff.mp h
    exact ⟨⟨load32_lt _ _, hWord, (env.words env.iso9660Recreate (by simp)).2⟩,
      Or.inr ⟨rfl, rfl⟩⟩

/-- **The way up.** A call that returns a node has made the node of a directory, whatever
the path table is, if the sector of the directory starts with a '.' record. -/
theorem recreate_keeps {lba dotLba recreate node : Nat} (hApart : GlobalsApart env s.pages)
    (hInv : s.Inv live) (hInfo : ⟨fsInfo, 16⟩ ∈ live)
    (hVolume : VolumeAt s.mem fsInfo dev ⟨1, 0, env.rootRecreate⟩)
    (hDot : IsDot (env.devices dev lba) dotLba) (hFuel : 0 < fuel)
    (h : iso9660Recreate env fuel s ⟨lba, fsInfo, recreate⟩ = .done (node, s'))
    (hNode : node ≠ 0) :
    ∃ r inode parent, Keeps env s live s' (⟨node, 332⟩ :: ⟨r, 332⟩ :: live) ∧
      viewNode s'.mem node = volumeView env fsInfo inode parent ∧ parent.Link env fsInfo := by
  have hStable : Stable s.pages live fsInfo 16 := stable_of_live hInfo
  have hWord : fsInfo < 2 ^ 32 := by
    have hTop := (hInv.range hInfo).2.2
    simp only at hTop
    omega
  obtain ⟨entryBuffer, hCalls⟩ := recreateCalls_of_node h hNode
  obtain ⟨m, r, t, heap, hAlloc, hInv', hAligned, hSame, -, hEntry, hCall⟩ :=
    iso9660Recreate_buffers lba hInv hStable hVolume hCalls recreate
  rw [hCall] at h
  obtain ⟨found, -, h⟩ := Outcome.bind_eq_done.mp h
  split at h
  · obtain ⟨rfl, -⟩ := Prod.mk.inj (Outcome.done.inj h)
    exact absurd rfl hNode
  · next parent hParent =>
    obtain ⟨⟨p, first⟩, -, hParent⟩ := Option.bind_eq_some_iff.mp hParent
    obtain ⟨hWords, hLink⟩ := pathParent_link hWord (hVolume.congr (hSame _ _ hStable)) hParent
    obtain ⟨m', inode, hRun, hView, hFrame, -⟩ :=
      entryToNodeMini_dot env hAlloc hAligned hDot hEntry
      hFuel hWord hWords
    obtain ⟨heap', m''⟩ := s'
    obtain rfl : m' = m'' := by simpa using hRun.symm.trans h
    refine ⟨r, inode, parent, .of_stable hApart (hInv' m').1 (hInv' m').2
      (fun _ hal => List.mem_cons_of_mem _ (List.mem_cons_of_mem _ hal)) ?_, hView, hLink⟩
    intro k l hk
    have hOff := Stable.apart (by rw [(hInv' m').2]; exact hk.cons _) (hInv' m').1
    exact (hSame k l hk).trans (hFrame.sameOn hOff)

end Nodes

end Hexos
