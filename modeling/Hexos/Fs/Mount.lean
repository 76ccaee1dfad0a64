import Hexos.Fs.Node

/-!
# HexOS — the mounted volume

What `vfs_init` and `iso9660_init_volume` leave in memory: the three global
nodes, and the `iso9660_fs` record of the volume.

## Results

* `viewNode` — the words of a node that the shell and the callbacks read.
* `Mounted` — the globals and the volume record after the mount.
* `mountCdrom_spec` — a mount that returns establishes it.
-/

namespace Hexos

open Mem

-- ---------------------------------------------------------------------------
-- Nodes as they are read
-- ---------------------------------------------------------------------------

/-- The words of a node that are read again: all but the name, the attributes
and the callbacks for files. -/
structure NodeView where
  flags    : Nat
  inode    : Nat
  impl     : Nat
  finddir  : Nat
  recreate : Nat
  freeNode : Nat
  parent   : FsNodeMini
deriving DecidableEq

/-- The node at `a`. -/
def viewNode (m : Mem) (a : Nat) : NodeView :=
  ⟨m.load32 (a + 268), m.load32 (a + 272), m.load32 (a + 280), m.load32 (a + 304),
    m.load32 (a + 308), m.load32 (a + 312), loadMini m (a + 316)⟩

theorem loadMini_congr {m m' : Mem} {a : Nat} (h : SameOn m m' a 12) :
    loadMini m' a = loadMini m a := by
  unfold loadMini
  rw [(h.sub (k := a) (l := 4) (by omega) (by omega)).load32,
    (h.sub (k := a + 4) (l := 4) (by omega) (by omega)).load32,
    (h.sub (k := a + 8) (l := 4) (by omega) (by omega)).load32]

theorem viewNode_congr {m m' : Mem} {a : Nat} (h : SameOn m m' a 332) :
    viewNode m' a = viewNode m a := by
  have hWord : ∀ k, k + 4 ≤ 332 → m'.load32 (a + k) = m.load32 (a + k) :=
    fun k hk => (h.sub (by omega) (by omega)).load32
  unfold viewNode
  rw [hWord 268 (by omega), hWord 272 (by omega), hWord 280 (by omega), hWord 304 (by omega),
    hWord 308 (by omega), hWord 312 (by omega),
    loadMini_congr (h.sub (k := a + 316) (l := 12) (by omega) (by omega))]

theorem NodeAt.view {env : Env} {m : Mem} {a flags inode length fsInfo : Nat} {parent : FsNodeMini}
    (h : NodeAt env m a flags inode length fsInfo parent) :
    viewNode m a = ⟨flags, inode, fsInfo, env.iso9660Finddir, env.iso9660Recreate,
      env.iso9660FreeNode, parent⟩ := by
  unfold viewNode
  rw [h.flags, h.inode, h.impl, h.finddir, h.recreate, h.freeNode, h.parent]

-- ---------------------------------------------------------------------------
-- The global nodes
-- ---------------------------------------------------------------------------

/-- The node `fs_root`. -/
def rootView (env : Env) : NodeView :=
  ⟨fsDirectory, 0, 0, env.rootFinddir, env.rootRecreate, env.rootFreeNode, ⟨0, 0, 0⟩⟩

/-- The node `fs_mnt`. -/
def mntView (env : Env) : NodeView :=
  ⟨fsDirectory, 1, 0, env.rootFinddir, env.rootRecreate, env.rootFreeNode,
    ⟨0, 0, env.rootRecreate⟩⟩

/-- The node `fs_cdrom_mnt` with a volume whose root directory is at `rootLba`. -/
def cdromView (env : Env) (rootLba fsInfo : Nat) : NodeView :=
  ⟨fsDirectory, rootLba, fsInfo, env.iso9660Finddir, env.rootRecreate, env.rootFreeNode,
    ⟨1, 0, env.rootRecreate⟩⟩

/-- The globals are zero when the kernel starts. -/
def Bss (env : Env) (m : Mem) : Prop :=
  ∀ g ∈ [env.fsRoot, env.fsMnt, env.fsCdromMnt], ∀ k, k + 4 ≤ 332 → m.load32 (g + k) = 0

/-- The globals lie outside the pages of the heap. -/
def GlobalsApart (env : Env) (pages : List Nat) : Prop :=
  ∀ addr ∈ pages, ∀ g ∈ [env.fsRoot, env.fsMnt, env.fsCdromMnt],
    g + 332 ≤ addr ∨ addr + 4096 ≤ g

theorem GlobalsApart.stable {env : Env} {pages : List Nat} {live : List Alloc} {g : Nat}
    (h : GlobalsApart env pages) (hg : g ∈ [env.fsRoot, env.fsMnt, env.fsCdromMnt]) :
    Stable pages live g 332 := Or.inr fun addr hAddr => h addr hAddr g hg

theorem storeString_sameOff (str : List UInt8) (m : Mem) (d : Nat) :
    SameOff m (storeString m d str) d (str.length + 1) := by
  induction str generalizing m d with
  | nil => exact store8_sameOff m d 0
  | cons c cs ih =>
    intro i hi
    simp only [List.length_cons] at hi
    rw [storeString, ih _ _ i (by omega), store8_other (by omega)]

theorem load32_storeString_mnt {m : Mem} {d b : Nat} (h : d + 4 ≤ b ∨ b + 4 ≤ d) :
    (storeString m d CString.mnt.bytes).load32 b = m.load32 b :=
  ((storeString_sameOff CString.mnt.bytes m d).sameOn (by simpa [CString.mnt] using h.symm)).load32

theorem initMnt_spec (env : Env) {m : Mem}
    (hBss : ∀ k, k + 4 ≤ 332 → m.load32 (env.fsMnt + k) = 0) :
    viewNode (initMnt env m) env.fsMnt = mntView env ∧
    SameOff m (initMnt env m) env.fsMnt 332 := by
  have hFinddir := (env.words env.rootFinddir (by simp)).2
  have hRecreate := (env.words env.rootRecreate (by simp)).2
  have hFreeNode := (env.words env.rootFreeNode (by simp)).2
  have hImpl := hBss 280 (by omega)
  have hParent := hBss (316 + 4) (by omega)
  constructor
  · unfold viewNode loadMini initMnt mntView
    simp (disch := omega) only [load32_store32_other, load32_storeString_mnt,
      load32_store32 hFinddir, load32_store32 hRecreate, load32_store32 hFreeNode, load32_store32,
      fsDirectory, hImpl, hParent, Nat.add_assoc, Nat.reduceAdd]
  · have hName := storeString_sameOff CString.mnt.bytes m env.fsMnt
    intro i hi
    unfold initMnt
    simp (disch := omega) only [store32_other]
    exact hName i (by simp only [CString.mnt, List.length_cons, List.length_nil]; omega)

theorem initRoot_spec (env : Env) {m : Mem}
    (hBss : ∀ k, k + 4 ≤ 332 → m.load32 (env.fsRoot + k) = 0) :
    viewNode (initRoot env m) env.fsRoot = rootView env ∧
    SameOff m (initRoot env m) env.fsRoot 332 := by
  have hFinddir := (env.words env.rootFinddir (by simp)).2
  have hRecreate := (env.words env.rootRecreate (by simp)).2
  have hFreeNode := (env.words env.rootFreeNode (by simp)).2
  have hImpl := hBss 280 (by omega)
  have hInode := hBss 316 (by omega)
  have hParent := hBss (316 + 4) (by omega)
  constructor
  · unfold viewNode loadMini initRoot rootView
    simp (disch := omega) only [load32_store32_other, load32_store32 hFinddir,
      load32_store32 hRecreate, load32_store32 hFreeNode, load32_store32, fsDirectory, hImpl,
      hInode, hParent, Nat.add_assoc, Nat.reduceAdd]
  · intro i hi
    unfold initRoot
    simp (disch := omega) only [store32_other]

theorem vfsInit_spec (env : Env) {m : Mem} (hBss : Bss env m) :
    viewNode (vfsInit env m) env.fsRoot = rootView env ∧
    viewNode (vfsInit env m) env.fsMnt = mntView env ∧
    (vfsInit env m).load32 (env.fsCdromMnt + 308) = env.rootRecreate ∧
    (vfsInit env m).load32 (env.fsCdromMnt + 312) = env.rootFreeNode := by
  have hRecreate := (env.words env.rootRecreate (by simp)).2
  have hFreeNode := (env.words env.rootFreeNode (by simp)).2
  obtain ⟨hRootMnt, hRootCdrom, hMntCdrom⟩ := env.nodes_apart
  obtain ⟨hMnt, hMntFrame⟩ := initMnt_spec env (hBss env.fsMnt (by simp))
  obtain ⟨hRoot, hRootFrame⟩ := initRoot_spec env (m := initMnt env m) fun k hk => by
    rw [(hMntFrame.sameOn (by omega)).load32]
    exact hBss env.fsRoot (by simp) k hk
  have hCdromFrame : SameOff (initRoot env (initMnt env m)) (vfsInit env m) env.fsCdromMnt 332 := by
    intro i hi
    unfold vfsInit
    simp (disch := omega) only [store32_other]
  refine ⟨?_, ?_, ?_, ?_⟩
  · rw [viewNode_congr (hCdromFrame.sameOn (by omega)), hRoot]
  · rw [viewNode_congr (hCdromFrame.sameOn (by omega)),
      viewNode_congr (hRootFrame.sameOn (by omega)), hMnt]
  · unfold vfsInit
    rw [load32_store32_other (by omega), load32_store32 hRecreate]
  · unfold vfsInit
    rw [load32_store32 hFreeNode]

theorem initTarget_spec (env : Env) (m : Mem) (target buffer2 : Nat) {fsInfo : Nat}
    {parent : FsNodeMini} (hInfo : fsInfo < 2 ^ 32) (hParent : parent.Words) :
    viewNode (initTarget env m target fsInfo buffer2 parent) target =
      ⟨fsDirectory, m.load32 (buffer2 + 2), fsInfo, env.iso9660Finddir, m.load32 (target + 308),
        m.load32 (target + 312), parent⟩ ∧
    SameOff m (initTarget env m target fsInfo buffer2 parent) target 332 := by
  have hFinddir := (env.words env.iso9660Finddir (by simp)).2
  have hLba := load32_lt m (buffer2 + 2)
  obtain ⟨h1, h2, h3⟩ := hParent
  constructor
  · unfold viewNode loadMini initTarget storeMini
    simp (disch := omega) only [load32_store32_other, load32_storeString_mnt,
      load32_store32 hFinddir, load32_store32 hLba, load32_store32 hInfo, load32_store32 h1,
      load32_store32 h2, load32_store32 h3, load32_store32, fsDirectory]
  · intro i hi
    unfold initTarget storeMini
    simp (disch := omega) only [store32_other]
    rw [storeString_sameOff CString.mnt.bytes _ target i
      (by simp only [CString.mnt, List.length_cons, List.length_nil]; omega)]
    simp (disch := omega) only [store32_other]

-- ---------------------------------------------------------------------------
-- The mount
-- ---------------------------------------------------------------------------

/-- The sector of the path table of the volume on a device. -/
def pathTableSector (env : Env) (dev : Nat) : Mem :=
  env.devices dev ((env.devices dev iso9660Offset).load32 140)

/-- The record of a volume: its device and the parent of its mount point. -/
structure VolumeAt (m : Mem) (fsInfo dev : Nat) (mountpoint : FsNodeMini) : Prop where
  dev        : m.load32 fsInfo = dev
  mountpoint : loadMini m (fsInfo + 4) = mountpoint

theorem VolumeAt.congr {m m' : Mem} {fsInfo dev : Nat} {mountpoint : FsNodeMini}
    (h : VolumeAt m fsInfo dev mountpoint) (hSame : SameOn m m' fsInfo 16) :
    VolumeAt m' fsInfo dev mountpoint := by
  constructor
  · rw [(hSame.sub (k := fsInfo) (l := 4) (by omega) (by omega)).load32, h.dev]
  · rw [loadMini_congr (hSame.sub (by omega) (by omega)), h.mountpoint]

/-- The global nodes and the volume after the mount. -/
structure Mounted (env : Env) (m : Mem) (dev fsInfo : Nat) : Prop where
  root   : viewNode m env.fsRoot = rootView env
  mnt    : viewNode m env.fsMnt = mntView env
  cdrom  : viewNode m env.fsCdromMnt = cdromView env ((pathTableSector env dev).load32 2) fsInfo
  volume : VolumeAt m fsInfo dev ⟨1, 0, env.rootRecreate⟩

/-- What changes neither the global nodes nor the record of the volume keeps the
mount. -/
theorem Mounted.congr {env : Env} {m m' : Mem} {dev fsInfo : Nat} (h : Mounted env m dev fsInfo)
    (hNodes : ∀ g ∈ [env.fsRoot, env.fsMnt, env.fsCdromMnt], SameOn m m' g 332)
    (hInfo : SameOn m m' fsInfo 16) : Mounted env m' dev fsInfo := by
  have hView : ∀ g ∈ [env.fsRoot, env.fsMnt, env.fsCdromMnt], viewNode m' g = viewNode m g :=
    fun g hg => viewNode_congr (hNodes g hg)
  refine ⟨?_, ?_, ?_, h.volume.congr hInfo⟩
  · rw [hView _ (by simp), h.root]
  · rw [hView _ (by simp), h.mnt]
  · rw [hView _ (by simp), h.cdrom]

/-- The buffers of `iso9660_init_volume`: before the stores to the mount point, a memory
`m` has the record of the volume and the path table, and the global nodes are as they
were. -/
theorem iso9660InitVolume_buffers {env : Env} {fuel dev target : Nat} {targetParent : FsNodeMini}
    {s s' : Machine} {live : List Alloc} (hInv : s.Inv live) (hApart : GlobalsApart env s.pages)
    (hDev : dev < 2 ^ 32) (hParent : targetParent.Words)
    (h : iso9660InitVolume env fuel s dev target targetParent = .done s') :
    ∃ fsInfo buffer2 m, s'.mem = initTarget env m target fsInfo buffer2 targetParent ∧
      s'.Inv (⟨buffer2, 2048⟩ :: ⟨fsInfo, 16⟩ :: live) ∧ s'.pages = s.pages ∧
      VolumeAt m fsInfo dev targetParent ∧
      m.load32 (buffer2 + 2) = (pathTableSector env dev).load32 2 ∧
      ∀ g ∈ [env.fsRoot, env.fsMnt, env.fsCdromMnt], SameOn s.mem m g 332 := by
  unfold iso9660InitVolume at h
  obtain ⟨⟨fsInfo, s₁⟩, hInfo, h⟩ := Outcome.bind_eq_done.mp h
  obtain ⟨⟨buffer, s₂⟩, hBuffer, h⟩ := Outcome.bind_eq_done.mp h
  obtain ⟨s₃, hFree, h⟩ := Outcome.bind_eq_done.mp h
  obtain ⟨⟨buffer2, s₄⟩, hBuffer2, hEnd⟩ := Outcome.map_eq_done.mp h
  obtain ⟨hMem₁, hPages₁, hInv₁⟩ := Machine.kalloc_spec hInv (by decide) hInfo
  obtain ⟨hMem₂, hPages₂, hInv₂⟩ := Machine.kalloc_spec hInv₁ (by omega) hBuffer
  -- the first buffer is freed before the volume descriptor in it is read
  obtain ⟨s₃', hFree', hMem₃, hPages₃, hInv₃, -⟩ :=
    hInv₂.kfree_newest (s₂.readBlock env dev buffer iso9660Offset).mem
  obtain rfl : s₃' = s₃ := Outcome.done.inj (hFree'.symm.trans hFree)
  obtain ⟨hMem₄, hPages₄, hInv₄⟩ := Machine.kalloc_spec hInv₃ (by omega) hBuffer2
  have hPagesEnd : s₄.pages = s.pages :=
    hPages₄.trans (hPages₃.trans (hPages₂.trans hPages₁))
  have hBuffers := hInv₄.apart List.mem_cons_self
  simp only [sizeofIso9660Fs] at hBuffers
  obtain ⟨m, hm⟩ : ∃ m, m =
    storeMini ((s₄.mem.copyIn buffer2 2048 (pathTableSector env dev)).store32
      fsInfo dev) (fsInfo + 4) targetParent := ⟨_, rfl⟩
  have hTable : s₄.mem.load32 (buffer + 140) = (env.devices dev iso9660Offset).load32 140 := by
    rw [hMem₄, hMem₃]
    exact load32_copyIn (by omega)
  have hMachine : ⟨s₄.heap, initTarget env m target fsInfo buffer2 targetParent⟩ = s' := by
    rw [hm, ← hEnd]
    simp only [Machine.readBlock, hTable]
    rfl
  refine ⟨fsInfo, buffer2, m, by rw [← hMachine], by rw [← hMachine]; exact hInv₄,
    by rw [← hMachine]; exact hPagesEnd, ?_, ?_, ?_⟩
  · rw [hm]
    refine ⟨?_, loadMini_storeMini hParent⟩
    rw [((storeMini_sameOff _ _ _).sameOn (by omega)).load32, load32_store32 hDev]
  · rw [hm, ((storeMini_sameOff _ _ _).sameOn (by omega)).load32, load32_store32_other (by omega),
      load32_copyIn (by omega)]
  · intro g hg
    -- no buffer meets a global
    have hStable : ∀ {s' : Machine} {live' : List Alloc}, s'.pages = s.pages →
        Stable s'.pages live' g 332 := fun hp => GlobalsApart.stable (by rw [hp]; exact hApart) hg
    have h₁ := (hStable hPages₁).apart hInv₁
    have h₂ := (hStable (hPages₂.trans hPages₁)).apart hInv₂
    have h₄ := (hStable hPagesEnd).apart hInv₄
    simp only [sizeofIso9660Fs] at h₁
    have hRead : SameOn s.mem s₄.mem g 332 := by
      rw [hMem₄, hMem₃]
      unfold Machine.readBlock
      rw [hMem₂, hMem₁]
      exact (copyIn_sameOff _ _ _ _).sameOn h₂
    rw [hm]
    exact ((hRead.trans ((copyIn_sameOff _ _ _ _).sameOn h₄)).trans
      ((store32_sameOff _ _ _).sameOn (by omega))).trans ((storeMini_sameOff _ _ _).sameOn
      (by omega))

/-- **The mount.** When it returns, the shell is in the root directory, the
record of the volume and one buffer are allocated, and the globals are set; the
nodes above the mount point are as `vfs_init` has left them. -/
theorem mountCdrom_frame {env : Env} {fuel dev : Nat} {s : Machine} {live : List Alloc} {sh : Shell}
    (hInv : s.Inv live) (hApart : GlobalsApart env s.pages) (hBss : Bss env s.mem)
    (hDev : dev < 2 ^ 32) (h : mountCdrom env fuel s dev = .done sh) :
    ∃ fsInfo buffer2, sh.currentDir = env.fsRoot ∧
      sh.machine.Inv (⟨buffer2, 2048⟩ :: ⟨fsInfo, 16⟩ :: live) ∧
      sh.machine.pages = s.pages ∧
      Mounted env sh.machine.mem dev fsInfo ∧
      ∀ g ∈ [env.fsRoot, env.fsMnt], SameOn (vfsInit env s.mem) sh.machine.mem g 332 := by
  have hRecreate := (env.words env.rootRecreate (by simp)).2
  have hMini : FsNodeMini.Words ⟨1, 0, env.rootRecreate⟩ :=
    ⟨show 1 < 2 ^ 32 by omega, show 0 < 2 ^ 32 by omega, hRecreate⟩
  obtain ⟨s', hRun, rfl⟩ := Outcome.map_eq_done.mp h
  have hInv₀ : Machine.Inv { s with mem := vfsInit env s.mem } live := hInv
  obtain ⟨fsInfo, buffer2, m, hMem, hInv', hPages, hVolume, hLba, hSame⟩ :=
    iso9660InitVolume_buffers hInv₀ hApart hDev hMini hRun
  have hInfo : ⟨fsInfo, 16⟩ ∈
      (⟨buffer2, 2048⟩ :: ⟨fsInfo, 16⟩ :: live : List Alloc) := by simp
  obtain ⟨⟨addr, hAddr, hLow, hHigh⟩, -, hTop⟩ := hInv'.range hInfo
  have hInfoCdrom := hApart addr (hPages ▸ hAddr) env.fsCdromMnt (by simp)
  simp only at hLow hHigh hTop
  obtain ⟨hRoot, hMnt, hRec, hFreeNode⟩ := vfsInit_spec env hBss
  obtain ⟨hView, hFrame⟩ := initTarget_spec env m env.fsCdromMnt buffer2
    (show fsInfo < 2 ^ 32 by omega) hMini
  have hCdrom := hSame env.fsCdromMnt (by simp)
  rw [hLba, (hCdrom.sub (k := env.fsCdromMnt + 308) (by omega) (by omega)).load32, hRec,
    (hCdrom.sub (k := env.fsCdromMnt + 312) (by omega) (by omega)).load32, hFreeNode] at hView
  obtain ⟨-, hRootCdrom, hMntCdrom⟩ := env.nodes_apart
  have hAbove : ∀ g ∈ [env.fsRoot, env.fsMnt], SameOn (vfsInit env s.mem) s'.mem g 332 := by
    intro g hg
    rw [hMem]
    simp only [List.mem_cons, List.not_mem_nil, or_false] at hg
    rcases hg with rfl | rfl
    · exact (hSame _ (by simp)).trans (hFrame.sameOn (by omega))
    · exact (hSame _ (by simp)).trans (hFrame.sameOn (by omega))
  refine ⟨fsInfo, buffer2, rfl, hInv', hPages, ⟨?_, ?_, ?_, ?_⟩, hAbove⟩
  · rw [viewNode_congr (hAbove _ (by simp)), hRoot]
  · rw [viewNode_congr (hAbove _ (by simp)), hMnt]
  · rw [hMem]
    exact hView
  · rw [hMem]
    exact hVolume.congr (hFrame.sameOn (by omega))

/-- The mount, as far as the volume goes. -/
theorem mountCdrom_spec {env : Env} {fuel dev : Nat} {s : Machine} {live : List Alloc} {sh : Shell}
    (hInv : s.Inv live) (hApart : GlobalsApart env s.pages) (hBss : Bss env s.mem)
    (hDev : dev < 2 ^ 32) (h : mountCdrom env fuel s dev = .done sh) :
    ∃ fsInfo buffer2, sh.currentDir = env.fsRoot ∧
      sh.machine.Inv (⟨buffer2, 2048⟩ :: ⟨fsInfo, 16⟩ :: live) ∧
      sh.machine.pages = s.pages ∧
      Mounted env sh.machine.mem dev fsInfo := by
  obtain ⟨fsInfo, buffer2, hDir, hInv', hPages, hMounted, -⟩ :=
    mountCdrom_frame hInv hApart hBss hDev h
  exact ⟨fsInfo, buffer2, hDir, hInv', hPages, hMounted⟩

end Hexos
