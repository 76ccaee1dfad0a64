import Hexos.Fs.Recreate
import Hexos.Lib.Transition

/-!
# HexOS — `cd` as a walk over the directory tree

The shell keeps one node, `current_dir`. The way down comes from the directory
records, the way up from the link to the parent that every node carries: a
triple of an inode, a volume and the callback that makes a node of them again.
The global mount node `fs_cdrom_mnt` carries `root_recreate`, which knows the
inodes 0 and 1 only, so a directory that is entered from it cannot be left
upwards.

## Results

* `ShellInv` — what holds between two `cd` commands.
* `cd_reachable_inv` — it holds in every run.
* `cd_up_returns_iff` — exactly when `cd ..` undoes `cd name`.
-/

namespace Hexos

open Mem Transition

-- ---------------------------------------------------------------------------
-- The invariant
-- ---------------------------------------------------------------------------

/-- A well-formed volume whose directories are one sector each, with every
subdirectory in the path table. -/
structure Tree (env : Env) (dev : Nat) extends Volume env dev where
  directories : ∀ e ∈ entries, ∃ dot dotDot rest,
    IsDirectory (env.devices dev e.lba) dot dotDot rest ∧
      ∀ r ∈ rest, r.flags &&& 2 ≠ 0 → ∃ e' ∈ entries, e'.lba = r.lba

section Invariant

variable {env : Env} {dev : Nat} (tr : Tree env dev) (fsInfo : Nat)

/-- The links to a parent that a node of the volume carries: to the node above
the mount point, to a directory of the volume, or to the global mount node. -/
inductive Tree.Link : FsNodeMini → Prop
  | mountpoint : Link ⟨1, 0, env.rootRecreate⟩
  | directory {p : PathEntry} : p ∈ tr.entries → Link ⟨p.lba, fsInfo, env.iso9660Recreate⟩
  | mountNode : Link ⟨(pathTableSector env dev).load32 2, fsInfo, env.rootRecreate⟩

/-- Where the shell can be: at a global node, at a live node of the volume, or
nowhere. -/
inductive Tree.Located (m : Mem) (live : List Alloc) : Nat → Prop
  | root : Located m live env.fsRoot
  | mnt : Located m live env.fsMnt
  | cdrom : Located m live env.fsCdromMnt
  | node {a : Nat} {d : PathEntry} {parent : FsNodeMini} :
      ⟨a, 332⟩ ∈ live → d ∈ tr.entries →
      viewNode m a = volumeView env fsInfo d.lba parent → tr.Link fsInfo parent →
      Located m live a
  | null : Located m live 0

/-- What holds between two commands. -/
structure ShellInv (sh : Shell) (live : List Alloc) : Prop where
  inv     : sh.machine.Inv live
  apart   : GlobalsApart env sh.machine.pages
  info    : ⟨fsInfo, 16⟩ ∈ live
  mounted : Mounted env sh.machine.mem dev fsInfo
  current : tr.Located fsInfo sh.machine.mem live sh.currentDir

end Invariant

variable {env : Env} {dev fsInfo fuel : Nat} {tr : Tree env dev} {sh sh' : Shell} {s' : Machine}
  {live live' : List Alloc} {name : CString}

/-- A live allocation is stable. -/
theorem stable_of_live {pages : List Nat} {a : Alloc} (h : a ∈ live) :
    Stable pages live a.ptr a.size :=
  Or.inl ⟨a, h, le_refl _, le_refl _⟩

theorem ShellInv.info_word (h : ShellInv tr fsInfo sh live) : fsInfo < 2 ^ 32 ∧ fsInfo ≠ 0 := by
  obtain ⟨-, hAligned, hTop⟩ := h.inv.range h.info
  simp only at hAligned hTop
  omega

/-- A location is kept when nothing is freed and no stable memory changes. -/
theorem Tree.Located.keep {m m' : Mem} {pages : List Nat} {a : Nat} (h : tr.Located fsInfo m live a)
    (hLive : ∀ al ∈ live, al ∈ live')
    (hSame : ∀ k l, Stable pages live k l → SameOn m m' k l) :
    tr.Located fsInfo m' live' a := by
  cases h with
  | root => exact .root
  | mnt => exact .mnt
  | cdrom => exact .cdrom
  | null => exact .null
  | node ha hd hView hLink =>
    refine .node (hLive _ ha) hd ?_ hLink
    rw [viewNode_congr (hSame _ _ (stable_of_live ha)), hView]

/-- A command that touches no stable memory and leaves the shell somewhere keeps
the invariant. -/
theorem ShellInv.move {a : Nat} (h : ShellInv tr fsInfo sh live) (hInv : s'.Inv live')
    (hPages : s'.pages = sh.machine.pages) (hInfo : ⟨fsInfo, 16⟩ ∈ live')
    (hSame : ∀ k l, Stable sh.machine.pages live k l → SameOn sh.machine.mem s'.mem k l)
    (hCurrent : tr.Located fsInfo s'.mem live' a) : ShellInv tr fsInfo ⟨a, s'⟩ live' where
  inv := hInv
  apart := by
    rw [hPages]
    exact h.apart
  info := hInfo
  mounted := h.mounted.congr (fun _ hg => hSame _ _ (h.apart.stable hg))
    (hSame _ _ (stable_of_live h.info))
  current := hCurrent

-- ---------------------------------------------------------------------------
-- The way down
-- ---------------------------------------------------------------------------

/-- A directory of the volume in memory: the mount node or a live node. -/
structure Tree.DirNode (tr : Tree env dev) (fsInfo : Nat) (sh : Shell) (live : List Alloc) (a : Nat)
    (d : PathEntry) : Prop where
  mem     : d ∈ tr.entries
  stable  : Stable sh.machine.pages live a 332
  flags   : sh.machine.mem.load32 (a + 268) = fsDirectory
  inode   : sh.machine.mem.load32 (a + 272) = d.lba
  impl    : sh.machine.mem.load32 (a + 280) = fsInfo
  finddir : sh.machine.mem.load32 (a + 304) = env.iso9660Finddir

/-- **A lookup that returns.** It comes to no record, or it allocates a node with the
data of a record of the directory and the directory as its parent. -/
theorem iso9660Finddir_cases {s s' : Machine} {dir inode p : Nat} {sec : Mem}
    {dot dotDot : DirRecord} {rest : List DirRecord} (hInv : s.Inv live)
    (hDir : DirAt env s live dir fsInfo inode sec) (hSec : IsDirectory sec dot dotDot rest)
    (hFuel : 256 ≤ fuel) (h : iso9660Finddir env fuel s dir name = .done (p, s')) :
    s'.pages = s.pages ∧ (∀ k l, Stable s.pages live k l → SameOn s.mem s'.mem k l) ∧
      ((lookup name.bytes rest = none ∧ p = 0 ∧ s'.Inv live) ∨
        ∃ r, lookup name.bytes rest = some r ∧ s'.Inv (⟨p, 332⟩ :: live) ∧
          NodeAt env s'.mem p (if r.flags &&& 2 ≠ 0 then fsDirectory else fsFile) r.lba
            r.fileLength fsInfo ⟨inode, fsInfo, s.mem.load32 (dir + 308)⟩) := by
  have hDone := h
  unfold iso9660Finddir at h
  obtain ⟨⟨buffer, s₁⟩, hBuf, -⟩ := Outcome.bind_eq_done.mp h
  cases hLook : lookup name.bytes rest with
  | none =>
    obtain ⟨s'', hRun, hInv', hPages, hSame⟩ :=
      iso9660Finddir_none hInv hDir hSec hFuel hBuf hLook
    obtain ⟨rfl, rfl⟩ : 0 = p ∧ s'' = s' := by simpa using hRun.symm.trans hDone
    exact ⟨hPages, hSame, Or.inl ⟨rfl, rfl, hInv'⟩⟩
  | some r =>
    -- a call that returns has allocated the node
    obtain ⟨response, s₂, hNode⟩ : ∃ response s₂, s₁.kalloc fuel sizeofFsNode =
      .done (response, s₂) := by
      obtain ⟨m₁, -, hRun⟩ :=
        finddirLoop_directory name hSec (copyIn_sectorAt s.mem sec buffer) hFuel
      obtain ⟨r', o, -, -, -, -, -, hLoop⟩ := hRun.resolve_left fun hc => by
        rw [hLook] at hc
        cases hc.1
      have hEq := iso9660Finddir_hit hInv hDir hBuf hLoop
      rw [hDone] at hEq
      obtain ⟨⟨q, s₃⟩, hEntry, -⟩ := Outcome.bind_eq_done.mp hEq.symm
      unfold iso9660EntryToNode iso9660EntryToNodeMini at hEntry
      obtain ⟨⟨a, s₄⟩, hk, -⟩ := Outcome.bind_eq_done.mp hEntry
      exact ⟨a, _, Machine.kalloc_with_mem hk s₁.mem⟩
    obtain ⟨s'', hRun, hInv', hPages, hSame, hNodeAt⟩ :=
      iso9660Finddir_some hInv hDir hSec hFuel hBuf hNode hLook
    obtain ⟨rfl, rfl⟩ : response = p ∧ s'' = s' := by simpa using hRun.symm.trans hDone
    exact ⟨hPages, hSame, Or.inr ⟨r, rfl, hInv', hNodeAt⟩⟩

/-- The lookup of `cd` in a directory of the volume. -/
theorem Tree.DirNode.finddir_cases {a p : Nat} {d : PathEntry} {s' : Machine}
    (h : ShellInv tr fsInfo sh live) (hDir : tr.DirNode fsInfo sh live a d) (hFuel : 256 ≤ fuel)
    (hRun : finddirFs env fuel sh.machine a name = .done (p, s')) :
    s'.pages = sh.machine.pages ∧
      (∀ k l, Stable sh.machine.pages live k l → SameOn sh.machine.mem s'.mem k l) ∧
      ((p = 0 ∧ s'.Inv live) ∨ s'.Inv (⟨p, 332⟩ :: live) ∧ ∃ flags lba,
        (flags = fsDirectory ∨ flags = fsFile) ∧
        (flags = fsDirectory → ∃ e ∈ tr.entries, e.lba = lba) ∧
        viewNode s'.mem p = { volumeView env fsInfo lba
          ⟨d.lba, fsInfo, sh.machine.mem.load32 (a + 308)⟩ with flags := flags }) := by
  obtain ⟨dot, dotDot, rest, hSec, hRest⟩ := tr.directories d hDir.mem
  have hVolume : OnVolume env sh.machine a := ⟨by rw [hDir.flags]; decide, hDir.finddir⟩
  have hDirAt : DirAt env sh.machine live a fsInfo d.lba (env.devices dev d.lba) :=
    ⟨hDir.stable, stable_of_live h.info, hDir.impl, hDir.inode, by rw [h.mounted.volume.dev]⟩
  rw [finddirFs_onVolume hVolume] at hRun
  obtain ⟨hPages, hSame, hCases⟩ := iso9660Finddir_cases h.inv hDirAt hSec hFuel hRun
  refine ⟨hPages, hSame, ?_⟩
  rcases hCases with ⟨-, hNone⟩ | ⟨r, hr, hInv', hNode⟩
  · exact Or.inl hNone
  · refine Or.inr ⟨hInv', _, r.lba, ?_, fun hFlags => hRest r (lookup_mem hr) fun hc => ?_,
      hNode.view⟩
    · split
      · exact Or.inl rfl
      · exact Or.inr rfl
    · rw [if_neg (by simpa using hc)] at hFlags
      cases hFlags

/-- The mount node is a directory of the volume. -/
theorem ShellInv.cdrom_dirNode (h : ShellInv tr fsInfo sh live) :
    ∃ d, tr.DirNode fsInfo sh live env.fsCdromMnt d ∧
      d.lba = (pathTableSector env dev).load32 2 ∧
      sh.machine.mem.load32 (env.fsCdromMnt + 308) = env.rootRecreate := by
  obtain ⟨d, hd, hLba⟩ := tr.root_entry
  have hView := h.mounted.cdrom
  unfold viewNode cdromView at hView
  simp only [NodeView.mk.injEq] at hView
  obtain ⟨hFlags, hInode, hImpl, hFinddir, hRecreate, -, -⟩ := hView
  exact ⟨d,
    ⟨List.mem_of_getElem? hd, h.apart.stable (by simp), hFlags, hInode.trans hLba.symm, hImpl,
    hFinddir⟩, hLba, hRecreate⟩

/-- A live node of the volume is one. -/
theorem dirNode_of_view (sh : Shell) {a : Nat} {d : PathEntry} {parent : FsNodeMini}
    (ha : ⟨a, 332⟩ ∈ live) (hd : d ∈ tr.entries)
    (hView : viewNode sh.machine.mem a = volumeView env fsInfo d.lba parent) :
    tr.DirNode fsInfo sh live a d ∧ sh.machine.mem.load32 (a + 308) = env.iso9660Recreate := by
  unfold viewNode volumeView at hView
  simp only [NodeView.mk.injEq] at hView
  obtain ⟨hFlags, hInode, hImpl, hFinddir, hRecreate, -, -⟩ := hView
  exact ⟨⟨hd, stable_of_live ha, hFlags, hInode, hImpl, hFinddir⟩, hRecreate⟩

/-- `cd name` in a directory of the volume. -/
theorem ShellInv.down_volume {d : PathEntry} {reply : CdReply} (h : ShellInv tr fsInfo sh live)
    (hDir : tr.DirNode fsInfo sh live sh.currentDir d) (hName : name ≠ CString.dotDot)
    (hLink : tr.Link fsInfo ⟨d.lba, fsInfo, sh.machine.mem.load32 (sh.currentDir + 308)⟩)
    (hFuel : 256 ≤ fuel) (hRun : shellCd env fuel sh name = .done (reply, sh')) :
    ∃ live', ShellInv tr fsInfo sh' live' ∧ sh'.machine.pages = sh.machine.pages ∧
      (∀ al ∈ live, al ∈ live') ∧
      (∀ k l, Stable sh.machine.pages live k l → SameOn sh.machine.mem sh'.machine.mem k l) ∧
      (reply = .quiet → ⟨sh'.currentDir, 332⟩ ∈ live' ∧ ∃ e ∈ tr.entries,
        viewNode sh'.machine.mem sh'.currentDir = volumeView env fsInfo e.lba
          ⟨d.lba, fsInfo, sh.machine.mem.load32 (sh.currentDir + 308)⟩) := by
  unfold shellCd at hRun
  rw [if_neg hName] at hRun
  obtain ⟨⟨p, s'⟩, hFind, hEnd⟩ := Outcome.map_eq_done.mp hRun
  obtain ⟨hPages, hSame, hCases⟩ := hDir.finddir_cases h hFuel hFind
  rcases hCases with ⟨rfl, hInv'⟩ | ⟨hInv', flags, lba, hFlags, hEntry, hView⟩
  · -- no such file
    obtain ⟨rfl, rfl⟩ : CdReply.noSuchFile = reply ∧ ⟨sh.currentDir, s'⟩ = sh' := by
      simpa using hEnd
    exact ⟨live, h.move hInv' hPages h.info hSame (h.current.keep (fun _ ha => ha) hSame), hPages,
      fun _ ha => ha, hSame, fun hc => by cases hc⟩
  · have hp : p ≠ 0 := by
      have := (hInv'.range List.mem_cons_self).2.1
      simp only at this
      omega
    have hWord : s'.mem.load32 (p + 268) = flags := congrArg NodeView.flags hView
    have hKeep : ∀ al ∈ live, al ∈ ⟨p, 332⟩ :: live :=
      fun al ha => List.mem_cons_of_mem _ ha
    refine ⟨⟨p, 332⟩ :: live, ?_⟩
    simp only [hWord, if_neg hp] at hEnd
    rcases hFlags with rfl | rfl
    · -- a directory
      obtain ⟨e, he, rfl⟩ := hEntry rfl
      obtain ⟨rfl, rfl⟩ : CdReply.quiet = reply ∧ ⟨p, s'⟩ = sh' := by
        simpa [fsDirectory] using hEnd
      exact ⟨h.move hInv' hPages (hKeep _ h.info) hSame (.node List.mem_cons_self he hView hLink),
        hPages, hKeep, hSame, fun _ => ⟨List.mem_cons_self, e, he, hView⟩⟩
    · -- a file
      obtain ⟨rfl, rfl⟩ : CdReply.isAFile = reply ∧ ⟨sh.currentDir, s'⟩ = sh' := by
        simpa [fsFile, fsDirectory] using hEnd
      exact ⟨h.move hInv' hPages (hKeep _ h.info) hSame (h.current.keep hKeep hSame),
        hPages, hKeep,
        hSame, fun hc => by cases hc⟩

/-- `cd name` at a global node of the virtual file system, which has the one
directory `g'`. -/
theorem ShellInv.down_root (g' : Nat) (only : CString) {reply : CdReply}
    (hFlags : sh.machine.mem.load32 (sh.currentDir + 268) = fsDirectory)
    (hFinddir : sh.machine.mem.load32 (sh.currentDir + 304) = env.rootFinddir)
    (hLookup : rootFinddir env sh.currentDir name = if name = only then g' else 0)
    (hTarget : g' ≠ 0 ∧ sh.machine.mem.load32 (g' + 268) = fsDirectory)
    (hName : name ≠ CString.dotDot) (hRun : shellCd env fuel sh name = .done (reply, sh')) :
    (reply = .noSuchFile ∧ sh' = sh) ∨ (reply = .quiet ∧ sh' = ⟨g', sh.machine⟩) := by
  have hWord := (env.words env.rootFinddir (by simp)).1
  unfold shellCd finddirFs at hRun
  rw [if_neg hName] at hRun
  simp only [hFlags, hFinddir] at hRun
  rw [if_pos ⟨by decide, hWord⟩, if_pos trivial, Outcome.map_done, hLookup] at hRun
  by_cases hOnly : name = only
  · simp only [if_pos hOnly, if_neg hTarget.1, hTarget.2] at hRun
    obtain ⟨rfl, rfl⟩ : CdReply.quiet = reply ∧ ⟨g', sh.machine⟩ = sh' := by
      simpa [fsDirectory] using hRun
    exact Or.inr ⟨rfl, rfl⟩
  · simp only [if_neg hOnly, if_true] at hRun
    obtain ⟨rfl, rfl⟩ : CdReply.noSuchFile = reply ∧ sh = sh' := by simpa using hRun
    exact Or.inl ⟨rfl, rfl⟩

/-- A live node is no global. -/
theorem GlobalsApart.ne_live {s : Machine} {a g : Nat} (h : GlobalsApart env s.pages)
    (hInv : s.Inv live) (ha : ⟨a, 332⟩ ∈ live)
    (hg : g ∈ [env.fsRoot, env.fsMnt, env.fsCdromMnt]) : a ≠ g := by
  obtain ⟨⟨addr, hAddr, hLow, hHigh⟩, -, -⟩ := hInv.range ha
  have := h addr hAddr g hg
  simp only at hLow hHigh
  omega

/-- A directory of the volume that was entered from `D`: what the link of its
node says about `D`. -/
def EnteredFrom (tr : Tree env dev) (fsInfo : Nat) (sh : Shell) (live : List Alloc) (sh' : Shell)
    (live' : List Alloc) : Prop :=
  ∃ d recreate, tr.DirNode fsInfo sh live sh.currentDir d ∧
    ⟨sh'.currentDir, 332⟩ ∈ live' ∧
    (∃ e ∈ tr.entries, viewNode sh'.machine.mem sh'.currentDir =
      volumeView env fsInfo e.lba ⟨d.lba, fsInfo, recreate⟩) ∧
    ((sh.currentDir = env.fsCdromMnt ∧ recreate = env.rootRecreate) ∨
      (sh.currentDir ≠ env.fsCdromMnt ∧ recreate = env.iso9660Recreate))

/-- **`cd name`.** -/
theorem ShellInv.down {reply : CdReply} (h : ShellInv tr fsInfo sh live)
    (hNull : sh.currentDir ≠ 0) (hName : name ≠ CString.dotDot) (hFuel : 256 ≤ fuel)
    (hRun : shellCd env fuel sh name = .done (reply, sh')) :
    ∃ live', ShellInv tr fsInfo sh' live' ∧ sh'.machine.pages = sh.machine.pages ∧
      (∀ al ∈ live, al ∈ live') ∧
      (∀ k l, Stable sh.machine.pages live k l → SameOn sh.machine.mem sh'.machine.mem k l) ∧
      (reply = .quiet → (sh.currentDir = env.fsRoot ∧ sh'.currentDir = env.fsMnt) ∨
        (sh.currentDir = env.fsMnt ∧ sh'.currentDir = env.fsCdromMnt) ∨
        EnteredFrom tr fsInfo sh live sh' live') := by
  obtain ⟨hRoot0, hMnt0, hCdrom0, -⟩ := env.globals_ne_null
  have hRootMnt : env.fsRoot ≠ env.fsMnt := by
    have := env.nodes_apart.1
    omega
  have hSame : ∀ k l, Stable sh.machine.pages live k l →
      SameOn sh.machine.mem sh.machine.mem k l := fun k l _ => SameOn.refl _ k l
  have hCurrent := h.current
  generalize hCur : sh.currentDir = cur at hCurrent
  cases hCurrent with
  | root =>
    have hView := h.mounted.root
    rw [← hCur] at hView
    rcases ShellInv.down_root env.fsMnt CString.mnt
      (congrArg NodeView.flags hView) (congrArg NodeView.finddir hView)
      (by rw [hCur]; simp [rootFinddir])
        ⟨hMnt0, congrArg NodeView.flags h.mounted.mnt⟩ hName hRun with
      ⟨rfl, rfl⟩ | ⟨rfl, rfl⟩
    · exact ⟨live, h, rfl, fun _ ha => ha, hSame, fun hc => by cases hc⟩
    · exact ⟨live, h.move h.inv rfl h.info hSame .mnt, rfl, fun _ ha => ha, hSame,
        fun _ => Or.inl ⟨rfl, rfl⟩⟩
  | mnt =>
    have hView := h.mounted.mnt
    rw [← hCur] at hView
    rcases ShellInv.down_root env.fsCdromMnt CString.cdrom0
      (congrArg NodeView.flags hView) (congrArg NodeView.finddir hView)
      (by rw [hCur]; simp [rootFinddir, hRootMnt.symm])
      ⟨hCdrom0, congrArg NodeView.flags h.mounted.cdrom⟩ hName
        hRun with ⟨rfl, rfl⟩ | ⟨rfl, rfl⟩
    · exact ⟨live, h, rfl, fun _ ha => ha, hSame, fun hc => by cases hc⟩
    · exact ⟨live, h.move h.inv rfl h.info hSame .cdrom, rfl, fun _ ha => ha, hSame,
        fun _ => Or.inr (Or.inl ⟨rfl, rfl⟩)⟩
  | cdrom =>
    obtain ⟨d, hDir, hLba, hRec⟩ := h.cdrom_dirNode
    rw [← hCur] at hDir hRec
    have hLink :
        tr.Link fsInfo ⟨d.lba, fsInfo, sh.machine.mem.load32 (sh.currentDir + 308)⟩ := by
      rw [hLba, hRec]
      exact .mountNode
    obtain ⟨live', hInv', hPages, hKeep, hSame', hQuiet⟩ :=
      h.down_volume hDir hName hLink hFuel hRun
    refine ⟨live', hInv', hPages, hKeep, hSame', fun hr => Or.inr (Or.inr ?_)⟩
    obtain ⟨hNode, hView⟩ := hQuiet hr
    exact ⟨d, _, hDir, hNode, hView, Or.inl ⟨hCur, hRec⟩⟩
  | @node a d parent ha hd hView hLinkD =>
    obtain ⟨hDir, hRec⟩ := dirNode_of_view sh ha hd hView
    have hNe := h.apart.ne_live h.inv ha (g := env.fsCdromMnt) (by simp)
    rw [← hCur] at hDir hRec hNe
    have hLink :
        tr.Link fsInfo ⟨d.lba, fsInfo, sh.machine.mem.load32 (sh.currentDir + 308)⟩ := by
      rw [hRec]
      exact .directory hd
    obtain ⟨live', hInv', hPages, hKeep, hSame', hQuiet⟩ :=
      h.down_volume hDir hName hLink hFuel hRun
    refine ⟨live', hInv', hPages, hKeep, hSame', fun hr => Or.inr (Or.inr ?_)⟩
    obtain ⟨hNode, hView'⟩ := hQuiet hr
    exact ⟨d, _, hDir, hNode, hView', Or.inr ⟨hNe, hRec⟩⟩
  | null => exact absurd hCur hNull

-- ---------------------------------------------------------------------------
-- The way up
-- ---------------------------------------------------------------------------

/-- The link of the current directory to its parent. -/
def Shell.parent (sh : Shell) : FsNodeMini := loadMini sh.machine.mem (sh.currentDir + 316)

/-- The heap has room for `cd ..`. -/
def UpRoom (env : Env) (fuel : Nat) (sh : Shell) : Prop :=
  sh.parent.recreate = env.iso9660Recreate →
    ∃ places, recreateCalls fuel sh.machine.heap = .done places

/-- The heap has room for `cd ..`, and the record of the parent is not clobbered
by its node. -/
def UpHarmless (env : Env) (dev fuel : Nat) (sh : Shell) : Prop :=
  sh.parent.recreate = env.iso9660Recreate → ∃ entryBuffer node heap',
    recreateCalls fuel sh.machine.heap = .done (entryBuffer, node, heap') ∧
      ¬ Clobbers entryBuffer node sh.parent.inode ((env.devices dev sh.parent.inode).load32 10)

theorem callRecreate_root {s : Machine} (mini : FsNodeMini) (h : mini.recreate = env.rootRecreate) :
    callRecreate env fuel s mini = .done (rootRecreate env mini, s) := by
  unfold callRecreate
  rw [if_pos h]

/-- `cd ..` where there is a parent. -/
theorem shellCd_up (h : sh.parent.recreate ≠ 0) :
    shellCd env fuel sh CString.dotDot = (callRecreate env fuel sh.machine sh.parent).bind
      fun (node, s) => (callFreeNode env s sh.currentDir).map fun s => (.quiet, ⟨node, s⟩) := by
  unfold shellCd
  rw [if_pos rfl]
  exact if_neg h

/-- `cd ..` from a global node: it is not freed. -/
theorem shellCd_up_global (fuel : Nat)
    (hFree : sh.machine.mem.load32 (sh.currentDir + 312) = env.rootFreeNode)
    (hParent : sh.parent.recreate = env.rootRecreate) :
    shellCd env fuel sh CString.dotDot =
      .done (.quiet, ⟨rootRecreate env sh.parent, sh.machine⟩) := by
  have hWord := (env.words env.rootRecreate (by simp)).1
  rw [shellCd_up (by rw [hParent]; exact hWord), callRecreate_root _ hParent, Outcome.bind_done]
  unfold callFreeNode
  simp only [hFree, if_true, Outcome.map_done]

/-- A node of the volume is freed. -/
theorem callFreeNode_iso9660 (env : Env) {s : Machine} {a : Nat} (hInv : s.Inv live)
    (ha : ⟨a, 332⟩ ∈ live) (hFree : s.mem.load32 (a + 312) = env.iso9660FreeNode) :
    ∃ s', callFreeNode env s a = .done s' ∧ s'.mem = s.mem ∧ s'.pages = s.pages ∧
      s'.Inv (live.erase ⟨a, 332⟩) := by
  obtain ⟨s', hRun, hMem, hPages, hInv'⟩ := Machine.kfree_spec hInv ha
  refine ⟨s', ?_, hMem, hPages, hInv'⟩
  unfold callFreeNode
  simp only [hFree, if_neg env.functions_ne.2.2.symm, if_true]
  exact hRun

theorem ShellInv.info_mem_erase {a : Nat} (hInfo : ⟨fsInfo, 16⟩ ∈ live) :
    ⟨fsInfo, 16⟩ ∈ live.erase ⟨a, 332⟩ := (List.mem_erase_of_ne (by simp)).mpr hInfo

/-- `cd ..` from a node of the volume whose link has `root_recreate`. -/
theorem ShellInv.up_root (fuel : Nat) {lba : Nat} {parent : FsNodeMini}
    (h : ShellInv tr fsInfo sh live)
    (ha : ⟨sh.currentDir, 332⟩ ∈ live)
    (hView : viewNode sh.machine.mem sh.currentDir = volumeView env fsInfo lba parent)
    (hParent : parent.recreate = env.rootRecreate) :
    ∃ s', shellCd env fuel sh CString.dotDot =
      .done (.quiet, ⟨rootRecreate env parent, s'⟩) ∧
      s'.mem = sh.machine.mem ∧ s'.pages = sh.machine.pages ∧
      s'.Inv (live.erase ⟨sh.currentDir, 332⟩) := by
  have hWord := (env.words env.rootRecreate (by simp)).1
  have hLink : sh.parent = parent := congrArg NodeView.parent hView
  obtain ⟨s', hFree, hMem, hPages, hInv'⟩ :=
    callFreeNode_iso9660 env h.inv ha (congrArg NodeView.freeNode hView)
  refine ⟨s', ?_, hMem, hPages, hInv'⟩
  rw [shellCd_up (by rw [hLink, hParent]; exact hWord), hLink, callRecreate_root _ hParent,
    Outcome.bind_done]
  simp only [hFree, Outcome.map_done]

/-- The link of a recreated node. -/
theorem Tree.link_upLink {i : Nat} {d : PathEntry} {ds : List PathEntry}
    (h : tr.toVolume.Ancestry i (d :: ds)) :
    tr.Link fsInfo (upLink env fsInfo ⟨1, 0, env.rootRecreate⟩ ds) := by
  cases h with
  | root _ => exact .mountpoint
  | child _ _ hds =>
    obtain ⟨p, ps, rfl⟩ := hds.exists_cons
    exact .directory (List.mem_of_getElem? hds.head)

/-- `cd ..` from a node of the volume whose link has `iso9660_recreate`. -/
theorem ShellInv.up_iso9660 {lba entryBuffer node : Nat} {p : PathEntry} {heap' : KernelHeap}
    (h : ShellInv tr fsInfo sh live) (hFuel : 256 ≤ fuel) (ha : ⟨sh.currentDir, 332⟩ ∈ live)
    (hp : p ∈ tr.entries)
    (hView : viewNode sh.machine.mem sh.currentDir =
      volumeView env fsInfo lba ⟨p.lba, fsInfo, env.iso9660Recreate⟩)
    (hCalls : recreateCalls fuel sh.machine.heap = .done (entryBuffer, node, heap')) :
    ∃ s' live' inode link, shellCd env fuel sh CString.dotDot = .done (.quiet, ⟨node, s'⟩) ∧
      s'.pages = sh.machine.pages ∧
      (∀ k l, Stable sh.machine.pages live k l → SameOn sh.machine.mem s'.mem k l) ∧
      s'.Inv live' ∧ ⟨fsInfo, 16⟩ ∈ live' ∧ ⟨node, 332⟩ ∈ live' ∧
      viewNode s'.mem node = volumeView env fsInfo inode link ∧ tr.Link fsInfo link ∧
      (inode = p.lba ↔
        ¬ Clobbers entryBuffer node p.lba ((env.devices dev p.lba).load32 10)) := by
  have hWord := (env.words env.iso9660Recreate (by simp)).1
  have hLink : sh.parent = ⟨p.lba, fsInfo, env.iso9660Recreate⟩ :=
    congrArg NodeView.parent hView
  obtain ⟨i, hi⟩ := List.mem_iff_getElem?.mp hp
  obtain ⟨ds, hds⟩ := tr.toVolume.exists_ancestry i p hi
  obtain ⟨m', r, inode, hRun, hInv', hPages', hSame, hNode, hInode⟩ :=
    iso9660Recreate_spec h.inv
      (stable_of_live h.info) h.info_word.1 h.mounted.volume hds hFuel hCalls
      env.iso9660Recreate
  -- the old node is still live, and is freed now
  have hOld : viewNode m' sh.currentDir = viewNode sh.machine.mem sh.currentDir :=
    viewNode_congr (hSame _ _ (stable_of_live ha))
  have ha' : ⟨sh.currentDir, 332⟩ ∈ (⟨node, 332⟩ :: ⟨r, 332⟩ :: live : List Alloc) :=
    List.mem_cons_of_mem _ (List.mem_cons_of_mem _ ha)
  obtain ⟨s', hFree, hMem, hPages, hInv''⟩ := callFreeNode_iso9660 env hInv' ha'
    (congrArg NodeView.freeNode (hOld.trans hView))
  have hNe : node ≠ sh.currentDir := by
    have := hInv'.apart (List.mem_cons_of_mem _ ha)
    simp only at this
    omega
  refine ⟨s', _, inode, _, ?_, hPages.trans hPages', ?_, hInv'',
    ShellInv.info_mem_erase (List.mem_cons_of_mem _ (List.mem_cons_of_mem _ h.info)),
    (List.mem_erase_of_ne (by simp [hNe])).mpr List.mem_cons_self, ?_, tr.link_upLink hds, hInode⟩
  · rw [shellCd_up (by rw [hLink]; exact hWord), hLink, callRecreate_iso9660 _ rfl, hRun,
      Outcome.bind_done]
    simp only [hFree, Outcome.map_done]
  · rw [hMem]
    exact hSame
  · rw [hMem]
    exact hNode

theorem rootRecreate_located {m : Mem} {mini : FsNodeMini} :
    tr.Located fsInfo m live (rootRecreate env mini) := by
  unfold rootRecreate
  split
  · exact .root
  · split
    · exact .mnt
    · exact .null

/-- **`cd ..`.** It keeps the invariant when the record is not clobbered. -/
theorem ShellInv.up {reply : CdReply} (h : ShellInv tr fsInfo sh live) (hNull : sh.currentDir ≠ 0)
    (hFuel : 256 ≤ fuel) (hHarmless : UpHarmless env dev fuel sh)
    (hRun : shellCd env fuel sh CString.dotDot = .done (reply, sh')) :
    ∃ live', ShellInv tr fsInfo sh' live' := by
  have hSame : ∀ k l, Stable sh.machine.pages live k l →
      SameOn sh.machine.mem sh.machine.mem k l := fun k l _ => SameOn.refl _ k l
  have hGlobal : ∀ {view : NodeView}, viewNode sh.machine.mem sh.currentDir = view →
      view.freeNode = env.rootFreeNode → view.parent.recreate = env.rootRecreate →
      ∃ live', ShellInv tr fsInfo sh' live' := by
    rintro view rfl hFree hParent
    have hEq := (shellCd_up_global fuel hFree hParent).symm.trans hRun
    obtain ⟨rfl, rfl⟩ : CdReply.quiet = reply ∧
      ⟨rootRecreate env sh.parent, sh.machine⟩ = sh' := by
      simpa using hEq
    exact ⟨live, h.move h.inv rfl h.info hSame rootRecreate_located⟩
  have hCurrent := h.current
  generalize hCur : sh.currentDir = cur at hCurrent
  cases hCurrent with
  | root =>
    -- there is no parent
    have hParent : sh.parent.recreate = 0 := by
      unfold Shell.parent
      rw [hCur]
      exact congrArg (fun view => view.parent.recreate) h.mounted.root
    unfold shellCd at hRun
    rw [if_pos rfl] at hRun
    obtain ⟨rfl, rfl⟩ : CdReply.cannotGoUp = reply ∧ sh = sh' := by
      simpa using (if_pos hParent).symm.trans hRun
    exact ⟨live, h⟩
  | mnt => exact hGlobal (hCur ▸ h.mounted.mnt) rfl rfl
  | cdrom => exact hGlobal (hCur ▸ h.mounted.cdrom) rfl rfl
  | null => exact absurd hCur hNull
  | @node a d parent ha hd hView hLink =>
    rw [← hCur] at ha hView
    have hRoot : parent.recreate = env.rootRecreate →
        ∃ live', ShellInv tr fsInfo sh' live' := by
      intro hParent
      obtain ⟨s', hUp, hMem, hPages, hInv'⟩ := h.up_root fuel ha hView hParent
      obtain ⟨rfl, rfl⟩ : CdReply.quiet = reply ∧
        ⟨rootRecreate env parent, s'⟩ = sh' := by
        simpa using hUp.symm.trans hRun
      exact ⟨_, h.move hInv' hPages (ShellInv.info_mem_erase h.info) (by rwa [hMem])
        rootRecreate_located⟩
    have hParent : sh.parent = parent := congrArg NodeView.parent hView
    cases hLink with
    | mountpoint => exact hRoot rfl
    | mountNode => exact hRoot rfl
    | @directory p hp =>
      obtain ⟨e, a', heap', hCalls, hRecord⟩ := hHarmless (by rw [hParent])
      rw [hParent] at hRecord
      obtain ⟨s', live', inode, link, hUp, hPages, hSame', hInv', hInfo', hNode, hView', hLink',
        hInode⟩ := h.up_iso9660 hFuel ha hp hView hCalls
      obtain ⟨rfl, rfl⟩ : CdReply.quiet = reply ∧ ⟨a', s'⟩ = sh' := by
        simpa using hUp.symm.trans hRun
      rw [hInode.mpr hRecord] at hView'
      exact ⟨live', h.move hInv' hPages hInfo' hSame' (.node hNode hp hView' hLink')⟩

-- ---------------------------------------------------------------------------
-- Runs
-- ---------------------------------------------------------------------------

/-- All runs of `cd` commands after the mount: every command returns, is given
in a directory, and a `cd ..` does not clobber the record it reads. -/
def cdSystem (env : Env) (dev : Nat) : System Shell where
  init sh := ∃ s live fuel, s.Inv live ∧ GlobalsApart env s.pages ∧ Bss env s.mem ∧
    mountCdrom env fuel s dev = .done sh
  step sh sh' := ∃ fuel dest reply, 256 ≤ fuel ∧ sh.currentDir ≠ 0 ∧
    (dest = CString.dotDot → UpHarmless env dev fuel sh) ∧
    shellCd env fuel sh dest = .done (reply, sh')

/-- **Runs.** The invariant holds in every state that a run reaches. -/
theorem cd_reachable_inv (tr : Tree env dev) (hDev : dev < 2 ^ 32)
    (hr : Reachable (cdSystem env dev) sh) : ∃ fsInfo live, ShellInv tr fsInfo sh live := by
  refine Reachable.invariant (I := fun sh => ∃ fsInfo live, ShellInv tr fsInfo sh live) ?_ ?_ hr
  · rintro sh ⟨s, live, fuel, hInv, hApart, hBss, hMount⟩
    obtain ⟨fsInfo, buffer2, hDir, hInv', hPages, hMounted⟩ :=
      mountCdrom_spec hInv hApart hBss hDev hMount
    refine ⟨fsInfo, _, hInv', by rwa [hPages], by simp, hMounted, ?_⟩
    rw [hDir]
    exact .root
  · rintro sh sh' - ⟨fsInfo, live, h⟩ ⟨fuel, dest, reply, hFuel, hNull, hHarmless, hRun⟩
    by_cases hDest : dest = CString.dotDot
    · subst hDest
      exact ⟨fsInfo, h.up hNull hFuel (hHarmless rfl) hRun⟩
    · obtain ⟨live', h', -⟩ := h.down hNull hDest hFuel hRun
      exact ⟨fsInfo, live', h'⟩

/-- The current directory of `sh'` denotes that of `sh`. -/
def Denotes (sh sh' : Shell) : Prop :=
  sh'.currentDir ≠ 0 ∧
    sh'.machine.mem.load32 (sh'.currentDir + 272) = sh.machine.mem.load32 (sh.currentDir + 272) ∧
    sh'.machine.mem.load32 (sh'.currentDir + 280) = sh.machine.mem.load32 (sh.currentDir + 280) ∧
    sh'.machine.mem.load32 (sh'.currentDir + 268) = fsDirectory

/-- Two nodes with one view. -/
theorem denotes_of_view (view : NodeView) (hNull : sh'.currentDir ≠ 0)
    (h : viewNode sh.machine.mem sh.currentDir = view)
    (h' : viewNode sh'.machine.mem sh'.currentDir = view) (hFlags : view.flags = fsDirectory) :
    Denotes sh sh' := by
  rw [← h'] at hFlags
  have hEq := h'.trans h.symm
  exact ⟨hNull, congrArg NodeView.inode hEq, congrArg NodeView.impl hEq, hFlags⟩

/-- `cd ..` in a global node leads back to the global node above it. -/
theorem up_global_returns {here view : NodeView} (fuel : Nat) (hNull : sh.currentDir ≠ 0)
    (hNotMount : sh.currentDir ≠ env.fsCdromMnt)
    (hHere : viewNode sh'.machine.mem sh'.currentDir = here)
    (hFree : here.freeNode = env.rootFreeNode) (hRoot : here.parent.recreate = env.rootRecreate)
    (hBack : rootRecreate env here.parent = sh.currentDir)
    (hView : viewNode sh.machine.mem sh.currentDir = view)
    (hView' : viewNode sh'.machine.mem sh.currentDir = view) (hFlags : view.flags = fsDirectory) :
    ∃ sh₂, shellCd env fuel sh' CString.dotDot = .done (.quiet, sh₂) ∧
      (Denotes sh sh₂ ↔ sh.currentDir ≠ env.fsCdromMnt ∧ UpHarmless env dev fuel sh') := by
  have hParent : sh'.parent = here.parent := congrArg NodeView.parent hHere
  refine ⟨_, shellCd_up_global fuel ((congrArg NodeView.freeNode hHere).trans hFree)
    (by rw [hParent, hRoot]), ?_⟩
  rw [hParent, hBack]
  refine iff_of_true (denotes_of_view view hNull hView hView' hFlags) ⟨hNotMount, ?_⟩
  intro hc
  rw [hParent, hRoot] at hc
  exact absurd hc env.functions_ne.2.1

/-- No global node is on the volume: `root_recreate` leads nowhere from there. -/
theorem not_denotes_rootRecreate {d : PathEntry} {s' : Machine} (mini : FsNodeMini)
    (h : ShellInv tr fsInfo sh live) (h' : ShellInv tr fsInfo sh' live')
    (hDir : tr.DirNode fsInfo sh live sh.currentDir d) (hMem : s'.mem = sh'.machine.mem) :
    ¬ Denotes sh ⟨rootRecreate env mini, s'⟩ := by
  rintro ⟨hNotNull, -, hImpl, -⟩
  rw [hDir.impl, hMem] at hImpl
  have hZero : ∀ g view, viewNode sh'.machine.mem g = view → view.impl = 0 →
      sh'.machine.mem.load32 (g + 280) ≠ fsInfo := by
    rintro g view rfl hv hc
    exact h.info_word.2 (hc.symm.trans hv)
  unfold rootRecreate at hNotNull hImpl
  split at hImpl
  · exact hZero _ _ h'.mounted.root rfl hImpl
  · split at hImpl
    · exact hZero _ _ h'.mounted.mnt rfl hImpl
    · next h0 h1 =>
      rw [if_neg h0, if_neg h1] at hNotNull
      exact hNotNull rfl

/-- A node of the volume denotes the directory of a node of the volume if it has its
sector. -/
theorem denotes_volume_iff {d : PathEntry} {s' : Machine} {node inode : Nat} {link : FsNodeMini}
    (hDir : tr.DirNode fsInfo sh live sh.currentDir d) (hNode : node ≠ 0)
    (hView : viewNode s'.mem node = volumeView env fsInfo inode link) :
    Denotes sh ⟨node, s'⟩ ↔ inode = d.lba := by
  have hInode : s'.mem.load32 (node + 272) = inode := congrArg NodeView.inode hView
  have hImpl : s'.mem.load32 (node + 280) = fsInfo := congrArg NodeView.impl hView
  have hFlags : s'.mem.load32 (node + 268) = fsDirectory := congrArg NodeView.flags hView
  unfold Denotes
  rw [hDir.inode, hDir.impl, hInode, hImpl, hFlags]
  simp [hNode]

/-- **Navigation.** In every run, when `cd name` has led from a directory to
another one, `cd ..` returns. It leads back to the first directory if and only
if that is not the global mount node and the record is not clobbered. -/
theorem cd_up_returns_iff (env : Env) (dev : Nat) (tr : Tree env dev) (hDev : dev < 2 ^ 32)
    (sh : Shell) (hr : Reachable (cdSystem env dev) sh) (hNull : sh.currentDir ≠ 0)
    (name : CString) (hName : name ≠ CString.dotDot) (fuel : Nat) (hFuel : 256 ≤ fuel)
    (sh₁ : Shell) (hDown : shellCd env fuel sh name = .done (.quiet, sh₁)) (fuel' : Nat)
    (hFuel' : 256 ≤ fuel') (hRoom : UpRoom env fuel' sh₁) :
    ∃ sh₂, shellCd env fuel' sh₁ CString.dotDot = .done (.quiet, sh₂) ∧
      (Denotes sh sh₂ ↔ sh.currentDir ≠ env.fsCdromMnt ∧
        UpHarmless env dev fuel' sh₁) := by
  obtain ⟨fsInfo, live, h⟩ := cd_reachable_inv tr hDev hr
  obtain ⟨live', h₁, hPages, hKeep, hSame, hQuiet⟩ := h.down hNull hName hFuel hDown
  obtain ⟨-, hRootCdrom, hMntCdrom⟩ := env.nodes_apart
  rcases hQuiet rfl with ⟨hFrom, hTo⟩ | ⟨hFrom, hTo⟩ | ⟨d, recreate, hDir, hNode,
    ⟨e, he, hView⟩, hCases⟩
  · -- from the root to `mnt`
    have hHere : viewNode sh₁.machine.mem sh₁.currentDir = mntView env :=
      hTo ▸ h₁.mounted.mnt
    exact up_global_returns fuel' hNull (by omega) hHere rfl rfl hFrom.symm
      (hFrom ▸ h.mounted.root) (hFrom ▸ h₁.mounted.root) rfl
  · -- from `mnt` to the mount node
    have hHere := h₁.mounted.cdrom
    rw [← hTo] at hHere
    exact up_global_returns fuel' hNull (by omega) hHere rfl rfl hFrom.symm
      (hFrom ▸ h.mounted.mnt) (hFrom ▸ h₁.mounted.mnt) rfl
  · have hParent : sh₁.parent = ⟨d.lba, fsInfo, recreate⟩ := congrArg NodeView.parent hView
    rcases hCases with ⟨hCdrom, rfl⟩ | ⟨hNotCdrom, rfl⟩
    · -- from the mount node: `root_recreate` does not know the volume
      obtain ⟨s', hUp, hMem, -, -⟩ := h₁.up_root fuel' hNode hView rfl
      exact ⟨_, hUp, iff_of_false (not_denotes_rootRecreate _ h h₁ hDir hMem) fun hc =>
        hc.1 hCdrom⟩
    · -- from a node of the volume
      obtain ⟨⟨entryBuffer, node, heap'⟩, hCalls⟩ := hRoom (by rw [hParent])
      obtain ⟨s', live₂, inode, link, hUp, -, -, hInv₂, -, hNode₂, hView₂, -, hInode⟩ :=
        h₁.up_iso9660 hFuel' hNode hDir.mem hView hCalls
      have hNode0 : node ≠ 0 := by
        have := (hInv₂.range hNode₂).2.1
        simp only at this
        omega
      refine ⟨_, hUp, ?_⟩
      rw [denotes_volume_iff hDir hNode0 hView₂, hInode]
      constructor
      · intro hRecord
        refine ⟨hNotCdrom, fun _ => ⟨entryBuffer, node, heap', hCalls, ?_⟩⟩
        rw [hParent]
        exact hRecord
      · rintro ⟨-, hHarmless⟩
        obtain ⟨e', a', heap'', hCalls', hRecord⟩ := hHarmless (by rw [hParent])
        obtain ⟨rfl, rfl, rfl⟩ : entryBuffer = e' ∧ node = a' ∧ heap' = heap'' := by
          simpa using hCalls.symm.trans hCalls'
        rw [hParent] at hRecord
        exact hRecord

-- ---------------------------------------------------------------------------
-- A volume with the directories D and D/E
-- ---------------------------------------------------------------------------

theorem tree_complete : ∀ e ∈ treeEntries, ∃ dot dotDot rest,
    IsDirectory (treeDisk e.lba) dot dotDot rest ∧
      ∀ r ∈ rest, r.flags &&& 2 ≠ 0 → ∃ e' ∈ treeEntries, e'.lba = r.lba := by
  have hSub : ∀ e ∈ treeEntries, ∀ r ∈ treeRecords e.lba, ∃ e' ∈ treeEntries, e'.lba =
      r.lba := by
    decide
  intro e he
  obtain ⟨dot, dotDot, hSec⟩ := tree_directories e he
  exact ⟨dot, dotDot, treeRecords e.lba, hSec, fun r hr _ => hSub e he r hr⟩

/-- The disk is a well-formed tree. -/
def sampleTree : Tree (sampleEnv treeDisk) 1 where
  toVolume := treeVolume
  directories := tree_complete

/-- `cd` down to the given name. -/
def sampleStep (sh : Shell) (name : CString) : Option Shell :=
  if sh.currentDir ≠ 0 ∧ name ≠ CString.dotDot then
    (shellCd (sampleEnv treeDisk) 600 sh name).toOption.map (·.2)
  else none

/-- The shell after `cd` down the given path from the root directory. -/
def samplePath (names : List CString) : Option Shell :=
  (sampleShell treeDisk).bind fun sh => names.foldlM sampleStep sh

theorem samplePath_reachable {names : List CString} {sh : Shell} (h : samplePath names = some sh) :
    Reachable (cdSystem (sampleEnv treeDisk) 1) sh := by
  obtain ⟨sh₀, hShell, hRun⟩ := Option.bind_eq_some_iff.mp h
  have hInit : Reachable (cdSystem (sampleEnv treeDisk) 1) sh₀ := by
    obtain ⟨heap, m', hMain, hMount⟩ := sampleShell_done hShell
    have hInv : Machine.Inv ⟨heap, fun _ => 0⟩ [] := (mainHeapInit_init (by decide) hMain).inv
    exact .init ⟨⟨heap, fun _ => 0⟩, [], 600, hInv, samplePages_apart hMain,
      fun _ _ _ _ => rfl, hMount⟩
  clear hShell h
  induction names generalizing sh₀ with
  | nil =>
    obtain rfl : sh₀ = sh := by simpa using hRun
    exact hInit
  | cons name names ih =>
    rw [List.foldlM_cons] at hRun
    obtain ⟨sh₁, hStep, hRun⟩ := Option.bind_eq_some_iff.mp hRun
    refine ih sh₁ hRun (.step hInit ?_)
    unfold sampleStep at hStep
    split at hStep
    · next hOk =>
      obtain ⟨⟨reply, sh₂⟩, hCd, rfl⟩ := Option.map_eq_some_iff.mp hStep
      exact ⟨600, name, reply, by omega, hOk.1, fun hc => absurd hc hOk.2,
        Outcome.toOption_eq_some.mp hCd⟩
    · cases hStep

/-- From `/mnt/cdrom0/D` to `E` and back with `cd ..`. -/
theorem cd_up_returns_to_subdirectory :
    ∃ sh sh₁ sh₂, Reachable (cdSystem (sampleEnv treeDisk) 1) sh ∧
      shellCd (sampleEnv treeDisk) 600 sh ⟨[0x45], by decide⟩ = .done (.quiet, sh₁) ∧
      shellCd (sampleEnv treeDisk) 600 sh₁ CString.dotDot = .done (.quiet, sh₂) ∧
      Denotes sh sh₂ := by
  have hEval : (samplePath [CString.mnt, CString.cdrom0, ⟨[0x44], by decide⟩]).map (fun sh =>
      (decide (sh.currentDir ≠ 0 ∧ sh.currentDir ≠ 0x3000),
        (shellCd (sampleEnv treeDisk) 600 sh ⟨[0x45], by decide⟩).toOption.map
        fun (reply, sh₁) =>
          (decide (reply = .quiet), (recreateCalls 600 sh₁.machine.heap).toOption.map fun p =>
            decide (¬ Clobbers p.1 p.2.1 sh₁.parent.inode
              ((treeDisk sh₁.parent.inode).load32 10))))) =
      some (true, some (true, some true)) := by decide +kernel
  obtain ⟨sh, hPath, hEval⟩ := Option.map_eq_some_iff.mp hEval
  obtain ⟨hCur, hEval⟩ := Prod.mk.inj hEval
  obtain ⟨⟨reply, sh₁⟩, hDown, hEval⟩ := Option.map_eq_some_iff.mp hEval
  obtain ⟨hReply, hEval⟩ := Prod.mk.inj hEval
  obtain ⟨⟨e, a, heap'⟩, hCalls, hRecord⟩ := Option.map_eq_some_iff.mp hEval
  obtain rfl : reply = .quiet := of_decide_eq_true hReply
  obtain ⟨hNull, hNotCdrom⟩ := of_decide_eq_true hCur
  have hr := samplePath_reachable hPath
  have hDown := Outcome.toOption_eq_some.mp hDown
  have hCalls := Outcome.toOption_eq_some.mp hCalls
  obtain ⟨sh₂, hUp, hBack⟩ :=
    cd_up_returns_iff (sampleEnv treeDisk) 1 sampleTree (by omega) sh hr hNull
    ⟨[0x45], by decide⟩ (by decide) 600 (by omega) sh₁ hDown 600 (by omega) fun _ =>
    ⟨_, hCalls⟩
  exact ⟨sh, sh₁, sh₂, hr, hDown, hUp,
    hBack.mpr ⟨hNotCdrom, fun _ => ⟨e, a, heap', hCalls, of_decide_eq_true hRecord⟩⟩⟩

/-- From `/mnt/cdrom0` to `D`: `cd ..` leaves the shell without a directory. -/
theorem cd_up_from_mount_is_null :
    ∃ sh sh₁ sh₂, Reachable (cdSystem (sampleEnv treeDisk) 1) sh ∧
      sh.currentDir = 0x3000 ∧
      shellCd (sampleEnv treeDisk) 600 sh ⟨[0x44], by decide⟩ = .done (.quiet, sh₁) ∧
      shellCd (sampleEnv treeDisk) 600 sh₁ CString.dotDot = .done (.quiet, sh₂) ∧
      sh₂.currentDir = 0 ∧ ¬ Denotes sh sh₂ := by
  have hEval : (samplePath [CString.mnt, CString.cdrom0]).map (fun sh => (sh.currentDir,
      (shellCd (sampleEnv treeDisk) 600 sh ⟨[0x44], by decide⟩).toOption.map
      fun (reply, sh₁) =>
        (decide (reply = .quiet),
          (shellCd (sampleEnv treeDisk) 600 sh₁ CString.dotDot).toOption.map fun (reply, sh₂) =>
            (decide (reply = .quiet), sh₂.currentDir)))) =
      some (0x3000, some (true, some (true, 0))) := by decide +kernel
  obtain ⟨sh, hPath, hEval⟩ := Option.map_eq_some_iff.mp hEval
  obtain ⟨hCur, hEval⟩ := Prod.mk.inj hEval
  obtain ⟨⟨reply, sh₁⟩, hDown, hEval⟩ := Option.map_eq_some_iff.mp hEval
  obtain ⟨hReply, hEval⟩ := Prod.mk.inj hEval
  obtain ⟨⟨reply₂, sh₂⟩, hUp, hEval⟩ := Option.map_eq_some_iff.mp hEval
  obtain ⟨hReply₂, hNull⟩ := Prod.mk.inj hEval
  obtain rfl : reply = .quiet := of_decide_eq_true hReply
  obtain rfl : reply₂ = .quiet := of_decide_eq_true hReply₂
  exact ⟨sh, sh₁, sh₂, samplePath_reachable hPath, hCur, Outcome.toOption_eq_some.mp hDown,
    Outcome.toOption_eq_some.mp hUp, hNull, fun hc => hc.1 hNull⟩

end Hexos
