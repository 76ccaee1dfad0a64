import Hexos.Fs.Keep
import Hexos.Shell.Ledger

/-!
# HexOS — the current directory

`current_dir` is the one pointer of the shell that outlives a command. `cd name`
tests what the lookup returns before it changes the pointer. `cd ..` does not: it
takes what `recreate` returns, null included, and frees the node it had.

## Results

* `cd_failure_iff` — a `cd` that fails keeps the directory, but for the way up.
* `CurrentInv` — what holds between two commands, on any volume.
* `CurrentInv.command` — every command keeps it that does not reach a defect.
* `failing_cd_keeps_directory_iff` — the failing `cd`, and all runs.
-/

namespace Hexos

open Mem Transition

-- ---------------------------------------------------------------------------
-- A failing `cd`
-- ---------------------------------------------------------------------------

/-- The target of `cd dest` cannot be produced: the directory has no parent or its
`recreate` returns null; there is no such name, or it is no directory's. -/
def CdFails (env : Env) (fuel : Nat) (sh : Shell) (dest : CString) : Prop :=
  if dest = CString.dotDot then
    sh.parent.recreate = 0 ∨ ∃ s', callRecreate env fuel sh.machine sh.parent = .done (0, s')
  else
    ∃ node s', finddirFs env fuel sh.machine sh.currentDir dest = .done (node, s') ∧
      (node = 0 ∨ s'.mem.load32 (node + 268) &&& 7 ≠ fsDirectory)

/-- **A failing `cd`.** It keeps the directory and frees nothing, unless it is a `cd ..`
where there is a parent: then nothing is left. -/
theorem cd_failure_iff {env : ShellEnv} {fuel dir dir' : Nat} {l l' : Ledger} {dest : CString}
    {reply : CdReply} (hDir : dir ≠ 0) (hFails : CdFails env.toEnv fuel ⟨dir, l.machine⟩ dest)
    (h : (ledger env.toEnv fuel).shellCd env fuel dir l dest = .done (reply, dir', l')) :
    (dir' = dir ∧ l.live ≤ l'.live) ↔
      (dest = CString.dotDot → (Shell.parent ⟨dir, l.machine⟩).recreate = 0) := by
  unfold Services.shellCd at h
  by_cases hDest : dest = CString.dotDot
  · rw [if_pos hDest] at h
    unfold CdFails at hFails
    rw [if_pos hDest] at hFails
    simp only at h
    split at h
    · next hNone =>
      obtain ⟨-, rfl, rfl⟩ : _ ∧ dir = dir' ∧ l = l' := by simpa using h
      exact iff_of_true ⟨rfl, le_refl _⟩ fun _ => hNone
    · next hParent =>
      -- the pointer is null now
      obtain ⟨s', hNull⟩ := hFails.resolve_left hParent
      obtain ⟨⟨node, l₁⟩, hCall, h⟩ := Outcome.bind_eq_done.mp h
      obtain ⟨l₂, -, hEq⟩ := Outcome.map_eq_done.mp h
      obtain ⟨-, rfl, -⟩ : _ ∧ node = dir' ∧ l₂ = l' := by simpa using hEq
      obtain ⟨rfl, -⟩ : node = 0 ∧ _ := by
        simpa using (Ledger.callRecreate_model hCall).symm.trans hNull
      exact iff_of_false (fun hc => hDir hc.1.symm) fun hc => hParent (hc hDest)
  · rw [if_neg hDest] at h
    unfold CdFails at hFails
    rw [if_neg hDest] at hFails
    obtain ⟨node', s', hFind', hFails⟩ := hFails
    obtain ⟨⟨node, l₁⟩, hFind, hEnd⟩ := Outcome.map_eq_done.mp h
    obtain ⟨rfl, rfl⟩ : node = node' ∧ l₁.machine = s' := by
      simpa using (Ledger.finddirFs_model hFind).symm.trans hFind'
    have hLive : l.live ≤ l₁.live := by
      rcases Ledger.finddirFs_live hFind with ⟨-, hLive⟩ | ⟨-, -, hLive⟩
      · rw [hLive]
      · rw [hLive]
        exact Multiset.le_cons_self _ _
    refine iff_of_true ?_ fun hc => absurd hc hDest
    simp only at hEnd
    split at hEnd
    · obtain ⟨-, rfl, rfl⟩ : _ ∧ dir = dir' ∧ l₁ = l' := by simpa using hEnd
      exact ⟨rfl, hLive⟩
    · next hNode =>
      have hFile : (ledger env.toEnv fuel).mem l₁ = l₁.machine.mem := (rfl)
      rw [hFile, if_pos (hFails.resolve_left hNode)] at hEnd
      obtain ⟨-, rfl, rfl⟩ : _ ∧ dir = dir' ∧ l₁ = l' := by simpa using hEnd
      exact ⟨rfl, hLive⟩

-- ---------------------------------------------------------------------------
-- The invariant
-- ---------------------------------------------------------------------------

/-- Where the shell may be: at a global node, or at a live directory node of the volume
whose link can be followed. -/
inductive Whereabouts (env : Env) (fsInfo : Nat) (m : Mem) (live : List Alloc) : Nat → Prop
  | root : Whereabouts env fsInfo m live env.fsRoot
  | mnt : Whereabouts env fsInfo m live env.fsMnt
  | cdrom : Whereabouts env fsInfo m live env.fsCdromMnt
  | node {a inode : Nat} {parent : FsNodeMini} : ⟨a, 332⟩ ∈ live →
      viewNode m a = volumeView env fsInfo inode parent → parent.Link env fsInfo →
      Whereabouts env fsInfo m live a

/-- What holds between two commands. -/
structure CurrentInv (env : ShellEnv) (dev fsInfo : Nat) (sh : Shell)
    (live : List Alloc) : Prop where
  inv     : sh.machine.Inv live
  layout  : Layout env sh.machine.pages
  info    : ⟨fsInfo, 16⟩ ∈ live
  mounted : Mounted env.toEnv sh.machine.mem dev fsInfo
  listing : ∀ g ∈ [env.fsRoot, env.fsMnt], sh.machine.mem.load32 (g + 300) = env.rootReaddir
  current : Whereabouts env.toEnv fsInfo sh.machine.mem live sh.currentDir

/-- A live directory node: of the heap or global, and not null. -/
structure LiveDirectory (env : Env) (sh : Shell) (live : List Alloc) : Prop where
  inv     : sh.machine.Inv live
  ne_null : sh.currentDir ≠ 0
  node    : sh.currentDir ∈ [env.fsRoot, env.fsMnt, env.fsCdromMnt] ∨
      ⟨sh.currentDir, 332⟩ ∈ live
  flags   : sh.machine.mem.load32 (sh.currentDir + 268) = fsDirectory

section Invariant

variable {env : ShellEnv} {dev fsInfo fuel : Nat} {sh sh' : Shell} {s' : Machine}
  {live live' : List Alloc} {name : CString}

/-- What is held keeps the shell where it is. -/
theorem Whereabouts.keep {s : Machine} {a : Nat} (h : Whereabouts env.toEnv fsInfo s.mem live a)
    (hKeeps : Keeps env.toEnv s live s' live') : Whereabouts env.toEnv fsInfo s'.mem live' a := by
  cases h with
  | root => exact .root
  | mnt => exact .mnt
  | cdrom => exact .cdrom
  | node ha hView hLink =>
    have hSame := viewNode_congr (hKeeps.same _ _ (.of_live ha))
    exact .node (hKeeps.kept _ ha) (hSame.trans hView) hLink

/-- A command that keeps what is held may take the shell anywhere. -/
theorem CurrentInv.move {a : Nat} (h : CurrentInv env dev fsInfo sh live)
    (hKeeps : Keeps env.toEnv sh.machine live s' live')
    (hCurrent : Whereabouts env.toEnv fsInfo s'.mem live' a) :
    CurrentInv env dev fsInfo ⟨a, s'⟩ live' where
  inv := hKeeps.inv
  layout := hKeeps.pages ▸ h.layout
  info := hKeeps.kept _ h.info
  mounted := h.mounted.congr (fun _ hg => hKeeps.same _ _ (.of_global hg))
    (hKeeps.same _ _ (.of_live h.info))
  listing g hg := by
    have hg' : g ∈ [env.fsRoot, env.fsMnt, env.fsCdromMnt] := by
      simp only [List.mem_cons, List.not_mem_nil, or_false] at hg ⊢
      tauto
    rw [hKeeps.load32 (.of_global hg') (by omega), h.listing g hg]
  current := hCurrent

theorem CurrentInv.stay (h : CurrentInv env dev fsInfo sh live)
    (hKeeps : Keeps env.toEnv sh.machine live s' live') :
    CurrentInv env dev fsInfo ⟨sh.currentDir, s'⟩ live' := h.move hKeeps (h.current.keep hKeeps)

/-- Another node is freed. -/
theorem CurrentInv.free {a b : Nat} {s : Machine} (h : CurrentInv env dev fsInfo ⟨a, s⟩ live)
    (hMem : s'.mem = s.mem) (hPages : s'.pages = s.pages) (hInv : s'.Inv (live.erase ⟨b, 332⟩))
    (hNe : a ≠ b) : CurrentInv env dev fsInfo ⟨a, s'⟩ (live.erase ⟨b, 332⟩) where
  inv := hInv
  layout := hPages ▸ h.layout
  info := ShellInv.info_mem_erase h.info
  mounted := hMem ▸ h.mounted
  listing := hMem ▸ h.listing
  current := by
    have hCurrent := h.current
    rw [← hMem] at hCurrent
    cases hCurrent with
    | root => exact .root
    | mnt => exact .mnt
    | cdrom => exact .cdrom
    | node ha hView hLink =>
      exact .node ((List.mem_erase_of_ne (by simpa using hNe)).mpr ha) hView hLink

/-- The current directory is of one of two kinds: of the virtual file system, or of the
volume. -/
theorem CurrentInv.kinds (h : CurrentInv env dev fsInfo sh live) :
    Held env.toEnv live sh.currentDir 332 ∧
    sh.machine.mem.load32 (sh.currentDir + 268) = fsDirectory ∧
    ((sh.machine.mem.load32 (sh.currentDir + 304) = env.rootFinddir ∧
        sh.machine.mem.load32 (sh.currentDir + 300) = env.rootReaddir) ∨
      (sh.machine.mem.load32 (sh.currentDir + 304) = env.iso9660Finddir ∧
        sh.machine.mem.load32 (sh.currentDir + 280) = fsInfo ∧
        (sh.machine.mem.load32 (sh.currentDir + 308) = env.rootRecreate ∨
          sh.machine.mem.load32 (sh.currentDir + 308) = env.iso9660Recreate))) := by
  have hCurrent := h.current
  generalize sh.currentDir = cur at hCurrent
  cases hCurrent with
  | root =>
    have hView := h.mounted.root
    exact ⟨.of_global (by simp), congrArg NodeView.flags hView,
      Or.inl ⟨congrArg NodeView.finddir hView, h.listing _ (by simp)⟩⟩
  | mnt =>
    have hView := h.mounted.mnt
    exact ⟨.of_global (by simp), congrArg NodeView.flags hView,
      Or.inl ⟨congrArg NodeView.finddir hView, h.listing _ (by simp)⟩⟩
  | cdrom =>
    have hView := h.mounted.cdrom
    exact ⟨.of_global (by simp), congrArg NodeView.flags hView,
      Or.inr ⟨congrArg NodeView.finddir hView, congrArg NodeView.impl hView,
        Or.inl (congrArg NodeView.recreate hView)⟩⟩
  | node ha hView _ =>
    exact ⟨.of_live ha, congrArg NodeView.flags hView,
      Or.inr ⟨congrArg NodeView.finddir hView, congrArg NodeView.impl hView,
        Or.inr (congrArg NodeView.recreate hView)⟩⟩

theorem CurrentInv.liveDirectory (h : CurrentInv env dev fsInfo sh live) :
    LiveDirectory env.toEnv sh live := by
  obtain ⟨hRoot0, hMnt0, hCdrom0, -⟩ := env.globals_ne_null
  refine ⟨h.inv, ?_, ?_, h.kinds.2.1⟩
  · have hCurrent := h.current
    generalize sh.currentDir = cur at hCurrent
    cases hCurrent with
    | root => exact hRoot0
    | mnt => exact hMnt0
    | cdrom => exact hCdrom0
    | node ha _ _ =>
      have hAligned := (h.inv.range ha).2.1
      simp only at hAligned
      omega
  · have hCurrent := h.current
    generalize sh.currentDir = cur at hCurrent
    cases hCurrent with
    | root => exact Or.inl (by simp)
    | mnt => exact Or.inl (by simp)
    | cdrom => exact Or.inl (by simp)
    | node ha _ _ => exact Or.inr ha

end Invariant

-- ---------------------------------------------------------------------------
-- The commands
-- ---------------------------------------------------------------------------

/-- The sector of the directory at `dir`. -/
def Machine.sector (env : Env) (s : Machine) (dir : Nat) : Mem :=
  env.devices (s.mem.load32 (s.mem.load32 (dir + 280))) (s.mem.load32 (dir + 272))

/-- The directory at `dir`, if it is one of a volume, is well-formed and its records
are as asked for. -/
def WellFormed (env : Env) (s : Machine) (dir : Nat) (Ok : List DirRecord → Prop) : Prop :=
  OnVolume env s dir →
    ∃ dot dotDot rest, IsDirectory (s.sector env dir) dot dotDot rest ∧ Ok rest

/-- The commands that reach no defect: the directory they look at is well-formed, a file
that `cat` prints has a length that is neither 0 nor negative, and `cd ..` is given where
the parent can be made again, from a sector that starts with a '.' record. -/
def Sound (env : ShellEnv) (fuel : Nat) (sh : Shell) : Command → Prop
  | .ls => WellFormed env.toEnv sh.machine sh.currentDir fun _ => True
  | .cat dest => WellFormed env.toEnv sh.machine sh.currentDir fun rest =>
      ∀ r, lookup dest.bytes rest = some r → r.flags &&& 2 = 0 →
        0 < r.fileLength ∧ r.fileLength < 2 ^ 31
  | .filesize _ => WellFormed env.toEnv sh.machine sh.currentDir fun _ => True
  | .cd dest =>
    if dest = CString.dotDot then
      (∀ s', callRecreate env.toEnv fuel sh.machine sh.parent ≠ .done (0, s')) ∧
        (sh.parent.recreate = env.iso9660Recreate → ∃ lba,
          IsDot (env.devices (sh.machine.mem.load32 sh.parent.impl) sh.parent.inode) lba)
    else WellFormed env.toEnv sh.machine sh.currentDir fun _ => True
  | _ => True

section Commands

variable {env : ShellEnv} {dev fsInfo fuel : Nat} {sh sh' : Shell} {s' : Machine}
  {live live' : List Alloc} {dest : CString}

/-- The current directory as one of the volume. -/
theorem CurrentInv.dirAt (h : CurrentInv env dev fsInfo sh live)
    (hImpl : sh.machine.mem.load32 (sh.currentDir + 280) = fsInfo) :
    DirAt env.toEnv sh.machine live sh.currentDir fsInfo
      (sh.machine.mem.load32 (sh.currentDir + 272))
        (sh.machine.sector env.toEnv sh.currentDir) := by
  refine ⟨h.kinds.1.stable h.layout.nodes, stable_of_live h.info, hImpl, rfl, ?_⟩
  unfold Machine.sector
  rw [hImpl]

/-- **A lookup** finds nothing, a directory the shell may go to, or a file, whose node
is live. -/
theorem CurrentInv.finddir {Ok : List DirRecord → Prop} {p : Nat}
    (h : CurrentInv env dev fsInfo sh live) (hFuel : 256 ≤ fuel)
    (hWell : WellFormed env.toEnv sh.machine sh.currentDir Ok)
    (hRun : finddirFs env.toEnv fuel sh.machine sh.currentDir dest = .done (p, s')) :
    ∃ live', Keeps env.toEnv sh.machine live s' live' ∧
      (p = 0 ∨ Whereabouts env.toEnv fsInfo s'.mem live' p ∨
        (⟨p, 332⟩ ∈ live' ∧ s'.mem.load32 (p + 268) = fsFile ∧ ∃ rest r, Ok rest ∧
          lookup dest.bytes rest = some r ∧ r.flags &&& 2 = 0 ∧
          s'.mem.load32 (p + 276) = r.fileLength)) := by
  obtain ⟨-, hFlags, hKind⟩ := h.kinds
  rcases hKind with ⟨hFinddir, -⟩ | ⟨hFinddir, hImpl, hRecreate⟩
  · -- a directory of the virtual file system
    obtain ⟨rfl, rfl⟩ := finddirFs_root hFlags hFinddir hRun
    refine ⟨live, .refl h.inv fun _ hal => hal, ?_⟩
    unfold rootFinddir
    split
    · split
      · exact Or.inr (Or.inl .mnt)
      · exact Or.inl rfl
    · split
      · split
        · exact Or.inr (Or.inl .cdrom)
        · exact Or.inl rfl
      · exact Or.inl rfl
  · have hVolume : OnVolume env.toEnv sh.machine sh.currentDir :=
      ⟨by rw [hFlags]; decide, hFinddir⟩
    rw [finddirFs_onVolume hVolume] at hRun
    obtain ⟨dot, dotDot, rest, hSec, hOk⟩ := hWell hVolume
    rcases finddir_keeps h.layout.nodes h.inv (h.dirAt hImpl) hSec hFuel hRun with
      ⟨rfl, hKeeps⟩ | ⟨r, hLook, hKeeps, hNode⟩
    · exact ⟨live, hKeeps, Or.inl rfl⟩
    · refine ⟨_, hKeeps, Or.inr ?_⟩
      by_cases hDir : r.flags &&& 2 ≠ 0
      · -- the new node links to the current directory
        have hView := hNode.view
        rw [if_pos hDir] at hView
        exact Or.inl (.node List.mem_cons_self hView (hRecreate.imp id fun hc => ⟨rfl, hc⟩))
      · have hFile := hNode.flags
        rw [if_neg hDir] at hFile
        exact Or.inr ⟨List.mem_cons_self, hFile, rest, r, hOk, hLook, not_not.mp hDir,
          hNode.length⟩

/-- **`cd name`.** -/
theorem CurrentInv.down {reply : CdReply} (h : CurrentInv env dev fsInfo sh live)
    (hFuel : 256 ≤ fuel) (hDest : dest ≠ CString.dotDot)
    (hWell : WellFormed env.toEnv sh.machine sh.currentDir fun _ => True)
    (hRun : shellCd env.toEnv fuel sh dest = .done (reply, sh')) :
    ∃ live', CurrentInv env dev fsInfo sh' live' := by
  unfold shellCd at hRun
  rw [if_neg hDest] at hRun
  obtain ⟨⟨p, s'⟩, hFind, hEnd⟩ := Outcome.map_eq_done.mp hRun
  obtain ⟨live', hKeeps, hCases⟩ := h.finddir hFuel hWell hFind
  refine ⟨live', ?_⟩
  simp only at hEnd
  split at hEnd
  · obtain ⟨-, rfl⟩ := Prod.mk.inj hEnd
    exact h.stay hKeeps
  · next hNode =>
    split at hEnd
    · obtain ⟨-, rfl⟩ := Prod.mk.inj hEnd
      exact h.stay hKeeps
    · next hDir =>
      obtain ⟨-, rfl⟩ := Prod.mk.inj hEnd
      rcases hCases with hNull | hWhere | ⟨-, hFile, -⟩
      · exact absurd hNull hNode
      · exact h.move hKeeps hWhere
      · exact absurd (by rw [hFile]; decide) hDir

theorem CurrentInv.filesize {text : List UInt8} (h : CurrentInv env dev fsInfo sh live)
    (hFuel : 256 ≤ fuel) (hWell : WellFormed env.toEnv sh.machine sh.currentDir fun _ => True)
    (hRun : shellFilesize env.toEnv fuel sh dest = .done (text, sh')) :
    ∃ live', CurrentInv env dev fsInfo sh' live' := by
  unfold shellFilesize at hRun
  obtain ⟨⟨p, s'⟩, hFind, hEnd⟩ := Outcome.bind_eq_done.mp hRun
  obtain ⟨live', hKeeps, -⟩ := h.finddir hFuel hWell hFind
  refine ⟨live', ?_⟩
  obtain rfl : ⟨sh.currentDir, s'⟩ = sh' := by
    simp only at hEnd
    split at hEnd
    · exact (Prod.mk.inj (Outcome.done.inj hEnd)).2
    · split at hEnd
      · exact (Prod.mk.inj (Outcome.done.inj hEnd)).2
      · obtain ⟨size, -, hEq⟩ := Outcome.map_eq_done.mp hEnd
        exact (Prod.mk.inj hEq).2
  exact h.stay hKeeps

theorem openFs_done {env : Env} {s : Machine} {node : Nat} (h : openFs env s node = .done s') :
    s' = s := by
  unfold openFs at h
  simp only at h
  split at h
  · split at h
    · exact (Outcome.done.inj h).symm
    · cases h
  · exact (Outcome.done.inj h).symm

/-- **`cat name`.** Its buffer is freed again, and the node of the file stays. -/
theorem CurrentInv.cat {text : List UInt8} (h : CurrentInv env dev fsInfo sh live)
    (hFuel : 256 ≤ fuel)
    (hWell : WellFormed env.toEnv sh.machine sh.currentDir fun rest =>
      ∀ r, lookup dest.bytes rest = some r → r.flags &&& 2 = 0 →
        0 < r.fileLength ∧ r.fileLength < 2 ^ 31)
    (hRun : shellCat env.toEnv fuel sh dest = .done (text, sh')) :
    ∃ live', CurrentInv env dev fsInfo sh' live' := by
  unfold shellCat at hRun
  obtain ⟨⟨p, s₁⟩, hFind, hEnd⟩ := Outcome.bind_eq_done.mp hRun
  obtain ⟨live', hKeeps, hCases⟩ := h.finddir hFuel hWell hFind
  have hThere : CurrentInv env dev fsInfo ⟨sh.currentDir, s₁⟩ live' := h.stay hKeeps
  refine ⟨live', ?_⟩
  simp only at hEnd
  split at hEnd
  · obtain ⟨-, rfl⟩ := Prod.mk.inj (Outcome.done.inj hEnd)
    exact hThere
  · next hNode =>
    split at hEnd
    · obtain ⟨-, rfl⟩ := Prod.mk.inj (Outcome.done.inj hEnd)
      exact hThere
    · next hFile =>
      -- what is no directory is a file
      obtain ⟨hLive, -, rest, r, hOk, hLook, hPlain, hLength⟩ :
        ⟨p, 332⟩ ∈ live' ∧ _ := by
        rcases hCases with hNull | hWhere | hFound
        · exact absurd hNull hNode
        · exact absurd (by rw [(h.move hKeeps hWhere).kinds.2.1]; decide) hFile
        · exact hFound
      obtain ⟨hPos, hSmall⟩ := hOk r hLook hPlain
      obtain ⟨⟨filebuf, s₂⟩, hAlloc, hEnd⟩ := Outcome.bind_eq_done.mp hEnd
      obtain ⟨s₃, hOpen, hEnd⟩ := Outcome.bind_eq_done.mp hEnd
      obtain rfl := openFs_done hOpen
      obtain ⟨⟨content, s₄⟩, hLoop, hEnd⟩ := Outcome.bind_eq_done.mp hEnd
      obtain ⟨s₅, hFree, hEq⟩ := Outcome.map_eq_done.mp hEnd
      obtain ⟨-, rfl⟩ := Prod.mk.inj hEq
      have hKalloc : Keeps env.toEnv s₁ live' s₃ (⟨filebuf, 2049⟩ :: live') :=
        .kalloc hKeeps.inv (by omega) hAlloc
      have hLength' : s₃.mem.load32 (p + 276) = r.fileLength := by
        rw [hKalloc.load32 (.of_live hLive) (by simp), hLength]
      have hInt : intOf r.fileLength = (r.fileLength : Int) := if_pos hSmall
      simp only [hLength', hInt] at hLoop
      have hApart : GlobalsApart env.toEnv s₃.pages := hKalloc.pages ▸ hThere.layout.nodes
      have hCat :=
        catLoop_keeps hApart hKalloc.inv hLive (by rw [hLength']; exact hPos) (by omega) hLoop
      have hKfree : Keeps env.toEnv s₄ live' s₅ live' := .kfree hCat.inv hFree
      exact hThere.stay ((hKalloc.trans hCat).trans hKfree)

theorem CurrentInv.ls {text : List UInt8} (h : CurrentInv env dev fsInfo sh live)
    (hFuel : 256 ≤ fuel)
    (hWell : WellFormed env.toEnv sh.machine sh.currentDir fun _ => True)
    (hRun : shellLs env fuel sh = .done (text, sh')) :
    ∃ live', CurrentInv env dev fsInfo sh' live' := by
  obtain ⟨⟨out, s'⟩, hLoop, hEq⟩ := Outcome.map_eq_done.mp hRun
  obtain ⟨-, rfl⟩ := Prod.mk.inj hEq
  obtain ⟨hHeld, hFlags, hKind⟩ := h.kinds
  have hList : Listable env sh.machine live sh.currentDir := by
    rcases hKind with ⟨-, hReaddir⟩ | ⟨hFinddir, hImpl, -⟩
    · exact Or.inl hReaddir
    · obtain ⟨dot, dotDot, rest, hSec, -⟩ := hWell ⟨by rw [hFlags]; decide, hFinddir⟩
      exact Or.inr ⟨fsInfo, _, _, dot, dotDot, rest, .of_live h.info, h.dirAt hImpl, hSec⟩
  exact ⟨live, h.stay (lsLoop_keeps h.layout h.inv hHeld hList hFuel hLoop)⟩

/-- The current directory has no parent, or a link that can be followed. -/
theorem CurrentInv.parent_link (h : CurrentInv env dev fsInfo sh live) :
    sh.parent.recreate = 0 ∨ sh.parent.Link env.toEnv fsInfo := by
  have hCurrent := h.current
  unfold Shell.parent
  generalize sh.currentDir = cur at hCurrent
  cases hCurrent with
  | root => exact Or.inl (congrArg (fun view => view.parent.recreate) h.mounted.root)
  | mnt => exact Or.inr (Or.inl (congrArg (fun view => view.parent.recreate) h.mounted.mnt))
  | cdrom => exact Or.inr (Or.inl (congrArg (fun view => view.parent.recreate) h.mounted.cdrom))
  | @node _ _ parent _ hView hLink =>
    have hParent : loadMini sh.machine.mem (cur + 316) = parent := congrArg NodeView.parent hView
    exact Or.inr (hParent ▸ hLink)

/-- The parent is made again: the shell may go there, and the node it leaves is another
one. -/
theorem CurrentInv.recreate {node : Nat} (h : CurrentInv env dev fsInfo sh live)
    (hFuel : 256 ≤ fuel) (hNode : node ≠ 0) (hLink : sh.parent.Link env.toEnv fsInfo)
    (hDot : sh.parent.recreate = env.iso9660Recreate → ∃ lba,
      IsDot (env.devices (sh.machine.mem.load32 sh.parent.impl) sh.parent.inode) lba)
    (hRun : callRecreate env.toEnv fuel sh.machine sh.parent = .done (node, s')) :
    ∃ live', Keeps env.toEnv sh.machine live s' live' ∧
      CurrentInv env dev fsInfo ⟨node, s'⟩ live' ∧
      (⟨sh.currentDir, 332⟩ ∈ live → node ≠ sh.currentDir) := by
  rcases hLink with hRoot | ⟨hImpl, hIso⟩
  · rw [callRecreate_root _ hRoot] at hRun
    obtain ⟨rfl, rfl⟩ := Prod.mk.inj (Outcome.done.inj hRun)
    have hKeeps : Keeps env.toEnv sh.machine live sh.machine live := .refl h.inv fun _ hal => hal
    unfold rootRecreate at hNode ⊢
    split
    · exact ⟨live, hKeeps, h.move hKeeps .root,
        fun ha => (h.layout.nodes.ne_live h.inv ha (by simp)).symm⟩
    · next hInode =>
      rw [if_neg hInode] at hNode
      split
      · exact ⟨live, hKeeps, h.move hKeeps .mnt,
          fun ha => (h.layout.nodes.ne_live h.inv ha (by simp)).symm⟩
      · next hInode' =>
        rw [if_neg hInode'] at hNode
        exact absurd rfl hNode
  · rw [callRecreate_iso9660 _ hIso] at hRun
    obtain ⟨lba, hDot⟩ := hDot hIso
    rw [hImpl, h.mounted.volume.dev] at hDot
    have hParent : sh.parent = ⟨sh.parent.inode, fsInfo, sh.parent.recreate⟩ := by
      rw [← hImpl]
    rw [hParent] at hRun
    obtain ⟨r, inode, parent, hKeeps, hView, hLink⟩ :=
      recreate_keeps h.layout.nodes h.inv h.info
      h.mounted.volume hDot (by omega) hRun hNode
    refine ⟨_, hKeeps, h.move hKeeps (.node List.mem_cons_self hView hLink), ?_⟩
    intro ha
    have hApart := hKeeps.inv.apart (List.mem_cons_of_mem _ ha)
    simp only at hApart
    omega

/-- **`cd ..`**, where the parent can be made again. -/
theorem CurrentInv.up {reply : CdReply} (h : CurrentInv env dev fsInfo sh live)
    (hFuel : 256 ≤ fuel)
    (hUp : ∀ s', callRecreate env.toEnv fuel sh.machine sh.parent ≠ .done (0, s'))
    (hDot : sh.parent.recreate = env.iso9660Recreate → ∃ lba,
      IsDot (env.devices (sh.machine.mem.load32 sh.parent.impl) sh.parent.inode) lba)
    (hRun : shellCd env.toEnv fuel sh CString.dotDot = .done (reply, sh')) :
    ∃ live', CurrentInv env dev fsInfo sh' live' := by
  by_cases hNone : sh.parent.recreate = 0
  · unfold shellCd at hRun
    rw [if_pos rfl] at hRun
    obtain ⟨-, rfl⟩ : _ ∧ sh = sh' := by simpa using (if_pos hNone).symm.trans hRun
    exact ⟨live, h⟩
  rw [shellCd_up hNone] at hRun
  obtain ⟨⟨node, s₁⟩, hCall, hRun⟩ := Outcome.bind_eq_done.mp hRun
  obtain ⟨s₂, hFree, hEq⟩ := Outcome.map_eq_done.mp hRun
  obtain ⟨-, rfl⟩ := Prod.mk.inj hEq
  have hNode : node ≠ 0 := fun hc => hUp s₁ (hc ▸ hCall)
  obtain ⟨live₁, hKeeps, hThere, hNe⟩ :=
    h.recreate hFuel hNode (h.parent_link.resolve_left hNone) hDot hCall
  -- the old node: a global one is not freed
  have hWord := hKeeps.load32 h.kinds.1 (show 312 + 4 ≤ 332 by omega)
  have hGlobal : sh.machine.mem.load32 (sh.currentDir + 312) = env.rootFreeNode →
      ∃ live', CurrentInv env dev fsInfo ⟨node, s₂⟩ live' := by
    intro hRoot
    unfold callFreeNode at hFree
    simp only [hWord.trans hRoot, if_true] at hFree
    obtain rfl := Outcome.done.inj hFree
    exact ⟨live₁, hThere⟩
  have hCurrent := h.current
  generalize hCur : sh.currentDir = cur at hCurrent
  cases hCurrent with
  | root => exact hGlobal (hCur ▸ congrArg NodeView.freeNode h.mounted.root)
  | mnt => exact hGlobal (hCur ▸ congrArg NodeView.freeNode h.mounted.mnt)
  | cdrom => exact hGlobal (hCur ▸ congrArg NodeView.freeNode h.mounted.cdrom)
  | node ha hView _ =>
    rw [← hCur] at ha hView
    have hFreeNode : sh.machine.mem.load32 (sh.currentDir + 312) = env.iso9660FreeNode :=
      congrArg NodeView.freeNode hView
    obtain ⟨s₃, hFree', hMem, hPages, hInv⟩ := callFreeNode_iso9660 env.toEnv hKeeps.inv
      (hKeeps.kept _ ha) (hWord.trans hFreeNode)
    obtain rfl : s₃ = s₂ := Outcome.done.inj (hFree'.symm.trans hFree)
    exact ⟨_, hThere.free hMem hPages hInv (hNe ha)⟩

/-- **Step lemma.** Every sound command. -/
theorem CurrentInv.command {World : Type}
    {processCommand : ProcessCommand → World → Outcome (List UInt8 × World)} {c : Command}
    {text : List UInt8} {world world' : World} (h : CurrentInv env dev fsInfo sh live)
    (hFuel : 256 ≤ fuel) (hSound : Sound env fuel sh c)
    (hRun : runCommand processCommand env fuel sh world c = .done (text, sh', world')) :
    ∃ live', CurrentInv env dev fsInfo sh' live' := by
  cases c with
  | ls =>
    obtain ⟨⟨out, sh₁⟩, hLs, hEq⟩ := Outcome.map_eq_done.mp hRun
    obtain ⟨-, rfl, -⟩ : _ ∧ sh₁ = sh' ∧ _ := by simpa using hEq
    exact h.ls hFuel hSound hLs
  | cat dest =>
    obtain ⟨⟨out, sh₁⟩, hCat, hEq⟩ := Outcome.map_eq_done.mp hRun
    obtain ⟨-, rfl, -⟩ : _ ∧ sh₁ = sh' ∧ _ := by simpa using hEq
    exact h.cat hFuel hSound hCat
  | filesize dest =>
    obtain ⟨⟨out, sh₁⟩, hSize, hEq⟩ := Outcome.map_eq_done.mp hRun
    obtain ⟨-, rfl, -⟩ : _ ∧ sh₁ = sh' ∧ _ := by simpa using hEq
    exact h.filesize hFuel hSound hSize
  | cd dest =>
    obtain ⟨⟨reply, sh₁⟩, hCd, hEq⟩ := Outcome.map_eq_done.mp hRun
    obtain ⟨-, rfl, -⟩ : _ ∧ sh₁ = sh' ∧ _ := by simpa using hEq
    by_cases hDest : dest = CString.dotDot
    · subst hDest
      rw [Sound, if_pos rfl] at hSound
      exact h.up hFuel hSound.1 hSound.2 hCd
    · rw [Sound, if_neg hDest] at hSound
      exact h.down hFuel hDest hSound hCd
  | process command =>
    -- the rest of the kernel has no part in the shell's variables
    have hSame : sh = sh' := by
      cases command with
      | _ =>
        obtain ⟨⟨out, world₁⟩, -, hEq⟩ := Outcome.map_eq_done.mp hRun
        exact (Prod.mk.inj (Prod.mk.inj hEq).2).1
    exact ⟨live, hSame ▸ h⟩
  | _ =>
    obtain ⟨-, rfl, -⟩ : _ ∧ sh = sh' ∧ _ := by simpa [runCommand] using hRun
    exact ⟨live, h⟩

end Commands

-- ---------------------------------------------------------------------------
-- Runs
-- ---------------------------------------------------------------------------

/-- All runs of command lines after the mount of a volume, each command of which meets
the condition `Ok` and returns. -/
def shellSystem {World : Type}
    (processCommand : ProcessCommand → World → Outcome (List UInt8 × World))
    (env : ShellEnv) (dev : Nat) (Ok : Nat → Shell → Command → Prop) :
    System (Shell × World) where
  init st := ∃ s live fuel, s.Inv live ∧ Layout env s.pages ∧ Bss env.toEnv s.mem ∧
    mountCdrom env.toEnv fuel s dev = .done st.1
  step st st' := ∃ fuel buffer len text, 256 ≤ fuel ∧
    (∀ c, shellCommand fuel buffer len = .done c → Ok fuel st.1 c) ∧
    shellRuncmd processCommand env fuel buffer len st.1 st.2 = .done (text, st'.1, st'.2)

section Runs

variable {World : Type}
  {processCommand : ProcessCommand → World → Outcome (List UInt8 × World)}
  {env : ShellEnv} {dev : Nat}

/-- The listings of the virtual file system. -/
theorem vfsInit_readdir (env : ShellEnv) (m : Mem) : ∀ g ∈ [env.fsRoot, env.fsMnt],
    (vfsInit env.toEnv m).load32 (g + 300) = env.rootReaddir := by
  obtain ⟨hRootMnt, hRootCdrom, hMntCdrom⟩ := env.nodes_apart
  have hWord := env.readdir_ne.2.2.2.1
  intro g hg
  simp only [List.mem_cons, List.not_mem_nil, or_false] at hg
  rcases hg with rfl | rfl
  · unfold vfsInit initRoot
    simp (disch := omega) only [load32_store32_other, load32_store32 hWord]
  · unfold vfsInit initRoot initMnt
    simp (disch := omega) only [load32_store32_other, load32_store32 hWord]

/-- **Run lemma.** -/
theorem current_reachable_inv (hDev : dev < 2 ^ 32) {st : Shell × World}
    (hr : Reachable (shellSystem processCommand env dev (Sound env)) st) :
    ∃ fsInfo live, CurrentInv env dev fsInfo st.1 live := by
  refine Reachable.invariant
    (I := fun st => ∃ fsInfo live, CurrentInv env dev fsInfo st.1 live) ?_ ?_ hr
  · rintro ⟨sh, world⟩ ⟨s, live, fuel, hInv, hLayout, hBss, hMount⟩
    obtain ⟨fsInfo, buffer2, hDir, hInv', hPages, hMounted, hAbove⟩ :=
      mountCdrom_frame hInv hLayout.nodes hBss hDev hMount
    refine ⟨fsInfo, _, hInv', by rw [hPages]; exact hLayout, by simp, hMounted, ?_, ?_⟩
    · intro g hg
      rw [((hAbove g hg).sub (by omega) (by omega)).load32]
      exact vfsInit_readdir env s.mem g hg
    · rw [hDir]
      exact .root
  · rintro ⟨sh, world⟩ ⟨sh', world'⟩ - ⟨fsInfo, live, h⟩
      ⟨fuel, buffer, len, text, hFuel, hSound, hRun⟩
    obtain ⟨c, hCommand, hRun⟩ := Outcome.bind_eq_done.mp hRun
    exact ⟨fsInfo, h.command hFuel (hSound c hCommand) hRun⟩

end Runs

/-- **Failing commands and the current directory.** For every volume and every shell
with a current directory, a `cd` whose target cannot be produced keeps the directory and
frees nothing if and only if it is not a `cd ..` where there is a parent. In every run
of commands that are sound, whatever the volume, the current directory is a live
directory node in every state reached. -/
theorem failing_cd_keeps_directory_iff {World : Type}
    (processCommand : ProcessCommand → World → Outcome (List UInt8 × World)) (env : ShellEnv)
    (dev : Nat) (hDev : dev < 2 ^ 32) :
    (∀ fuel buffer len dest sh world live text sh' world',
      shellCommand fuel buffer len = .done (.cd dest) → sh.currentDir ≠ 0 →
      CdFails env.toEnv fuel sh dest →
      shellRuncmd processCommand env fuel buffer len sh world = .done (text, sh', world') →
      ∃ live',
        (ledger env.toEnv fuel).shellRuncmd env fuel processCommand buffer len sh.currentDir
          ⟨sh.machine, live⟩ world =
            .done (text, (sh'.currentDir, ⟨sh'.machine, live'⟩), world') ∧
        ((sh'.currentDir = sh.currentDir ∧ live ≤ live') ↔
          (dest = CString.dotDot → sh.parent.recreate = 0))) ∧
    ∀ sh world, Reachable (shellSystem processCommand env dev (Sound env)) (sh, world) →
      ∃ live, LiveDirectory env.toEnv sh live := by
  refine ⟨?_, ?_⟩
  · intro fuel buffer len dest sh world live text sh' world' hCommand hDir hFails hRun
    obtain ⟨live', hLedger⟩ := ledger_shellRuncmd live hRun
    obtain ⟨dir', s'⟩ := sh'
    refine ⟨live', hLedger, ?_⟩
    unfold Services.shellRuncmd at hLedger
    rw [hCommand, Outcome.bind_done] at hLedger
    obtain ⟨⟨reply, _⟩, hCd, hEq⟩ := Outcome.map_eq_done.mp hLedger
    simp only [Prod.mk.injEq] at hEq
    obtain ⟨-, rfl, -⟩ := hEq
    exact cd_failure_iff (l := ⟨sh.machine, live⟩) hDir hFails hCd
  · intro sh world hr
    obtain ⟨fsInfo, live, h⟩ := current_reachable_inv hDev hr
    exact ⟨live, h.liveDirectory⟩

-- ---------------------------------------------------------------------------
-- The volume with the directories D and D/E
-- ---------------------------------------------------------------------------

/-- The shell after the given lines, each of which passes the check. -/
def runLines (check : Shell → String → Bool) (lines : List String) : Option Shell :=
  (sampleShell treeDisk).bind fun sh => lines.foldlM (fun sh line =>
    if check sh line then
      (shellRuncmd idleProcesses (sampleShellEnv treeDisk) 600 (lineBuffer line) line.length sh
        ()).toOption.map fun (_, sh, _) => sh
    else none) sh

theorem samplePages_layout {disk : Nat → Mem} {heap : KernelHeap} {m' : PageMem}
    (h : mainHeapInit (fun _ => 0) samplePages = .done (heap, m')) :
    Layout (sampleShellEnv disk) (heap.map (·.addr)) := by
  have hLow := samplePages_low h
  refine ⟨samplePages_apart h, ?_, by simp [sampleShellEnv, sampleEnv]⟩
  intro r hr addr hAddr
  have := hLow addr hAddr
  simp only [sampleShellEnv, sampleEnv, List.mem_cons, List.not_mem_nil, or_false] at hr
  omega

theorem runLines_reachable {Ok : Nat → Shell → Command → Prop}
    {check : Shell → String → Bool} (hCheck : ∀ sh line c, check sh line = true →
      shellCommand 600 (lineBuffer line) line.length = .done c → Ok 600 sh c)
    {lines : List String} {sh : Shell} (h : runLines check lines = some sh) :
    Reachable (shellSystem idleProcesses (sampleShellEnv treeDisk) 1 Ok) (sh, ()) := by
  obtain ⟨sh₀, hShell, hRun⟩ := Option.bind_eq_some_iff.mp h
  have hInit :
      Reachable (shellSystem idleProcesses (sampleShellEnv treeDisk) 1 Ok) (sh₀, ()) := by
    obtain ⟨heap, m', hMain, hMount⟩ := sampleShell_done hShell
    have hInv : Machine.Inv ⟨heap, fun _ => 0⟩ [] := (mainHeapInit_init (by decide) hMain).inv
    exact .init ⟨⟨heap, fun _ => 0⟩, [], 600, hInv, samplePages_layout hMain,
      fun _ _ _ _ => rfl, hMount⟩
  clear hShell h
  induction lines generalizing sh₀ with
  | nil =>
    obtain rfl : sh₀ = sh := by simpa using hRun
    exact hInit
  | cons line lines ih =>
    rw [List.foldlM_cons] at hRun
    obtain ⟨sh₁, hStep, hRun⟩ := Option.bind_eq_some_iff.mp hRun
    refine ih sh₁ hRun (.step hInit ?_)
    split at hStep
    · next hOk =>
      obtain ⟨⟨text, sh₂, _⟩, hLine, rfl⟩ := Option.map_eq_some_iff.mp hStep
      exact ⟨600, lineBuffer line, line.length, text, by omega, fun c => hCheck sh₀ line c hOk,
        Outcome.toOption_eq_some.mp hLine⟩
    · cases hStep

/-- A `cd` down from a directory of the volume or of the virtual file system. -/
def goesDown (sh : Shell) (line : String) : Bool :=
  match shellCommand 600 (lineBuffer line) line.length with
  | .done (.cd dest) => decide (dest ≠ CString.dotDot ∧
      (sh.machine.mem.load32 (sh.currentDir + 304) = 0x50A0 →
        sh.machine.mem.load32 (sh.currentDir + 272) ∈ [20, 21, 22]))
  | _ => false

theorem goesDown_sound (sh : Shell) (line : String) (c : Command) (h : goesDown sh line = true)
    (hCommand : shellCommand 600 (lineBuffer line) line.length = .done c) :
    Sound (sampleShellEnv treeDisk) 600 sh c := by
  unfold goesDown at h
  rw [hCommand] at h
  split at h
  · next dest hEq =>
    obtain rfl := Outcome.done.inj hEq
    obtain ⟨hDest, hInode⟩ := of_decide_eq_true h
    rw [Sound, if_neg hDest]
    rintro ⟨-, hFinddir⟩
    have hEntry : ∀ lba ∈ [20, 21, 22], ∃ e ∈ treeEntries, e.lba = lba := by decide
    obtain ⟨e, he, hLba⟩ := hEntry _ (hInode hFinddir)
    obtain ⟨dot, dotDot, hSec⟩ := tree_directories e he
    rw [hLba] at hSec
    exact ⟨dot, dotDot, treeRecords _, hSec, trivial⟩
  · cases h

/-- In `/mnt/cdrom0/D`, which is a live directory, `cd X` fails and leaves the shell
there. -/
theorem failing_cd_stays_in_subdirectory :
    ∃ (sh : Shell) (text : List UInt8) (sh' : Shell) (live : List Alloc) (live' : Multiset Nat),
      LiveDirectory (sampleEnv treeDisk) sh live ∧
      (ledger (sampleEnv treeDisk) 600).shellRuncmd (sampleShellEnv treeDisk) 600 idleProcesses
        (lineBuffer "cd X") 4 sh.currentDir ⟨sh.machine, {sh.currentDir}⟩ () =
          .done (text, (sh'.currentDir, ⟨sh'.machine, live'⟩), ()) ∧
      sh'.currentDir = sh.currentDir ∧ sh.currentDir ∈ live' := by
  have hCommand : (shellCommand 600 (lineBuffer "cd X") 4).toOption =
      some (.cd ⟨[0x58], by decide⟩) := by decide +kernel
  have hEval : (runLines goesDown ["cd mnt", "cd cdrom0", "cd D"]).map (fun sh =>
      (decide (sh.currentDir ≠ 0),
        (finddirFs (sampleEnv treeDisk) 600 sh.machine sh.currentDir
          ⟨[0x58], by decide⟩).toOption.map (·.1),
        (shellRuncmd idleProcesses (sampleShellEnv treeDisk) 600 (lineBuffer "cd X") 4 sh
          ()).toOption.isSome)) = some (true, some 0, true) := by decide +kernel
  obtain ⟨sh, hLines, hEval⟩ := Option.map_eq_some_iff.mp hEval
  simp only [Prod.mk.injEq] at hEval
  obtain ⟨hDir, hFind, hRun⟩ := hEval
  obtain ⟨⟨node, s'⟩, hFind, rfl⟩ := Option.map_eq_some_iff.mp hFind
  obtain ⟨⟨text, sh', _⟩, hRun⟩ := Option.isSome_iff_exists.mp hRun
  obtain ⟨hFailing, hRuns⟩ :=
    failing_cd_keeps_directory_iff idleProcesses (sampleShellEnv treeDisk) 1
    (by omega)
  obtain ⟨live, hLive⟩ := hRuns sh () (runLines_reachable goesDown_sound hLines)
  have hFails : CdFails (sampleEnv treeDisk) 600 sh ⟨[0x58], by decide⟩ :=
    ⟨0, s', Outcome.toOption_eq_some.mp hFind, Or.inl rfl⟩
  obtain ⟨live', hLedger, hKeeps⟩ :=
    hFailing 600 (lineBuffer "cd X") 4 ⟨[0x58], by decide⟩ sh ()
    {sh.currentDir} text sh' () (Outcome.toOption_eq_some.mp hCommand) (of_decide_eq_true hDir)
    hFails (Outcome.toOption_eq_some.mp hRun)
  obtain ⟨hSame, hLe⟩ := hKeeps.mpr fun hc => absurd hc (by decide)
  exact ⟨sh, text, sh', live, live', hLive, hLedger, hSame,
    Multiset.mem_of_le hLe (Multiset.mem_singleton_self _)⟩

/-- After `cd D` in the root directory of the volume, `cd ..` fails and takes the
directory away: the link of the node has `root_recreate`, which does not know the
volume. -/
theorem failed_cd_up_loses_directory :
    ∃ sh text sh',
      Reachable (shellSystem idleProcesses (sampleShellEnv treeDisk) 1 fun _ _ _ => True)
        (sh, ()) ∧
      sh.currentDir ≠ 0 ∧ CdFails (sampleEnv treeDisk) 600 sh CString.dotDot ∧
      shellRuncmd idleProcesses (sampleShellEnv treeDisk) 600 (lineBuffer "cd ..") 5 sh () =
        .done (text, sh', ()) ∧
      Reachable (shellSystem idleProcesses (sampleShellEnv treeDisk) 1 fun _ _ _ => True)
        (sh', ()) ∧
      sh'.currentDir = 0 := by
  have hEval : (runLines (fun _ _ => true) ["cd mnt", "cd cdrom0", "cd D"]).map (fun sh =>
      (decide (sh.currentDir ≠ 0),
        (callRecreate (sampleEnv treeDisk) 600 sh.machine sh.parent).toOption.map (·.1),
        (shellRuncmd idleProcesses (sampleShellEnv treeDisk) 600 (lineBuffer "cd ..") 5 sh
          ()).toOption.map fun (_, sh', _) => sh'.currentDir)) = some (true, some 0, some 0) := by
    decide +kernel
  obtain ⟨sh, hLines, hEval⟩ := Option.map_eq_some_iff.mp hEval
  simp only [Prod.mk.injEq] at hEval
  obtain ⟨hDir, hCall, hRun⟩ := hEval
  obtain ⟨⟨node, s'⟩, hCall, rfl⟩ := Option.map_eq_some_iff.mp hCall
  obtain ⟨⟨text, sh', _⟩, hRun, hNull⟩ := Option.map_eq_some_iff.mp hRun
  have hr : Reachable (shellSystem idleProcesses (sampleShellEnv treeDisk) 1 fun _ _ _ => True)
    (sh, ()) := runLines_reachable (fun _ _ _ _ _ => trivial) hLines
  have hRun := Outcome.toOption_eq_some.mp hRun
  refine ⟨sh, text, sh', hr, of_decide_eq_true hDir, ?_, hRun, .step hr ?_, hNull⟩
  · exact Or.inr ⟨s', Outcome.toOption_eq_some.mp hCall⟩
  · exact ⟨600, lineBuffer "cd ..", 5, text, by omega, fun _ _ => trivial, hRun⟩

end Hexos
