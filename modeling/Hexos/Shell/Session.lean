import Hexos.Fs.Catalogue
import Hexos.Fs.Output
import Hexos.Shell.Browser
import Hexos.Shell.Current

/-!
# HexOS — the shell shows the tree

At the level of the code the shell has one pointer to a node, and every command goes
through the heap, the buffers and the device. A session that reaches none of the known
defects cannot be told from a walk on the tree of the volume: every command prints
what it would print there.

## Results

* `SessionInv` — what holds between two commands, with the place in the tree.
* `SessionInv.finddir`, `SessionInv.recreate` — the way down and the way up.
* `session_simulates` — every command, as one of the walk.
-/

namespace Hexos

open Mem Dialogue

-- ---------------------------------------------------------------------------
-- The invariant
-- ---------------------------------------------------------------------------

section Places

variable {env : ShellEnv} {dev : Nat} (cat : Catalogue env.toEnv dev) (fsInfo : Nat)

/-- The links to the directory above that a node of the directory at `lba` may carry. The
last one is that of a directory entered from the global mount node: it does not lead
back. -/
inductive Catalogue.Link (lba : Nat) : FsNodeMini → Prop
  | mountpoint : cat.parentLba lba = none → Link lba ⟨1, 0, env.rootRecreate⟩
  | directory {q : Nat} : cat.parentLba lba = some q →
      Link lba ⟨q, fsInfo, env.iso9660Recreate⟩
  | mountNode : cat.parentLba lba = some cat.rootLba →
      Link lba ⟨cat.rootLba, fsInfo, env.rootRecreate⟩

/-- The node at the address is one of the place. -/
inductive Catalogue.Here (m : Mem) (live : List Alloc) : Place → Nat → Prop
  | root : Here m live .root env.fsRoot
  | mnt : Here m live .mnt env.fsMnt
  | cdrom : Here m live (.dir cat.rootLba) env.fsCdromMnt
  | node {a lba : Nat} {parent : FsNodeMini} :
      ⟨a, 332⟩ ∈ live → (∃ e ∈ cat.entries, e.lba = lba) →
      viewNode m a = volumeView env.toEnv fsInfo lba parent →
      m.load32 (a + 300) = env.iso9660Readdir → cat.Link fsInfo lba parent →
      Here m live (.dir lba) a

/-- What holds between two commands, when the shell is at a place of the tree. -/
structure SessionInv (place : Place) (sh : Shell) (live : List Alloc) : Prop extends
    CurrentInv env dev fsInfo sh live where
  here         : cat.Here fsInfo sh.machine.mem live place sh.currentDir
  cdromListing : sh.machine.mem.load32 (env.fsCdromMnt + 300) = env.iso9660Readdir

end Places

section Invariant

variable {env : ShellEnv} {dev fsInfo : Nat} {cat : Catalogue env.toEnv dev} {place place' : Place}
  {sh : Shell} {s' : Machine} {live live' : List Alloc}

theorem Catalogue.Link.follow {lba : Nat} {parent : FsNodeMini} (h : cat.Link fsInfo lba parent) :
    parent.Link env.toEnv fsInfo := by
  cases h with
  | mountpoint _ => exact Or.inl rfl
  | directory _ => exact Or.inr ⟨rfl, rfl⟩
  | mountNode _ => exact Or.inl rfl

theorem Catalogue.Here.whereabouts {m : Mem} {a : Nat} (h : cat.Here fsInfo m live place a) :
    Whereabouts env.toEnv fsInfo m live a := by
  cases h with
  | root => exact .root
  | mnt => exact .mnt
  | cdrom => exact .cdrom
  | node ha _ hView _ hLink => exact .node ha hView hLink.follow

/-- What is held keeps the node at its place. -/
theorem Catalogue.Here.keep {s : Machine} {a : Nat} (h : cat.Here fsInfo s.mem live place a)
    (hKeeps : Keeps env.toEnv s live s' live') : cat.Here fsInfo s'.mem live' place a := by
  cases h with
  | root => exact .root
  | mnt => exact .mnt
  | cdrom => exact .cdrom
  | node ha hEntry hView hReaddir hLink =>
    have hSame := viewNode_congr (hKeeps.same _ _ (.of_live ha))
    exact .node (hKeeps.kept _ ha) hEntry (hSame.trans hView)
      ((hKeeps.load32 (.of_live ha) (by simp)).trans hReaddir) hLink

/-- A command that keeps what is held may take the shell to another place. -/
theorem SessionInv.move {a : Nat} (h : SessionInv cat fsInfo place sh live)
    (hKeeps : Keeps env.toEnv sh.machine live s' live')
    (hHere : cat.Here fsInfo s'.mem live' place' a) :
    SessionInv cat fsInfo place' ⟨a, s'⟩ live' where
  toCurrentInv := h.toCurrentInv.move hKeeps hHere.whereabouts
  here := hHere
  cdromListing := by rw [hKeeps.load32 (.of_global (by simp)) (by omega), h.cdromListing]

theorem SessionInv.stay (h : SessionInv cat fsInfo place sh live)
    (hKeeps : Keeps env.toEnv sh.machine live s' live') :
    SessionInv cat fsInfo place ⟨sh.currentDir, s'⟩ live' := h.move hKeeps (h.here.keep hKeeps)

/-- Another node is freed. -/
theorem SessionInv.free {a b : Nat} {s : Machine} (h : SessionInv cat fsInfo place ⟨a, s⟩ live)
    (hMem : s'.mem = s.mem) (hPages : s'.pages = s.pages) (hInv : s'.Inv (live.erase ⟨b, 332⟩))
    (hNe : a ≠ b) : SessionInv cat fsInfo place ⟨a, s'⟩ (live.erase ⟨b, 332⟩) where
  toCurrentInv := h.toCurrentInv.free hMem hPages hInv hNe
  here := by
    have hHere := h.here
    rw [← hMem] at hHere
    cases hHere with
    | root => exact .root
    | mnt => exact .mnt
    | cdrom => exact .cdrom
    | node ha hEntry hView hReaddir hLink =>
      exact .node ((List.mem_erase_of_ne (by simpa using hNe)).mpr ha) hEntry hView hReaddir hLink
  cdromListing := hMem ▸ h.cdromListing

/-- A directory of the volume, as its node says. -/
structure Catalogue.DirNode (cat : Catalogue env.toEnv dev) (fsInfo : Nat) (sh : Shell)
    (lba : Nat) : Prop where
  entry   : ∃ e ∈ cat.entries, e.lba = lba
  flags   : sh.machine.mem.load32 (sh.currentDir + 268) = fsDirectory
  inode   : sh.machine.mem.load32 (sh.currentDir + 272) = lba
  impl    : sh.machine.mem.load32 (sh.currentDir + 280) = fsInfo
  finddir : sh.machine.mem.load32 (sh.currentDir + 304) = env.iso9660Finddir
  readdir : sh.machine.mem.load32 (sh.currentDir + 300) = env.iso9660Readdir
  -- the link that a node made from here carries
  link    : ∀ r, cat.parentLba r = some lba →
    cat.Link fsInfo r ⟨lba, fsInfo, sh.machine.mem.load32 (sh.currentDir + 308)⟩

/-- At a place of the volume the current node is the one of its directory. -/
theorem SessionInv.dirNode {lba : Nat} (h : SessionInv cat fsInfo (.dir lba) sh live) :
    cat.DirNode fsInfo sh lba := by
  have hHere := h.here
  generalize hPlace : Place.dir lba = place at hHere
  generalize hCur : sh.currentDir = cur at hHere
  cases hHere with
  | root => cases hPlace
  | mnt => cases hPlace
  | cdrom =>
    cases hPlace
    have hView := h.mounted.cdrom
    unfold viewNode cdromView at hView
    simp only [NodeView.mk.injEq] at hView
    obtain ⟨hFlags, hInode, hImpl, hFinddir, hRecreate, -, -⟩ := hView
    obtain ⟨d, hd, hLba⟩ := cat.root_entry
    rw [← hCur] at hFlags hInode hImpl hFinddir hRecreate
    refine ⟨⟨d, List.mem_of_getElem? hd, hLba⟩, hFlags, hInode, hImpl, hFinddir, ?_, ?_⟩
    · rw [hCur]
      exact h.cdromListing
    · intro r hr
      rw [hRecreate]
      exact .mountNode hr
  | node ha hEntry hView hReaddir _ =>
    cases hPlace
    unfold viewNode volumeView at hView
    simp only [NodeView.mk.injEq] at hView
    obtain ⟨hFlags, hInode, hImpl, hFinddir, hRecreate, -, -⟩ := hView
    rw [← hCur] at hFlags hInode hImpl hFinddir hRecreate hReaddir
    refine ⟨hEntry, hFlags, hInode, hImpl, hFinddir, hReaddir, ?_⟩
    intro r hr
    rw [hRecreate]
    exact .directory hr

/-- The directory itself. -/
theorem SessionInv.dirAt {lba : Nat} (h : SessionInv cat fsInfo (.dir lba) sh live) :
    ∃ dot dotDot, DirAt env.toEnv sh.machine live sh.currentDir fsInfo lba
      (env.devices dev lba) ∧
      IsDirectory (env.devices dev lba) dot dotDot (cat.records lba) := by
  have hNode := h.dirNode
  obtain ⟨e, he, rfl⟩ := hNode.entry
  obtain ⟨dot, dotDot, hSec⟩ := cat.directories e he
  refine ⟨dot, dotDot,
    ⟨h.kinds.1.stable h.layout.nodes, stable_of_live h.info, hNode.impl, hNode.inode,
    ?_⟩, hSec⟩
  rw [h.mounted.volume.dev]

end Invariant

-- ---------------------------------------------------------------------------
-- The way down
-- ---------------------------------------------------------------------------

/-- The functions for files are at addresses. -/
structure Callbacks (env : Env) : Prop where
  read     : env.iso9660Read ≠ 0 ∧ env.iso9660Read < 2 ^ 32
  openFile : env.iso9660Open < 2 ^ 32

/-- What is asked of the record that a name stands for: that `finddir` comes to it, and
that it is as a command needs it if it is one of a file. -/
def Catalogue.Looks {env : Env} {dev : Nat} (cat : Catalogue env dev) (sh : Shell) (dest : CString)
    (Ok : DirRecord → Prop) : Prop :=
  OnVolume env sh.machine sh.currentDir →
    ∀ r, firstRecord dest.bytes (cat.records (sh.machine.mem.load32 (sh.currentDir + 272))) =
        some r →
      NoTightBefore dest.bytes (cat.records (sh.machine.mem.load32 (sh.currentDir + 272))) ∧
        (r.flags &&& 2 = 0 → Ok r)

section Lookup

variable {env : ShellEnv} {dev fsInfo fuel : Nat} {cat : Catalogue env.toEnv dev} {place : Place}
  {sh : Shell} {s' : Machine} {live : List Alloc} {dest : CString} {p : Nat}

theorem SessionInv.at_root (h : SessionInv cat fsInfo .root sh live) :
    sh.currentDir = env.fsRoot := by
  have hHere := h.here
  generalize sh.currentDir = cur at hHere
  cases hHere
  rfl

theorem SessionInv.at_mnt (h : SessionInv cat fsInfo .mnt sh live) : sh.currentDir = env.fsMnt := by
  have hHere := h.here
  generalize sh.currentDir = cur at hHere
  cases hHere
  rfl

theorem CString.eq_iff {a b : CString} : a = b ↔ a.bytes = b.bytes := by
  cases a
  cases b
  simp

/-- **A lookup** finds what the name stands for: nothing, a directory below, or a file. -/
theorem SessionInv.finddir {Ok : DirRecord → Prop} (h : SessionInv cat fsInfo place sh live)
    (hCalls : Callbacks env.toEnv) (hFuel : 256 ≤ fuel) (hLooks : cat.Looks sh dest Ok)
    (hRun : finddirFs env.toEnv fuel sh.machine sh.currentDir dest = .done (p, s')) :
    ∃ live', Keeps env.toEnv sh.machine live s' live' ∧
      ((p = 0 ∧ cat.find place dest.bytes = none) ∨
        (∃ e, cat.find place dest.bytes = some (.dir e) ∧ cat.Here fsInfo s'.mem live' e p) ∨
        ∃ r, cat.find place dest.bytes = some (.file (cat.content r)) ∧ Ok r ∧
          ⟨p, 332⟩ ∈ live' ∧
          FileNode env.toEnv s'.mem p fsInfo dev r.lba r.fileLength) := by
  cases place with
  | root =>
    have hCur := h.at_root
    have hView := h.mounted.root
    rw [hCur] at hRun
    obtain ⟨rfl, rfl⟩ :=
      finddirFs_root (congrArg NodeView.flags hView) (congrArg NodeView.finddir hView) hRun
    refine ⟨live, .refl h.inv fun _ hal => hal, ?_⟩
    rw [rootFinddir, if_pos rfl, Catalogue.find]
    by_cases hName : dest = CString.mnt
    · rw [if_pos hName, if_pos (CString.eq_iff.mp hName)]
      exact Or.inr (Or.inl ⟨.mnt, rfl, .mnt⟩)
    · rw [if_neg hName, if_neg (mt CString.eq_iff.mpr hName)]
      exact Or.inl ⟨rfl, rfl⟩
  | mnt =>
    have hCur := h.at_mnt
    have hView := h.mounted.mnt
    have hNodes := env.nodes_apart.1
    rw [hCur] at hRun
    obtain ⟨rfl, rfl⟩ :=
      finddirFs_root (congrArg NodeView.flags hView) (congrArg NodeView.finddir hView) hRun
    refine ⟨live, .refl h.inv fun _ hal => hal, ?_⟩
    rw [rootFinddir, if_neg (by omega), if_pos rfl, Catalogue.find]
    by_cases hName : dest = CString.cdrom0
    · rw [if_pos hName, if_pos (CString.eq_iff.mp hName)]
      exact Or.inr (Or.inl ⟨.dir cat.rootLba, rfl, .cdrom⟩)
    · rw [if_neg hName, if_neg (mt CString.eq_iff.mpr hName)]
      exact Or.inl ⟨rfl, rfl⟩
  | dir lba =>
    have hNode := h.dirNode
    obtain ⟨dot, dotDot, hDir, hSec⟩ := h.dirAt
    have hVolume : OnVolume env.toEnv sh.machine sh.currentDir :=
      ⟨by rw [hNode.flags]; decide, hNode.finddir⟩
    have hLooks := hLooks hVolume
    rw [hNode.inode] at hLooks
    obtain ⟨hSound, hExact⟩ := lookup_spec dest.bytes (cat.records lba)
    rw [finddirFs_onVolume hVolume] at hRun
    rcases finddir_keeps h.layout.nodes h.inv hDir hSec hFuel hRun with
      ⟨rfl, hKeeps⟩ | ⟨r, hLook, hKeeps, hMade⟩
    · refine ⟨live, hKeeps, Or.inl ⟨rfl, ?_⟩⟩
      rw [Catalogue.find, Option.map_eq_none_iff, Option.eq_none_iff_forall_ne_some]
      intro r hFirst
      -- a record that is shown would have been found
      have hLook := (hExact r hFirst).mpr (hLooks r hFirst).1
      rw [lookup_of_null h.inv hDir hSec hFuel hRun] at hLook
      cases hLook
    · have hFirst := hSound r hLook
      have hp : p ≠ 0 := by
        have hAligned := (hKeeps.inv.range List.mem_cons_self).2.1
        simp only at hAligned
        omega
      refine ⟨_, hKeeps, Or.inr ?_⟩
      rw [Catalogue.find, hFirst, Option.map_some, Catalogue.entryOf]
      by_cases hBit : r.flags &&& 2 ≠ 0
      · -- the new node links to the current directory
        have hParent := cat.children lba r (Catalogue.firstRecord_mem hFirst) hBit
        have hView := hMade.view
        rw [if_pos hBit] at hView ⊢
        exact Or.inl ⟨_, rfl, .node List.mem_cons_self (cat.entry_of_parentLba hParent) hView
          (finddir_readdir env.readdir_ne.2.2.2.2 hRun hp) (hNode.link r.lba hParent)⟩
      · obtain ⟨hRead, hOpen⟩ := iso9660Finddir_calls hRun hp hCalls.read.2 hCalls.openFile
        have hFlags := hMade.flags
        rw [if_neg hBit] at hFlags ⊢
        refine Or.inr ⟨r, rfl, (hLooks r hFirst).2 (not_not.mp hBit), List.mem_cons_self, hp, ?_,
          hMade.inode, hMade.length, hMade.impl, ⟨hRead, hCalls.read.1⟩, hOpen, ?_⟩
        · rw [hFlags]
          decide
        · have hDev := hKeeps.load32 (.of_live h.info) (k := 0) (by simp)
          exact hDev.trans h.mounted.volume.dev

end Lookup

-- ---------------------------------------------------------------------------
-- The commands that stay
-- ---------------------------------------------------------------------------

section Commands

variable {World : Type}
  {processCommand : ProcessCommand → World → Outcome (List UInt8 × World)}
  {world : World} {env : ShellEnv} {dev fsInfo fuel : Nat} {cat : Catalogue env.toEnv dev}
  {place : Place} {sh sh' : Shell} {s' : Machine} {live : List Alloc} {dest : CString}
  {text : List UInt8}

/-- What can be at a place is a live directory. -/
theorem SessionInv.directory {place' : Place} {live' : List Alloc} {p : Nat}
    (h : SessionInv cat fsInfo place sh live) (hKeeps : Keeps env.toEnv sh.machine live s' live')
    (hHere : cat.Here fsInfo s'.mem live' place' p) :
    p ≠ 0 ∧ s'.mem.load32 (p + 268) = fsDirectory :=
  have hLive := (h.move hKeeps hHere).liveDirectory
  ⟨hLive.ne_null, hLive.flags⟩

/-- The names in a directory are strings, and not too many. -/
theorem SessionInv.names (h : SessionInv cat fsInfo place sh live) :
    (∀ name ∈ cat.listing place, 0 ∉ name) ∧ (cat.listing place).length < 2 ^ 32 := by
  cases place with
  | root =>
    exact ⟨fun name hName => List.mem_singleton.mp hName ▸ CString.mnt.nonzero,
      show 1 < 2 ^ 32 by omega⟩
  | mnt =>
    exact ⟨fun name hName => List.mem_singleton.mp hName ▸ CString.cdrom0.nonzero,
      show 1 < 2 ^ 32 by omega⟩
  | dir lba =>
    obtain ⟨dot, dotDot, -, hSec⟩ := h.dirAt
    refine ⟨?_, ?_⟩
    · intro name hName
      obtain ⟨r, hr, rfl⟩ := List.mem_map.mp hName
      exact hSec.names r (List.mem_filter.mp hr).1
    · have hBounds := hSec.records.bounds
      have hFilter : (visible (cat.records lba)).length ≤ (cat.records lba).length :=
        List.length_filter_le _ _
      simp only [List.length_cons] at hBounds
      rw [Catalogue.listing, List.length_map]
      omega

/-- **One call of `readdir_fs`** answers for one name. -/
theorem SessionInv.readdir {i p : Nat} (h : SessionInv cat fsInfo place sh live)
    (hFuel : 256 ≤ fuel) (hRun : readdirFs env fuel sh.machine sh.currentDir i = .done (p, s')) :
    Keeps env.toEnv sh.machine live s' live ∧ Answers (cat.listing place) i p s'.mem := by
  cases place with
  | root =>
    have hCur := h.at_root
    have hList := h.listing env.fsRoot (by simp)
    rw [hCur] at hRun
    refine ⟨readdirFs_keeps h.layout h.inv (Or.inl hList) hFuel hRun, ?_⟩
    refine readdirFs_root (congrArg NodeView.flags h.mounted.root) hList ?_ hRun
    have hInode : sh.machine.mem.load32 (env.fsRoot + 272) = 0 :=
      congrArg NodeView.inode h.mounted.root
    unfold rootReaddir
    simp only [hInode, if_true]
  | mnt =>
    have hCur := h.at_mnt
    have hList := h.listing env.fsMnt (by simp)
    rw [hCur] at hRun
    refine ⟨readdirFs_keeps h.layout h.inv (Or.inl hList) hFuel hRun, ?_⟩
    refine readdirFs_root (congrArg NodeView.flags h.mounted.mnt) hList ?_ hRun
    have hInode : sh.machine.mem.load32 (env.fsMnt + 272) = 1 :=
      congrArg NodeView.inode h.mounted.mnt
    unfold rootReaddir
    simp only [hInode, if_neg Nat.one_ne_zero, if_true]
  | dir lba =>
    have hNode := h.dirNode
    obtain ⟨dot, dotDot, hDir, hSec⟩ := h.dirAt
    refine ⟨readdirFs_keeps h.layout h.inv
      (Or.inr ⟨fsInfo, _, _, dot, dotDot, _, .of_live h.info, hDir, hSec⟩) hFuel hRun, ?_⟩
    exact readdirFs_volume h.layout h.inv hDir hSec hNode.flags hNode.readdir hFuel hRun

/-- **`ls`.** -/
theorem SessionInv.ls (h : SessionInv cat fsInfo place sh live) (hFuel : 256 ≤ fuel)
    (hRun : shellLs env fuel sh = .done (text, sh')) :
    SessionInv cat fsInfo place sh' live ∧
      Browses cat.tree processCommand (place, world) .ls text (place, world) := by
  obtain ⟨⟨out, s'⟩, hLoop, hEq⟩ := Outcome.map_eq_done.mp hRun
  obtain ⟨rfl, rfl⟩ := Prod.mk.inj hEq
  obtain ⟨hNames, hSmall⟩ := h.names
  have hCall : ∀ s i p s', Keeps env.toEnv sh.machine live s live →
      readdirFs env fuel s sh.currentDir i = .done (p, s') →
      Keeps env.toEnv sh.machine live s' live ∧ Answers (cat.listing place) i p s'.mem := by
    intro s i p s' hs hEntry
    obtain ⟨hKeeps, hAnswer⟩ := (h.stay hs).readdir hFuel hEntry
    exact ⟨hs.trans hKeeps, hAnswer⟩
  have hStart : Keeps env.toEnv sh.machine live sh.machine live := .refl h.inv fun _ hal => hal
  obtain ⟨hKeeps, rfl⟩ := lsLoop_prints hNames hSmall hCall hStart (Nat.zero_le _) hLoop
  exact ⟨h.stay hKeeps, .ls⟩

/-- **`filesize name`.** -/
theorem SessionInv.filesize (h : SessionInv cat fsInfo place sh live) (hCalls : Callbacks env.toEnv)
    (hFuel : 256 ≤ fuel) (hLooks : cat.Looks sh dest fun r => r.fileLength < 10 ^ 9)
    (hRun : shellFilesize env.toEnv fuel sh dest = .done (text, sh')) :
    ∃ live', SessionInv cat fsInfo place sh' live' ∧
      Browses cat.tree processCommand (place, world) (.filesize dest) text (place, world) := by
  unfold shellFilesize at hRun
  obtain ⟨⟨p, s'⟩, hFind, hEnd⟩ := Outcome.bind_eq_done.mp hRun
  obtain ⟨live', hKeeps, hFound⟩ := h.finddir hCalls hFuel hLooks hFind
  refine ⟨live', ?_⟩
  simp only at hEnd
  rcases hFound with ⟨rfl, hNone⟩ | ⟨e, hSome, hHere⟩ | ⟨r, hSome, hSmall, -, hNode⟩
  · rw [if_pos rfl] at hEnd
    obtain ⟨rfl, rfl⟩ := Prod.mk.inj (Outcome.done.inj hEnd)
    exact ⟨h.stay hKeeps, .filesizeMissing hNone⟩
  · obtain ⟨hp, hFlags⟩ := h.directory hKeeps hHere
    rw [if_neg hp, hFlags, if_pos (by decide)] at hEnd
    obtain ⟨rfl, rfl⟩ := Prod.mk.inj (Outcome.done.inj hEnd)
    exact ⟨h.stay hKeeps, .filesizeDir hSome⟩
  · rw [if_neg hNode.ne_null, if_neg hNode.file, hNode.length] at hEnd
    obtain ⟨digits, hDigits, hEq⟩ := Outcome.map_eq_done.mp hEnd
    obtain ⟨rfl, rfl⟩ := Prod.mk.inj hEq
    have hInt : intOf r.fileLength = ((cat.content r).length : Int) := by
      rw [cat.length_content]
      exact if_pos (by omega)
    rw [hInt] at hDigits
    obtain ⟨digits', hSpec, hDecimal⟩ : ∃ digits, printfInt fuel (cat.content r).length =
      .done digits ∧
        IsDecimal (cat.content r).length digits :=
      printfInt_of_lt (by rw [cat.length_content]; omega) (by omega)
    obtain rfl := Outcome.done.inj (hSpec.symm.trans hDigits)
    exact ⟨h.stay hKeeps, .filesize hSome hDecimal⟩

/-- **`cat name`.** -/
theorem SessionInv.catFile (h : SessionInv cat fsInfo place sh live) (hCalls : Callbacks env.toEnv)
    (hFuel : 256 ≤ fuel)
    (hLooks : cat.Looks sh dest fun r =>
      0 < r.fileLength ∧ r.fileLength < 2 ^ 31 ∧ 0 ∉ cat.content r)
    (hRun : shellCat env.toEnv fuel sh dest = .done (text, sh')) :
    ∃ live', SessionInv cat fsInfo place sh' live' ∧
      Browses cat.tree processCommand (place, world) (.cat dest) text (place, world) := by
  unfold shellCat at hRun
  obtain ⟨⟨p, s₁⟩, hFind, hEnd⟩ := Outcome.bind_eq_done.mp hRun
  obtain ⟨live', hKeeps, hFound⟩ := h.finddir hCalls hFuel hLooks hFind
  refine ⟨live', ?_⟩
  simp only at hEnd
  rcases hFound with ⟨rfl, hNone⟩ | ⟨e, hSome, hHere⟩ | ⟨r, hSome,
    ⟨hPos, hSmall, hNul⟩, hLive, hNode⟩
  · rw [if_pos rfl] at hEnd
    obtain ⟨rfl, rfl⟩ := Prod.mk.inj (Outcome.done.inj hEnd)
    exact ⟨h.stay hKeeps, .catMissing hNone⟩
  · obtain ⟨hp, hFlags⟩ := h.directory hKeeps hHere
    rw [if_neg hp, hFlags, if_pos (by decide)] at hEnd
    obtain ⟨rfl, rfl⟩ := Prod.mk.inj (Outcome.done.inj hEnd)
    exact ⟨h.stay hKeeps, .catDir hSome⟩
  · rw [if_neg hNode.ne_null, if_neg hNode.file] at hEnd
    have hThere := h.stay hKeeps
    obtain ⟨⟨filebuf, s₂⟩, hAlloc, hEnd⟩ := Outcome.bind_eq_done.mp hEnd
    obtain ⟨s₃, hOpen, hEnd⟩ := Outcome.bind_eq_done.mp hEnd
    obtain rfl := openFs_done hOpen
    obtain ⟨⟨content, s₄⟩, hLoop, hEnd⟩ := Outcome.bind_eq_done.mp hEnd
    obtain ⟨s₅, hFree, hEq⟩ := Outcome.map_eq_done.mp hEnd
    obtain ⟨rfl, rfl⟩ := Prod.mk.inj hEq
    have hKalloc : Keeps env.toEnv s₁ live' s₃ (⟨filebuf, 2049⟩ :: live') :=
      .kalloc hKeeps.inv (by omega) hAlloc
    have hNode₃ :=
      hNode.congr (hKalloc.same _ _ (.of_live hLive)) (hKalloc.same _ _ (.of_live hThere.info))
    have hApart : GlobalsApart env.toEnv s₃.pages := hKalloc.pages ▸ hThere.layout.nodes
    have hInt : intOf r.fileLength = ((cat.content r).length : Int) := by
      rw [cat.length_content]
      exact if_pos hSmall
    simp only [hNode₃.length, hInt] at hLoop
    -- the loop prints the content, and keeps what is held
    have hNode₃' : FileNode env.toEnv s₃.mem p fsInfo dev r.lba (cat.content r).length := by
      rw [cat.length_content]
      exact hNode₃
    obtain rfl := catLoop_prints hNul (by rw [cat.length_content]; exact hPos)
      (by rw [cat.length_content]; exact hSmall) (cat.isFile_content r) hKalloc.inv hNode₃'
      (stable_of_live hLive) (stable_of_live hThere.info) hLoop
    have hCat := catLoop_keeps hApart hKalloc.inv hLive (by rw [hNode₃.length]; exact hPos)
      (by rw [cat.length_content]; omega) hLoop
    have hKfree : Keeps env.toEnv s₄ live' s₅ live' := .kfree hCat.inv hFree
    exact ⟨hThere.stay ((hKalloc.trans hCat).trans hKfree), .cat hSome⟩

/-- **`cd name`.** -/
theorem SessionInv.down {reply : CdReply} (h : SessionInv cat fsInfo place sh live)
    (hCalls : Callbacks env.toEnv) (hFuel : 256 ≤ fuel) (hDest : dest ≠ CString.dotDot)
    (hLooks : cat.Looks sh dest fun _ => True)
    (hRun : shellCd env.toEnv fuel sh dest = .done (reply, sh')) :
    ∃ place' live', SessionInv cat fsInfo place' sh' live' ∧
      Browses cat.tree processCommand (place, world) (.cd dest) (reply.text dest)
        (place', world) := by
  unfold shellCd at hRun
  rw [if_neg hDest] at hRun
  obtain ⟨⟨p, s'⟩, hFind, hEnd⟩ := Outcome.map_eq_done.mp hRun
  obtain ⟨live', hKeeps, hFound⟩ := h.finddir hCalls hFuel hLooks hFind
  simp only at hEnd
  rcases hFound with ⟨rfl, hNone⟩ | ⟨e, hSome, hHere⟩ | ⟨r, hSome, -, -, hNode⟩
  · rw [if_pos rfl] at hEnd
    obtain ⟨rfl, rfl⟩ := Prod.mk.inj hEnd
    exact ⟨place, live', h.stay hKeeps, .cdMissing hDest hNone⟩
  · obtain ⟨hp, hFlags⟩ := h.directory hKeeps hHere
    rw [if_neg hp, hFlags, if_neg (by decide)] at hEnd
    obtain ⟨rfl, rfl⟩ := Prod.mk.inj hEnd
    exact ⟨e, live', h.move hKeeps hHere, .cdDown hDest hSome⟩
  · rw [if_neg hNode.ne_null, if_pos hNode.file] at hEnd
    obtain ⟨rfl, rfl⟩ := Prod.mk.inj hEnd
    exact ⟨place, live', h.stay hKeeps, .cdFile hDest hSome⟩

end Commands

-- ---------------------------------------------------------------------------
-- The way up
-- ---------------------------------------------------------------------------

section Up

variable {World : Type}
  {processCommand : ProcessCommand → World → Outcome (List UInt8 × World)}
  {world : World} {env : ShellEnv} {dev fsInfo fuel node : Nat} {cat : Catalogue env.toEnv dev}
  {place place' : Place} {sh sh' : Shell} {s' s₁ s₂ : Machine} {live live₁ : List Alloc}

/-- The link of the current node. -/
theorem SessionInv.link (h : SessionInv cat fsInfo place sh live) :
    (place = .root ∧ sh.parent = ⟨0, 0, 0⟩) ∨
    (place = .mnt ∧ sh.parent = ⟨0, 0, env.rootRecreate⟩) ∨
      ∃ lba, place = .dir lba ∧ cat.Link fsInfo lba sh.parent := by
  have hHere := h.here
  unfold Shell.parent
  generalize sh.currentDir = cur at hHere
  cases hHere with
  | root => exact Or.inl ⟨rfl, congrArg NodeView.parent h.mounted.root⟩
  | mnt => exact Or.inr (Or.inl ⟨rfl, congrArg NodeView.parent h.mounted.mnt⟩)
  | cdrom =>
    have hParent : loadMini sh.machine.mem (env.fsCdromMnt + 316) = _ :=
      congrArg NodeView.parent h.mounted.cdrom
    rw [hParent]
    exact Or.inr (Or.inr ⟨_, rfl, .mountpoint cat.parentLba_root⟩)
  | @node _ _ parent _ _ hView _ hLink =>
    have hParent : loadMini sh.machine.mem (cur + 316) = parent := congrArg NodeView.parent hView
    rw [hParent]
    exact Or.inr (Or.inr ⟨_, rfl, hLink⟩)

/-- The link to an ancestor is one that a node may carry. -/
theorem Catalogue.upLink_link {i : Nat} {d : PathEntry} {ds : List PathEntry}
    (h : cat.Ancestry i (d :: ds)) :
    cat.Link fsInfo d.lba (upLink env.toEnv fsInfo ⟨1, 0, env.rootRecreate⟩ ds) := by
  have hParent := Volume.parentLba_of_ancestry h
  cases ds with
  | nil => exact .mountpoint hParent
  | cons p ds => exact .directory hParent

/-- The directory above is made again from its sector. -/
theorem SessionInv.recreate_volume {q : Nat} (h : SessionInv cat fsInfo place sh live)
    (hFuel : 256 ≤ fuel) (hEntry : ∃ e ∈ cat.entries, e.lba = q)
    (hParent : sh.parent = ⟨q, fsInfo, env.iso9660Recreate⟩)
    (hHarmless : UpHarmless env.toEnv dev fuel sh)
    (hRun : callRecreate env.toEnv fuel sh.machine sh.parent = .done (node, s'))
    (hNode : node ≠ 0) :
    ∃ live', Keeps env.toEnv sh.machine live s' live' ∧
      cat.Here fsInfo s'.mem live' (.dir q) node ∧
      (⟨sh.currentDir, 332⟩ ∈ live → node ≠ sh.currentDir) := by
  obtain ⟨d, hd, rfl⟩ := hEntry
  obtain ⟨i, hi⟩ := List.mem_iff_getElem?.mp hd
  obtain ⟨ds, hAncestry⟩ := Volume.exists_ancestry cat.toVolume i d hi
  have hWord : fsInfo < 2 ^ 32 := by
    have hTop := (h.inv.range h.info).2.2
    simp only at hTop
    omega
  obtain ⟨entryBuffer, place, heap', hCalls, hKept⟩ := hHarmless (by rw [hParent])
  rw [hParent] at hKept hRun
  rw [callRecreate_iso9660 _ rfl] at hRun
  obtain ⟨m', r, inode, hSpec, hInv', hPages, hSame, hView, hInode⟩ :=
    iso9660Recreate_spec h.inv
    (stable_of_live h.info) hWord h.mounted.volume hAncestry hFuel hCalls env.iso9660Recreate
  obtain ⟨rfl, rfl⟩ : place = node ∧ _ = s' := by simpa using hSpec.symm.trans hRun
  obtain rfl := hInode.mpr hKept
  refine ⟨_, .of_stable h.layout.nodes hInv' hPages
    (fun _ hal => List.mem_cons_of_mem _ (List.mem_cons_of_mem _ hal)) hSame, ?_, ?_⟩
  · exact .node List.mem_cons_self ⟨d, hd, rfl⟩ hView
      (recreate_readdir env.readdir_ne.2.2.2.2 hRun hNode) (Catalogue.upLink_link hAncestry)
  · intro ha
    have hApart := hInv'.apart (List.mem_cons_of_mem _ ha)
    simp only at hApart
    omega

/-- **The way up** leads to the directory above. -/
theorem SessionInv.recreate (h : SessionInv cat fsInfo place sh live) (hFuel : 256 ≤ fuel)
    (hNone : sh.parent.recreate ≠ 0)
    (hUp : ∀ s', callRecreate env.toEnv fuel sh.machine sh.parent ≠ .done (0, s'))
    (hHarmless : UpHarmless env.toEnv dev fuel sh)
    (hRun : callRecreate env.toEnv fuel sh.machine sh.parent = .done (node, s')) :
    ∃ e live', cat.above place = some e ∧ Keeps env.toEnv sh.machine live s' live' ∧
      cat.Here fsInfo s'.mem live' e node ∧
      (⟨sh.currentDir, 332⟩ ∈ live → node ≠ sh.currentDir) := by
  have hNode : node ≠ 0 := fun hc => hUp s' (hc ▸ hRun)
  have hSame : Keeps env.toEnv sh.machine live sh.machine live := .refl h.inv fun _ hal => hal
  have hMnt : sh.parent = ⟨1, 0, env.rootRecreate⟩ → node = env.fsMnt ∧
      s' = sh.machine := by
    intro hParent
    rw [hParent, callRecreate_root _ rfl] at hRun
    obtain ⟨rfl, rfl⟩ := Prod.mk.inj (Outcome.done.inj hRun)
    exact ⟨by rw [rootRecreate, if_neg Nat.one_ne_zero, if_pos rfl], rfl⟩
  rcases h.link with ⟨-, hParent⟩ | ⟨rfl, hParent⟩ | ⟨lba, rfl, hLink⟩
  · exact absurd (congrArg FsNodeMini.recreate hParent) hNone
  · rw [hParent, callRecreate_root _ rfl] at hRun
    obtain ⟨rfl, rfl⟩ := Prod.mk.inj (Outcome.done.inj hRun)
    rw [rootRecreate, if_pos rfl]
    exact ⟨.root, live, rfl, hSame, .root,
      fun ha => (h.layout.nodes.ne_live h.inv ha (by simp)).symm⟩
  · generalize hParent : sh.parent = parent at hLink
    cases hLink with
    | mountpoint hTop =>
      obtain ⟨rfl, rfl⟩ := hMnt hParent
      refine ⟨.mnt, live, ?_, hSame, .mnt,
        fun ha => (h.layout.nodes.ne_live h.inv ha (by simp)).symm⟩
      rw [Catalogue.above, hTop]
      rfl
    | directory hq =>
      obtain ⟨live', hKeeps, hHere, hNe⟩ :=
        h.recreate_volume hFuel (cat.entry_above hq) hParent hHarmless hRun hNode
      refine ⟨_, live', ?_, hKeeps, hHere, hNe⟩
      rw [Catalogue.above, hq]
      rfl
    | mountNode _ =>
      -- `root_recreate` does not know the volume
      obtain ⟨d, hd, hLba⟩ := cat.root_entry
      have hSystem := cat.system d (List.mem_of_getElem? hd)
      unfold iso9660Offset at hSystem
      rw [hParent, callRecreate_root _ rfl, rootRecreate, if_neg (by simp only; omega),
        if_neg (by simp only; omega)] at hRun
      exact absurd (Prod.mk.inj (Outcome.done.inj hRun)).1.symm hNode

/-- The node that is left is freed, unless it is a global one. -/
theorem SessionInv.leave (h : SessionInv cat fsInfo place sh live)
    (hKeeps : Keeps env.toEnv sh.machine live s₁ live₁)
    (hThere : SessionInv cat fsInfo place' ⟨node, s₁⟩ live₁)
    (hNe : ⟨sh.currentDir, 332⟩ ∈ live → node ≠ sh.currentDir)
    (hFree : callFreeNode env.toEnv s₁ sh.currentDir = .done s₂) :
    ∃ live', SessionInv cat fsInfo place' ⟨node, s₂⟩ live' := by
  have hWord := hKeeps.load32 h.kinds.1 (show 312 + 4 ≤ 332 by omega)
  have hGlobal : sh.machine.mem.load32 (sh.currentDir + 312) = env.rootFreeNode →
      ∃ live', SessionInv cat fsInfo place' ⟨node, s₂⟩ live' := by
    intro hRoot
    unfold callFreeNode at hFree
    simp only [hWord.trans hRoot, if_true] at hFree
    obtain rfl := Outcome.done.inj hFree
    exact ⟨live₁, hThere⟩
  have hHere := h.here
  generalize hCur : sh.currentDir = cur at hHere
  cases hHere with
  | root => exact hGlobal (hCur ▸ congrArg NodeView.freeNode h.mounted.root)
  | mnt => exact hGlobal (hCur ▸ congrArg NodeView.freeNode h.mounted.mnt)
  | cdrom => exact hGlobal (hCur ▸ congrArg NodeView.freeNode h.mounted.cdrom)
  | node ha _ hView _ _ =>
    rw [← hCur] at ha hView
    have hFreeNode : sh.machine.mem.load32 (sh.currentDir + 312) = env.iso9660FreeNode :=
      congrArg NodeView.freeNode hView
    obtain ⟨s₃, hFree', hMem, hPages, hInv⟩ := callFreeNode_iso9660 env.toEnv hKeeps.inv
      (hKeeps.kept _ ha) (hWord.trans hFreeNode)
    obtain rfl : s₃ = s₂ := Outcome.done.inj (hFree'.symm.trans hFree)
    exact ⟨_, hThere.free hMem hPages hInv (hNe ha)⟩

/-- **`cd ..`.** -/
theorem SessionInv.up {reply : CdReply} (h : SessionInv cat fsInfo place sh live)
    (hFuel : 256 ≤ fuel)
    (hUp : ∀ s', callRecreate env.toEnv fuel sh.machine sh.parent ≠ .done (0, s'))
    (hHarmless : UpHarmless env.toEnv dev fuel sh)
    (hRun : shellCd env.toEnv fuel sh CString.dotDot = .done (reply, sh')) :
    ∃ place' live', SessionInv cat fsInfo place' sh' live' ∧
      Browses cat.tree processCommand (place, world) (.cd CString.dotDot)
        (reply.text CString.dotDot) (place', world) := by
  by_cases hNone : sh.parent.recreate = 0
  · unfold shellCd at hRun
    rw [if_pos rfl] at hRun
    obtain ⟨rfl, rfl⟩ : CdReply.cannotGoUp = reply ∧ sh = sh' := by
      simpa using (if_pos hNone).symm.trans hRun
    -- only the root directory has no link
    have hRecreate := (env.words env.rootRecreate (by simp)).1
    have hIso := (env.words env.iso9660Recreate (by simp)).1
    rcases h.link with ⟨rfl, -⟩ | ⟨-, hParent⟩ | ⟨lba, -, hLink⟩
    · exact ⟨.root, live, h, .cdTop rfl⟩
    · rw [hParent] at hNone
      exact absurd hNone hRecreate
    · rcases hLink.follow with hRoot | ⟨-, hVolume⟩
      · exact absurd (hRoot.symm.trans hNone) hRecreate
      · exact absurd (hVolume.symm.trans hNone) hIso
  · rw [shellCd_up hNone] at hRun
    obtain ⟨⟨node, s₁⟩, hCall, hRun⟩ := Outcome.bind_eq_done.mp hRun
    obtain ⟨s₂, hFree, hEq⟩ := Outcome.map_eq_done.mp hRun
    obtain ⟨rfl, rfl⟩ := Prod.mk.inj hEq
    obtain ⟨e, live₁, hAbove, hKeeps, hHere, hNe⟩ :=
      h.recreate hFuel hNone hUp hHarmless hCall
    obtain ⟨live', hEnd⟩ := h.leave hKeeps (h.move hKeeps hHere) hNe hFree
    exact ⟨e, live', hEnd, .cdUp hAbove⟩

end Up

-- ---------------------------------------------------------------------------
-- The session
-- ---------------------------------------------------------------------------

/-- The commands that the shell serves as it should: a name is one that `finddir` comes
to, a file for `cat` is not empty and is text, one for `filesize` has a length of at most
nine digits, and `cd ..` is given where the directory above can be made again. -/
def Served {env : ShellEnv} {dev : Nat} (cat : Catalogue env.toEnv dev) (fuel : Nat) (sh : Shell) :
    Command → Prop
  | .cd dest =>
    if dest = CString.dotDot then
      (∀ s', callRecreate env.toEnv fuel sh.machine sh.parent ≠ .done (0, s')) ∧
        UpHarmless env.toEnv dev fuel sh
    else cat.Looks sh dest fun _ => True
  | .cat dest => cat.Looks sh dest fun r =>
      0 < r.fileLength ∧ r.fileLength < 2 ^ 31 ∧ 0 ∉ cat.content r
  | .filesize dest => cat.Looks sh dest fun r => r.fileLength < 10 ^ 9
  | _ => True

section Session

variable {World : Type}
  (processCommand : ProcessCommand → World → Outcome (List UInt8 × World))
  {env : ShellEnv} {dev : Nat} (cat : Catalogue env.toEnv dev)

/-- A turn of the shell: a command that it serves, and that returns. -/
def sessionTurn : Turn (Shell × World) Command (List UInt8) := fun st c text st' =>
  ∃ fuel, 256 ≤ fuel ∧ Served cat fuel st.1 c ∧
    runCommand processCommand env fuel st.1 st.2 c = .done (text, st'.1, st'.2)

/-- The shell is at the place, in the same rest of the kernel. -/
def AtPlace (fsInfo : Nat) (at_ : Place × World) (st : Shell × World) : Prop :=
  at_.2 = st.2 ∧ ∃ live, SessionInv cat fsInfo at_.1 st.1 live

variable {processCommand cat}

variable (processCommand cat) in
/-- **Step lemma.** Every command that is served. -/
theorem session_simulates (hCalls : Callbacks env.toEnv) (fsInfo : Nat) :
    Simulates (sessionTurn processCommand cat) (Browses cat.tree processCommand)
      (AtPlace cat fsInfo) := by
  rintro ⟨place, world⟩ ⟨sh, world₀⟩ c text ⟨sh', world'⟩ ⟨hWorld, live, h⟩
    ⟨fuel, hFuel, hServed, hRun⟩
  obtain rfl : world = world₀ := hWorld
  have hStay : ∀ {text' : List UInt8},
      .done (text', sh, world) = Outcome.done (text, sh', world') →
      Browses cat.tree processCommand (place, world) c text' (place, world) →
      ∃ at_, Browses cat.tree processCommand (place, world) c text at_ ∧
        AtPlace cat fsInfo at_ (sh', world') := by
    intro text' hEq hBrowse
    obtain ⟨rfl, rfl, rfl⟩ : text' = text ∧ sh = sh' ∧ world = world' := by simpa using hEq
    exact ⟨_, hBrowse, rfl, live, h⟩
  cases c with
  | empty => exact hStay hRun .empty
  | uname => exact hStay hRun .uname
  | pwd => exact hStay hRun .pwd
  | mem => exact hStay hRun .mem
  | unknown => exact hStay hRun .unknown
  | ls =>
    obtain ⟨⟨out, sh₁⟩, hLs, hEq⟩ := Outcome.map_eq_done.mp hRun
    obtain ⟨rfl, rfl, rfl⟩ : out = text ∧ sh₁ = sh' ∧ world = world' := by simpa using hEq
    obtain ⟨hEnd, hBrowse⟩ := h.ls hFuel hLs
    exact ⟨_, hBrowse, rfl, live, hEnd⟩
  | cat dest =>
    obtain ⟨⟨out, sh₁⟩, hCat, hEq⟩ := Outcome.map_eq_done.mp hRun
    obtain ⟨rfl, rfl, rfl⟩ : out = text ∧ sh₁ = sh' ∧ world = world' := by simpa using hEq
    obtain ⟨live', hEnd, hBrowse⟩ := h.catFile hCalls hFuel hServed hCat
    exact ⟨_, hBrowse, rfl, live', hEnd⟩
  | filesize dest =>
    obtain ⟨⟨out, sh₁⟩, hSize, hEq⟩ := Outcome.map_eq_done.mp hRun
    obtain ⟨rfl, rfl, rfl⟩ : out = text ∧ sh₁ = sh' ∧ world = world' := by simpa using hEq
    obtain ⟨live', hEnd, hBrowse⟩ := h.filesize hCalls hFuel hServed hSize
    exact ⟨_, hBrowse, rfl, live', hEnd⟩
  | cd dest =>
    obtain ⟨⟨reply, sh₁⟩, hCd, hEq⟩ := Outcome.map_eq_done.mp hRun
    obtain ⟨rfl, rfl, rfl⟩ : reply.text dest = text ∧ sh₁ = sh' ∧ world = world' := by
      simpa using hEq
    by_cases hDest : dest = CString.dotDot
    · subst hDest
      rw [Served, if_pos rfl] at hServed
      obtain ⟨place', live', hEnd, hBrowse⟩ := h.up hFuel hServed.1 hServed.2 hCd
      exact ⟨_, hBrowse, rfl, live', hEnd⟩
    · rw [Served, if_neg hDest] at hServed
      obtain ⟨place', live', hEnd, hBrowse⟩ := h.down hCalls hFuel hDest hServed hCd
      exact ⟨_, hBrowse, rfl, live', hEnd⟩
  | process command =>
    by_cases hExit : command = .exit
    · subst hExit
      obtain ⟨⟨out, world₁⟩, hProcess, hEq⟩ := Outcome.map_eq_done.mp hRun
      obtain ⟨rfl, rfl, rfl⟩ : ascii "bye\n" ++ out = text ∧ sh = sh' ∧
        world₁ = world' := by
        simpa using hEq
      exact ⟨_, .exit hProcess, rfl, live, h⟩
    · have hRun : ((processCommand command world).map fun answer => (answer.1, sh, answer.2)) =
          .done (text, sh', world') := by
        cases command with
        | exit => exact absurd rfl hExit
        | _ => exact hRun
      obtain ⟨⟨out, world₁⟩, hProcess, hEq⟩ := Outcome.map_eq_done.mp hRun
      obtain ⟨rfl, rfl, rfl⟩ : out = text ∧ sh = sh' ∧ world₁ = world' := by
        simpa using hEq
      exact ⟨_, .process hExit hProcess, rfl, live, h⟩

variable (cat) in
/-- After the mount the shell is at the root of the tree. -/
theorem session_start {s : Machine} {live : List Alloc} {fuel : Nat} {sh : Shell} (world : World)
    (hDev : dev < 2 ^ 32) (hInv : s.Inv live) (hLayout : Layout env s.pages)
    (hBss : Bss env.toEnv s.mem) (hMount : mountCdrom env.toEnv fuel s dev = .done sh) :
    ∃ fsInfo, AtPlace cat fsInfo (cat.tree.root, world) (sh, world) := by
  have hInit : Transition.Reachable (shellSystem idleProcesses env dev (Sound env)) (sh, ()) :=
    .init ⟨s, live, fuel, hInv, hLayout, hBss, hMount⟩
  obtain ⟨fsInfo, live', h⟩ := current_reachable_inv hDev hInit
  have hReaddir := mountCdrom_readdir env.readdir_ne.2.2.2.2 hMount
  obtain ⟨s', -, rfl⟩ := Outcome.map_eq_done.mp hMount
  exact ⟨fsInfo, rfl, live', h, .root, hReaddir⟩

end Session

-- ---------------------------------------------------------------------------
-- Sessions that are evaluated
-- ---------------------------------------------------------------------------

instance (env : Env) (s : Machine) (dir : Nat) : Decidable (OnVolume env s dir) :=
  inferInstanceAs (Decidable (_ ∧ _))

instance {env : Env} {dev : Nat} (cat : Catalogue env dev) (sh : Shell) (dest : CString)
    (Ok : DirRecord → Prop) [DecidablePred Ok] : Decidable (cat.Looks sh dest Ok) :=
  inferInstanceAs (Decidable (OnVolume env sh.machine sh.currentDir →
    ∀ r ∈ firstRecord dest.bytes (cat.records (sh.machine.mem.load32 (sh.currentDir + 272))), _))

theorem Outcome.toOption_fst_ne {α β : Type} {x : Outcome (α × β)} {a : α} :
    x.toOption.map Prod.fst ≠ some a ↔ ∀ b, x ≠ .done (a, b) := by
  cases x with
  | done r => simp [Outcome.toOption, Prod.ext_iff]
  | panic msg => simp [Outcome.toOption]
  | running => simp [Outcome.toOption]

instance (env : Env) (dev fuel : Nat) (sh : Shell) : Decidable (UpHarmless env dev fuel sh) :=
  decidable_of_iff (sh.parent.recreate = env.iso9660Recreate →
      ∃ r ∈ (recreateCalls fuel sh.machine.heap).toOption,
        ¬ Clobbers r.1 r.2.1 sh.parent.inode ((env.devices dev sh.parent.inode).load32 10)) <| by
    unfold UpHarmless
    simp only [Option.mem_def, Outcome.toOption_eq_some, Prod.exists, exists_and_right]

instance {env : ShellEnv} {dev : Nat} (cat : Catalogue env.toEnv dev) (fuel : Nat) (sh : Shell) :
    DecidablePred (Served cat fuel sh)
  | .cd dest =>
    have : Decidable (∀ s', callRecreate env.toEnv fuel sh.machine sh.parent ≠ .done (0, s')) :=
      decidable_of_iff _ Outcome.toOption_fst_ne
    if h : dest = CString.dotDot then
      decidable_of_iff (_ ∧ UpHarmless env.toEnv dev fuel sh) (by rw [Served, if_pos h])
    else decidable_of_iff (cat.Looks sh dest fun _ => True) (by rw [Served, if_neg h])
  | .cat _ => inferInstanceAs (Decidable (cat.Looks ..))
  | .filesize _ => inferInstanceAs (Decidable (cat.Looks ..))
  | .empty | .uname | .ls | .pwd | .mem | .process _ | .unknown => .isTrue trivial

/-- The commands one after another, as long as they are served and return: what was said,
and the shell that they leave. -/
def runSession {World : Type}
    (processCommand : ProcessCommand → World → Outcome (List UInt8 × World))
    {env : ShellEnv} {dev : Nat} (cat : Catalogue env.toEnv dev) :
    List Command → Shell × World → Option (List (Command × List UInt8) × (Shell × World))
  | [], st => some ([], st)
  | c :: cs, st =>
    if Served cat 600 st.1 c then
      (runCommand processCommand env 600 st.1 st.2 c).toOption.bind fun (text, st') =>
      (runSession processCommand cat cs st').map fun (log, st'') => ((c, text) :: log, st'')
    else none

theorem runSession_run {World : Type}
    {processCommand : ProcessCommand → World → Outcome (List UInt8 × World)} {env : ShellEnv}
    {dev : Nat} {cat : Catalogue env.toEnv dev} {cs : List Command} {st st' : Shell × World}
    {log : List (Command × List UInt8)}
    (h : runSession processCommand cat cs st = some (log, st')) :
    Run (sessionTurn processCommand cat) st log st' := by
  induction cs generalizing st log with
  | nil =>
    obtain ⟨rfl, rfl⟩ : [] = log ∧ st = st' := by simpa [runSession] using h
    exact .nil st
  | cons c cs ih =>
    rw [runSession] at h
    split at h
    · next hServed =>
      obtain ⟨⟨text, st₁⟩, hCommand, h⟩ := Option.bind_eq_some_iff.mp h
      obtain ⟨⟨rest, st₂⟩, hRest, hEq⟩ := Option.map_eq_some_iff.mp h
      obtain ⟨rfl, rfl⟩ := Prod.mk.inj hEq
      exact .cons ⟨600, by omega, hServed, Outcome.toOption_eq_some.mp hCommand⟩ (ih hRest)
    · cases h

/-- The volume on the disk with the directories `D` and `D/E`. -/
def browseVolume : Volume (sampleShellEnv treeDisk).toEnv 1 := treeVolume

theorem browse_system : ∀ e ∈ treeEntries, iso9660Offset ≤ e.lba := by decide

theorem browse_children (lba : Nat) : ∀ r ∈ visible (treeRecords lba), r.flags &&& 2 ≠ 0 →
    browseVolume.parentLba r.lba = some lba := by
  have hThree : ∀ lba ∈ [20, 21, 22],
      ∀ r ∈ visible (treeRecords lba), r.flags &&& 2 ≠ 0 →
      browseVolume.parentLba r.lba = some lba := by decide
  by_cases hIn : lba ∈ [20, 21, 22]
  · exact hThree lba hIn
  · simp only [List.mem_cons, List.not_mem_nil, or_false, not_or] at hIn
    simp [treeRecords, hIn, visible]

/-- The records and the path table agree. -/
def browseCatalogue : Catalogue (sampleShellEnv treeDisk).toEnv 1 where
  toVolume := browseVolume
  records := treeRecords
  directories := tree_directories
  system := browse_system
  children := browse_children

def browseName (name : String) : CString :=
  if h : 0 ∉ ascii name then ⟨ascii name, h⟩ else CString.error

/-- Down to the first directory. -/
def browseTop : List Command :=
  [.cd (browseName "mnt"), .cd (browseName "cdrom0"), .cd (browseName "D")]

theorem browse_mounted {sh : Shell} (h : sampleShell treeDisk = some sh) :
    ∃ s live fuel, s.Inv live ∧ Layout (sampleShellEnv treeDisk) s.pages ∧
      Bss (sampleShellEnv treeDisk).toEnv s.mem ∧
      mountCdrom (sampleShellEnv treeDisk).toEnv fuel s 1 = .done sh := by
  obtain ⟨heap, m', hMain, hMount⟩ := sampleShell_done h
  exact ⟨⟨heap, fun _ => 0⟩, [], 600, (mainHeapInit_init (by decide) hMain).inv,
    samplePages_layout hMain, fun _ _ _ _ => rfl, hMount⟩

theorem browse_callbacks : Callbacks (sampleShellEnv treeDisk).toEnv := ⟨by decide, by decide⟩

/-- The shell in `D`: what it lists, and a step down and back. -/
theorem browse_evaluated :
    ∃ sh st₀ st₁ st₂ st₃, sampleShell treeDisk = some sh ∧
      Run (sessionTurn idleProcesses browseCatalogue) (sh, ())
        (browseTop.map fun c => (c, [])) st₀ ∧
      Run (sessionTurn idleProcesses browseCatalogue) st₀ [(.ls, ascii "E\n")] st₁ ∧
      Run (sessionTurn idleProcesses browseCatalogue) st₀ [(.cd (browseName "E"), [])] st₂ ∧
      Run (sessionTurn idleProcesses browseCatalogue) st₂ [(.cd CString.dotDot, [])] st₃ := by
  have hEval : ((sampleShell treeDisk).bind fun sh =>
      (runSession idleProcesses browseCatalogue browseTop (sh, ())).bind fun (top, st₀) =>
      (runSession idleProcesses browseCatalogue [.ls] st₀).bind fun (names, _) =>
      (runSession idleProcesses browseCatalogue [.cd (browseName "E")] st₀).bind
        fun (down, st₂) =>
      (runSession idleProcesses browseCatalogue [.cd CString.dotDot] st₂).map fun (up, _) =>
        [top, names, down, up]) =
      some [browseTop.map fun c => (c, []), [(.ls, ascii "E\n")], [(.cd (browseName "E"), [])],
        [(.cd CString.dotDot, [])]] := by decide +kernel
  obtain ⟨sh, hShell, hEval⟩ := Option.bind_eq_some_iff.mp hEval
  obtain ⟨⟨top, st₀⟩, hTop, hEval⟩ := Option.bind_eq_some_iff.mp hEval
  obtain ⟨⟨names, st₁⟩, hNames, hEval⟩ := Option.bind_eq_some_iff.mp hEval
  obtain ⟨⟨down, st₂⟩, hDown, hEval⟩ := Option.bind_eq_some_iff.mp hEval
  obtain ⟨⟨up, st₃⟩, hUp, hLogs⟩ := Option.map_eq_some_iff.mp hEval
  simp only [List.cons.injEq, and_true] at hLogs
  obtain ⟨rfl, rfl, rfl, rfl⟩ := hLogs
  exact ⟨sh, st₀, st₁, st₂, st₃, hShell, runSession_run hTop, runSession_run hNames,
    runSession_run hDown, runSession_run hUp⟩

-- ---------------------------------------------------------------------------
-- What the shell shows
-- ---------------------------------------------------------------------------

end Hexos
