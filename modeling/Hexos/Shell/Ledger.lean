import Hexos.Fs.Cat
import Hexos.Fs.Navigate
import Hexos.Shell.Line
import Hexos.Shell.Services
import Mathlib.Data.Multiset.AddSub

/-!
# HexOS — what the commands leave on the heap

The services of the model with a ledger: the pointers that `kalloc` has returned
and `kfree` has not been given since. A lookup on a volume makes a node, and only
`cd` into a directory has a use for it; `iso9660_recreate` makes a node that nobody
ever sees.

## Results

* `ledger_matches` — the ledger does not change what the commands do.
* `finddir_live`, `recreate_live` — what a lookup and the way up leave.
* `harmless_iff_records` — what a lookup comes to, in terms of the records.
* `commands_keep_heap_iff` — exactly when a command leaks nothing.
-/

namespace Hexos

-- ---------------------------------------------------------------------------
-- The ledger
-- ---------------------------------------------------------------------------

/-- A machine, and the allocations made and not yet freed. -/
structure Ledger where
  machine : Machine
  live    : Multiset Nat

/-- The services of the model, with a ledger. -/
def ledger (env : Env) (fuel : Nat) : Services Ledger where
  mem l := l.machine.mem
  setMem l m := { l with machine := { l.machine with mem := m } }
  kalloc l size := (l.machine.kalloc fuel size).map fun (ptr, s) => (ptr, ⟨s, ptr ::ₘ l.live⟩)
  kfree l ptr := (l.machine.kfree ptr).map fun s => ⟨s, l.live.erase ptr⟩
  readBlock l dev buffer lba := .done { l with machine := l.machine.readBlock env dev buffer lba }

theorem ledger_matches (env : Env) (fuel : Nat) :
    (ledger env fuel).MatchesAll (Services.model env fuel) Ledger.machine where
  mem _ := rfl
  setMem _ _ := rfl
  kalloc l size := Outcome.map_map_self (fun _ => rfl) (l.machine.kalloc fuel size)
  kfree l ptr := Outcome.map_map_self (fun _ => rfl) (l.machine.kfree ptr)
  readBlock _ _ _ _ := rfl

/-- The address of a free cell. -/
def FreeCell (heap : KernelHeap) (a : Nat) : Prop :=
  ∃ b ∈ heap, ∃ x, x < b.bcnt ∧ b.bm x = 0 ∧ a = b.cellAddr x

instance (heap : KernelHeap) (a : Nat) : Decidable (FreeCell heap a) :=
  inferInstanceAs
    (Decidable (∃ b ∈ heap, ∃ x, x < b.bcnt ∧ b.bm x = 0 ∧ a = b.cellAddr x))

theorem kallocScan_free {b : KernelHeapBlockBm} {bneed fuel x w : Nat} (hNeed : 1 ≤ bneed)
    (h : b.kallocScan bneed fuel x = some (some w)) : w < b.bcnt ∧ b.bm w = 0 := by
  induction fuel generalizing x with
  | zero => cases h
  | succ fuel ih =>
    rw [KernelHeapBlockBm.kallocScan] at h
    split at h
    · cases h
    · simp only at h
      generalize (if x ≥ b.bcnt then 0 else x) = x' at h
      split at h
      · split at h
        · next hCount =>
          obtain rfl : x' = w := by simpa using h
          obtain ⟨k, rfl⟩ : ∃ k, bneed = k + 1 := ⟨bneed - 1, by omega⟩
          rw [KernelHeapBlockBm.countFree] at hCount
          split at hCount
          · next hFree => exact ⟨hFree.2, hFree.1⟩
          · cases hCount
        · exact ih h
      · exact ih h

theorem kalloc_freeCell {fuel size ptr : Nat} {heap heap' : KernelHeap} (hSize : 1 ≤ size)
    (h : kalloc fuel heap size = .done (ptr, heap')) : FreeCell heap ptr := by
  obtain ⟨pre, b, post, x, rfl, hScan, rfl, -⟩ := kalloc_done h
  have hNeed : 1 ≤ blocksFor size b.bsize := by
    unfold blocksFor
    split
    · exact Nat.succ_le_succ (Nat.zero_le _)
    · next hExact =>
      rcases Nat.eq_zero_or_pos (size / b.bsize) with h0 | h0
      · rw [h0] at hExact
        omega
      · exact h0
  obtain ⟨hx, hFree⟩ := kallocScan_free hNeed hScan
  exact ⟨b, by simp, x, hx, hFree, rfl⟩

/-- Allocation makes no cell free. -/
theorem FreeCell.of_kalloc {fuel size ptr a : Nat} {heap heap' : KernelHeap}
    (h : kalloc fuel heap size = .done (ptr, heap')) (hFree : FreeCell heap' a) :
    FreeCell heap a := by
  obtain ⟨pre, b, post, x, rfl, -, -, rfl⟩ := kalloc_done h
  obtain ⟨c, hc, y, hy, hByte, rfl⟩ := hFree
  rcases List.mem_append.mp hc with hc | hc
  · exact ⟨c, List.mem_append_left _ hc, y, hy, hByte, rfl⟩
  · rcases List.mem_cons.mp hc with rfl | hc
    · refine ⟨b, by simp, y, hy, ?_, rfl⟩
      have hNid := (kheapGetNid_spec (b.leftOf x) (b.bm (x + blocksFor size b.bsize))).1
      by_cases hIn : x ≤ y ∧ y < x + blocksFor size b.bsize
      · exact absurd ((fill_in hIn.1 hIn.2).symm.trans hByte) hNid
      · exact (fill_out (by omega)).symm.trans hByte
    · exact ⟨c, List.mem_append_right _ (List.mem_cons_of_mem b hc), y, hy, hByte, rfl⟩

-- ---------------------------------------------------------------------------
-- The file systems
-- ---------------------------------------------------------------------------

/-- What a lookup in the directory at `dir` comes to: its buffer, its read and its walk.
The walk may miss a record that is there. -/
def recordOf (env : Env) (fuel : Nat) (s : Machine) (dir : Nat) (name : CString) :
    Outcome (Option Nat) :=
  (s.kalloc fuel 2048).bind fun (buffer, s) =>
  let fsInfo := s.mem.load32 (dir + 280)
  let s := s.readBlock env (s.mem.load32 fsInfo) buffer (s.mem.load32 (dir + 272))
  (finddirLoop name fuel s.mem buffer true).map fun (entry, _) => entry

namespace Ledger

variable {env : Env} {fuel : Nat} {l l' : Ledger}

theorem kalloc_live {size ptr : Nat} (h : (ledger env fuel).kalloc l size = .done (ptr, l')) :
    l.machine.kalloc fuel size = .done (ptr, l'.machine) ∧ l'.live = ptr ::ₘ l.live := by
  obtain ⟨⟨p, s⟩, hAlloc, hEq⟩ := Outcome.map_eq_done.mp h
  obtain ⟨rfl, rfl⟩ : p = ptr ∧ ⟨s, p ::ₘ l.live⟩ = l' := by simpa using hEq
  exact ⟨hAlloc, rfl⟩

theorem kalloc_heap {size ptr : Nat} (h : (ledger env fuel).kalloc l size = .done (ptr, l')) :
    Hexos.kalloc fuel l.machine.heap size = .done (ptr, l'.machine.heap) :=
  Machine.kalloc_done (kalloc_live h).1

theorem kfree_live {ptr : Nat} (h : (ledger env fuel).kfree l ptr = .done l') :
    l'.live = l.live.erase ptr := by
  obtain ⟨s, -, rfl⟩ := Outcome.map_eq_done.mp h
  rfl

theorem readBlock_eq {dev buffer lba : Nat}
    (h : (ledger env fuel).readBlock l dev buffer lba = .done l') :
    l' = ⟨l.machine.readBlock env dev buffer lba, l.live⟩ := (Outcome.done.inj h).symm

theorem entryToNodeMini_live {dirEntry fsInfo r : Nat} {parent : FsNodeMini}
    (h : (ledger env fuel).entryToNodeMini env fuel l dirEntry fsInfo parent = .done (r, l')) :
    FreeCell l.machine.heap r ∧ l'.live = r ::ₘ l.live := by
  obtain ⟨⟨response, l₁⟩, hAlloc, h⟩ := Outcome.bind_eq_done.mp h
  obtain ⟨m, -, hEq⟩ := Outcome.map_eq_done.mp h
  obtain ⟨rfl, rfl⟩ : response = r ∧ _ = l' := Prod.mk.inj hEq
  exact ⟨kalloc_freeCell (by decide) (kalloc_heap hAlloc), (kalloc_live hAlloc).2⟩

theorem entryToNode_live {dirEntry fsInfo parent r : Nat}
    (h : (ledger env fuel).entryToNode env fuel l dirEntry fsInfo parent = .done (r, l')) :
    FreeCell l.machine.heap r ∧ l'.live = r ::ₘ l.live := entryToNodeMini_live h

/-- A listing frees its buffer on every path. -/
theorem readdir_live {this i r : Nat}
    (h : (ledger env fuel).readdir env fuel l this i = .done (r, l')) :
    l'.live = l.live := by
  obtain ⟨⟨buffer, l₁⟩, hAlloc, h⟩ := Outcome.bind_eq_done.mp h
  obtain ⟨l₁', hRead, h⟩ := Outcome.bind_eq_done.mp h
  obtain rfl := readBlock_eq hRead
  have hLive := (kalloc_live hAlloc).2
  have hFree : ∀ {l₂ : Ledger} {a : Nat},
      (((ledger env fuel).kfree l₂ buffer).map fun l => (a, l)) = .done (r, l') →
      l₂.live = l₁.live → l'.live = l.live := by
    intro l₂ a hEnd hSame
    obtain ⟨l₃, hFree, hEq⟩ := Outcome.map_eq_done.mp hEnd
    obtain ⟨-, rfl⟩ := Prod.mk.inj hEq
    rw [kfree_live hFree, hSame, hLive, Multiset.erase_cons_head]
  obtain ⟨entry, -, h⟩ := Outcome.bind_eq_done.mp h
  cases entry with
  | none => exact hFree h rfl
  | some dirEntry =>
    obtain ⟨m, -, h⟩ := Outcome.bind_eq_done.mp h
    exact hFree h rfl

/-- **A lookup.** It leaves a node if it comes to a record, and nothing if it comes to
none. -/
theorem finddir_live {dir r : Nat} {name : CString}
    (h : (ledger env fuel).finddir env fuel l dir name = .done (r, l')) :
    (recordOf env fuel l.machine dir name = .done none ∧ r = 0 ∧ l'.live = l.live) ∨
      ((∃ e, recordOf env fuel l.machine dir name = .done (some e)) ∧
        FreeCell l.machine.heap r ∧
        l'.live = r ::ₘ l.live) := by
  obtain ⟨⟨buffer, l₁⟩, hAlloc, h⟩ := Outcome.bind_eq_done.mp h
  obtain ⟨hBuffer, hLive⟩ := kalloc_live hAlloc
  obtain ⟨l₁', hRead, h⟩ := Outcome.bind_eq_done.mp h
  obtain rfl := readBlock_eq hRead
  obtain ⟨⟨entry, m⟩, hWalk, h⟩ := Outcome.bind_eq_done.mp h
  have hRecord : recordOf env fuel l.machine dir name = .done entry := by
    unfold recordOf
    rw [hBuffer, Outcome.bind_done]
    exact Outcome.map_eq_done.mpr ⟨_, hWalk, rfl⟩
  cases entry with
  | none =>
    obtain ⟨l₂, hFree, hEq⟩ := Outcome.map_eq_done.mp h
    obtain ⟨rfl, rfl⟩ := Prod.mk.inj hEq
    refine Or.inl ⟨hRecord, rfl, ?_⟩
    rw [kfree_live hFree]
    show l₁.live.erase buffer = l.live
    rw [hLive, Multiset.erase_cons_head]
  | some dirEntry =>
    obtain ⟨⟨response, l₂⟩, hNode, h⟩ := Outcome.bind_eq_done.mp h
    obtain ⟨l₃, hFree, hEq⟩ := Outcome.map_eq_done.mp h
    obtain ⟨rfl, rfl⟩ := Prod.mk.inj hEq
    obtain ⟨hFreeCell, hNodeLive⟩ := entryToNode_live hNode
    refine Or.inr ⟨⟨dirEntry, hRecord⟩,
      FreeCell.of_kalloc (kalloc_heap hAlloc) hFreeCell, ?_⟩
    rw [kfree_live hFree, hNodeLive]
    show (response ::ₘ l₁.live).erase buffer = response ::ₘ l.live
    rw [hLive, Multiset.cons_swap, Multiset.erase_cons_head]

/-- **The way up.** The first allocation stays, on every path. -/
theorem recreate_live {mini : FsNodeMini} {r : Nat}
    (h : (ledger env fuel).recreate env fuel l mini = .done (r, l')) :
    ∃ unused, FreeCell l.machine.heap unused ∧
      ((r = 0 ∧ l'.live = unused ::ₘ l.live) ∨ l'.live = r ::ₘ unused ::ₘ l.live) := by
  obtain ⟨⟨unused, l₁⟩, hUnused, h₁⟩ := Outcome.bind_eq_done.mp h
  obtain ⟨⟨entryBuffer, l₂⟩, hEntry, h₂⟩ := Outcome.bind_eq_done.mp h₁
  obtain ⟨_, hRead, h₃⟩ := Outcome.bind_eq_done.mp h₂
  obtain rfl := readBlock_eq hRead
  obtain ⟨⟨tableBuffer, l₃⟩, hTable, h₄⟩ := Outcome.bind_eq_done.mp h₃
  obtain ⟨_, hRead', h₅⟩ := Outcome.bind_eq_done.mp h₄
  obtain rfl := readBlock_eq hRead'
  obtain ⟨_, hRead'', h₆⟩ := Outcome.bind_eq_done.mp h₅
  obtain rfl := readBlock_eq hRead''
  refine ⟨unused, kalloc_freeCell (by decide) (kalloc_heap hUnused), ?_⟩
  have hBuffers : ∀ {l₄ l₅ : Ledger},
      (ledger env fuel).freeBuffers l₄ tableBuffer entryBuffer = .done l₅ →
      l₄.live = l₃.live →
      l₅.live = unused ::ₘ l.live := by
    intro l₄ l₅ hFree hSame
    obtain ⟨l₆, hFreeT, hFreeE⟩ := Outcome.bind_eq_done.mp hFree
    have hLive₂ : l₂.live = entryBuffer ::ₘ l₁.live := (kalloc_live hEntry).2
    have hLive₃ : l₃.live = tableBuffer ::ₘ l₂.live := (kalloc_live hTable).2
    rw [kfree_live hFreeE, kfree_live hFreeT, hSame, hLive₃, Multiset.erase_cons_head, hLive₂,
      Multiset.erase_cons_head, (kalloc_live hUnused).2]
  have hFail : ∀ {l₄ : Ledger},
      (((ledger env fuel).freeBuffers l₄ tableBuffer entryBuffer).map fun l => (0, l)) =
      .done (r, l') →
      l₄.live = l₃.live → r = 0 ∧ l'.live = unused ::ₘ l.live := by
    intro l₄ hEnd hSame
    obtain ⟨l₅, hFree, hEq⟩ := Outcome.map_eq_done.mp hEnd
    obtain ⟨rfl, rfl⟩ := Prod.mk.inj hEq
    exact ⟨rfl, hBuffers hFree hSame⟩
  obtain ⟨found, -, h₇⟩ := Outcome.bind_eq_done.mp h₆
  cases found with
  | none => exact Or.inl (hFail h₇ rfl)
  | some found =>
    obtain ⟨pathEntry, isFirstEntry⟩ := found
    simp only at h₇
    split at h₇
    · exact Or.inl (hFail h₇ rfl)
    · obtain ⟨l₅, hFree, hNode⟩ := Outcome.bind_eq_done.mp h₇
      refine Or.inr ?_
      rw [(entryToNodeMini_live hNode).2, hBuffers hFree rfl]

/-- A block read frees its buffer. -/
theorem read_live {node offset size buffer : Nat}
    (h : (ledger env fuel).read fuel l node offset size buffer = .done l') : l'.live = l.live := by
  obtain ⟨blocksize, -, h⟩ := Outcome.bind_eq_done.mp h
  obtain ⟨⟨blockbuf, l₁⟩, hAlloc, h⟩ := Outcome.bind_eq_done.mp h
  obtain ⟨l₁', hRead, h⟩ := Outcome.bind_eq_done.mp h
  obtain rfl := readBlock_eq hRead
  rw [kfree_live h]
  show l₁.live.erase blockbuf = l.live
  rw [(kalloc_live hAlloc).2, Multiset.erase_cons_head]

end Ledger

-- ---------------------------------------------------------------------------
-- The commands
-- ---------------------------------------------------------------------------

/-- The lookup of the name is one on the volume, and comes to a record. -/
def Found (env : Env) (fuel : Nat) (s : Machine) (dir : Nat) (name : CString) : Prop :=
  OnVolume env s dir ∧ ∃ e, recordOf env fuel s dir name = .done (some e)

/-- The lookup of the name returns the node of a directory. -/
def FindsDirectory (env : Env) (fuel : Nat) (s : Machine) (dir : Nat) (name : CString) : Prop :=
  ∃ node s', finddirFs env fuel s dir name = .done (node, s') ∧ node ≠ 0 ∧
    s'.mem.load32 (node + 268) &&& 7 = fsDirectory

/-- What a command may do to the live allocations: `cd` may add the node of the new
current directory and remove that of the old one, the others nothing. -/
def KeepsHeap (old new : Nat) (live live' : Multiset Nat) : Command → Prop
  | .cd _ => (live' = live ∨ live' = live.erase old) ∨
      new ≠ 0 ∧ (live' = new ::ₘ live ∨ live' = new ::ₘ live.erase old)
  | _ => live' = live

/-- The commands that leak nothing: the lookup of `cat` or `filesize` comes to no record,
that of `cd` to none or to a directory's, and the way up does not go through
`iso9660_recreate`. -/
def Harmless (env : ShellEnv) (fuel : Nat) (sh : Shell) : Command → Prop
  | .cat dest => ¬ Found env.toEnv fuel sh.machine sh.currentDir dest
  | .filesize dest => ¬ Found env.toEnv fuel sh.machine sh.currentDir dest
  | .cd dest =>
    if dest = CString.dotDot then sh.parent.recreate ≠ env.iso9660Recreate
    else Found env.toEnv fuel sh.machine sh.currentDir dest →
      FindsDirectory env.toEnv fuel sh.machine sh.currentDir dest
  | _ => True

/-- The current directory is a well-formed one of the volume, with the records `rest`
behind '.' and '..'. -/
def InDirectory (env : Env) (sh : Shell) (rest : List DirRecord) : Prop :=
  OnVolume env sh.machine sh.currentDir ∧ ∃ allocs fsInfo inode sec dot dotDot,
    sh.machine.Inv allocs ∧ DirAt env sh.machine allocs sh.currentDir fsInfo inode sec ∧
      IsDirectory sec dot dotDot rest

/-- The commands that leak nothing in a directory with the records `rest`. For `cat` and
`filesize`, no record is shown with the name, or a tight record is shown before the first
that has it; for `cd`, the first record with the name is a directory's, unless there is
none or a tight record is shown before it. -/
def HarmlessAmong (env : ShellEnv) (sh : Shell) (rest : List DirRecord) : Command → Prop
  | .cat dest =>
    (∀ r ∈ visible rest, r.ident ≠ dest.bytes) ∨ ¬ NoTightBefore dest.bytes rest
  | .filesize dest =>
    (∀ r ∈ visible rest, r.ident ≠ dest.bytes) ∨ ¬ NoTightBefore dest.bytes rest
  | .cd dest =>
    if dest = CString.dotDot then sh.parent.recreate ≠ env.iso9660Recreate
    else ∀ r, firstRecord dest.bytes rest = some r → NoTightBefore dest.bytes rest →
      r.flags &&& 2 ≠ 0
  | _ => True

-- ---------------------------------------------------------------------------
-- Lookups and records
-- ---------------------------------------------------------------------------

/-- The lookup comes to no record: none is shown with the name, or a tight one is shown
before it. -/
theorem lookup_none_iff {name : List UInt8} {rest : List DirRecord} :
    lookup name rest = none ↔
      (∀ r ∈ visible rest, r.ident ≠ name) ∨ ¬ NoTightBefore name rest := by
  obtain ⟨hSound, hExact⟩ := lookup_spec name rest
  have hNone : firstRecord name rest = none ↔ ∀ r ∈ visible rest, r.ident ≠ name := by
    simp [firstRecord, List.find?_eq_none]
  rw [← hNone]
  cases hFirst : firstRecord name rest with
  | none =>
    refine iff_of_true ?_ (Or.inl rfl)
    cases hLook : lookup name rest with
    | none => rfl
    | some r => cases hFirst.symm.trans (hSound r hLook)
  | some r =>
    rw [or_iff_right (by simp), ← hExact r hFirst]
    cases hLook : lookup name rest with
    | none => simp
    | some q =>
      rw [hFirst.symm.trans (hSound q hLook)]
      simp

/-- The lookup comes to a record with a property: the first one shown with the name has
it, and no tight one is shown before. -/
theorem forall_lookup_iff {name : List UInt8} {rest : List DirRecord} {P : DirRecord → Prop} :
    (∀ r, lookup name rest = some r → P r) ↔
      ∀ r, firstRecord name rest = some r → NoTightBefore name rest → P r := by
  obtain ⟨hSound, hExact⟩ := lookup_spec name rest
  constructor
  · intro h r hFirst hBefore
    exact h r ((hExact r hFirst).mpr hBefore)
  · intro h r hLook
    have hFirst := hSound r hLook
    exact h r hFirst ((hExact r hFirst).mp hLook)

section Records

variable {env : ShellEnv} {fuel : Nat} {sh : Shell} {rest : List DirRecord}

/-- In a well-formed directory, a lookup that returns comes to the record that `lookup`
gives, and returns the node of a directory if that is one's. -/
theorem found_iff_lookup {node : Nat} {s' : Machine} {name : CString}
    (h : InDirectory env.toEnv sh rest) (hFuel : 256 ≤ fuel)
    (hReturns : finddirFs env.toEnv fuel sh.machine sh.currentDir name = .done (node, s')) :
    (Found env.toEnv fuel sh.machine sh.currentDir name ↔ lookup name.bytes rest ≠ none) ∧
      ∀ r, lookup name.bytes rest = some r →
        (FindsDirectory env.toEnv fuel sh.machine sh.currentDir name ↔ r.flags &&& 2 ≠ 0) := by
  obtain ⟨hVolume, allocs, fsInfo, inode, sec, dot, dotDot, hInv, hAt, hSec⟩ := h
  have hRun := finddirFs_onVolume hVolume ▸ hReturns
  constructor
  · -- the walk over the buffer is the walk over the sector
    have hCall := hRun
    unfold iso9660Finddir at hCall
    obtain ⟨⟨buffer, s₁⟩, hBuf, -⟩ := Outcome.bind_eq_done.mp hCall
    obtain ⟨hMem, -, -⟩ := Machine.kalloc_spec hInv (by omega) hBuf
    obtain ⟨m', -, hWalk⟩ :=
      finddirLoop_directory name hSec (copyIn_sectorAt sh.machine.mem sec buffer) hFuel
    have hRecord : recordOf env.toEnv fuel sh.machine sh.currentDir name =
        (finddirLoop name fuel (sh.machine.mem.copyIn buffer 2048 sec) buffer true).map
          fun (entry, _) => entry := by
      unfold recordOf
      simp only [hBuf, Outcome.bind_done, Machine.readBlock, hMem, hAt.impl, hAt.lba, hAt.sector]
    unfold Found
    rw [hRecord]
    rcases hWalk with ⟨hNone, hLoop⟩ | ⟨r, o, hSome, -, -, -, -, hLoop⟩
    · rw [hLoop, hNone]
      simp
    · rw [hLoop, hSome]
      simp [hVolume]
  · intro r hLook
    obtain ⟨-, -, hCases⟩ := iso9660Finddir_cases hInv hAt hSec hFuel hRun
    obtain ⟨r', hLook', hInv', hNode⟩ := hCases.resolve_left fun hc => by
      rw [hLook] at hc
      cases hc.1
    obtain rfl : r = r' := Option.some.inj (hLook.symm.trans hLook')
    have hNull : node ≠ 0 := by
      have hLow := (hInv'.range List.mem_cons_self).2.1
      simp only at hLow
      omega
    have hFlags := hNode.flags
    constructor
    · rintro ⟨node', s'', hFind, -, hDirectory⟩
      obtain ⟨rfl, rfl⟩ := Prod.mk.inj (Outcome.done.inj (hFind.symm.trans hReturns))
      intro hFile
      rw [hFlags, if_neg (not_not.mpr hFile)] at hDirectory
      exact absurd hDirectory (by decide)
    · intro hDirectory
      refine ⟨node, s', hReturns, hNull, ?_⟩
      rw [hFlags, if_pos hDirectory]
      decide

/-- The lookup of a command that returns has returned. -/
theorem runCommand_lookup {World : Type}
    {processCommand : ProcessCommand → World → Outcome (List UInt8 × World)} {world : World}
    {c : Command} {result : List UInt8 × Shell × World} {dest : CString}
    (hRun : runCommand processCommand env fuel sh world c = .done result)
    (hLooksUp : c = .cat dest ∨ c = .filesize dest ∨ c = .cd dest ∧ dest ≠ CString.dotDot) :
    ∃ node s', finddirFs env.toEnv fuel sh.machine sh.currentDir dest = .done (node, s') := by
  rcases hLooksUp with rfl | rfl | ⟨rfl, hDest⟩
  · obtain ⟨_, hCat, -⟩ := Outcome.map_eq_done.mp hRun
    obtain ⟨⟨node, s'⟩, hFind, -⟩ := Outcome.bind_eq_done.mp hCat
    exact ⟨node, s', hFind⟩
  · obtain ⟨_, hSize, -⟩ := Outcome.map_eq_done.mp hRun
    obtain ⟨⟨node, s'⟩, hFind, -⟩ := Outcome.bind_eq_done.mp hSize
    exact ⟨node, s', hFind⟩
  · obtain ⟨_, hCd, -⟩ := Outcome.map_eq_done.mp hRun
    unfold shellCd at hCd
    rw [if_neg hDest] at hCd
    obtain ⟨⟨node, s'⟩, hFind, -⟩ := Outcome.map_eq_done.mp hCd
    exact ⟨node, s', hFind⟩

/-- **Lookups and records.** In a well-formed directory, what the lookup of a command
that returns comes to is a matter of the records alone. -/
theorem harmless_iff_records {World : Type}
    {processCommand : ProcessCommand → World → Outcome (List UInt8 × World)} {world : World}
    {c : Command} {result : List UInt8 × Shell × World} (h : InDirectory env.toEnv sh rest)
    (hFuel : 256 ≤ fuel)
    (hRun : runCommand processCommand env fuel sh world c = .done result) :
    Harmless env fuel sh c ↔ HarmlessAmong env sh rest c := by
  have hNotFound : ∀ dest, c = .cat dest ∨ c = .filesize dest →
      (¬ Found env.toEnv fuel sh.machine sh.currentDir dest ↔
        (∀ r ∈ visible rest, r.ident ≠ dest.bytes) ∨ ¬ NoTightBefore dest.bytes rest) := by
    intro dest hLooksUp
    obtain ⟨node, s', hReturns⟩ := runCommand_lookup hRun (hLooksUp.imp_right Or.inl)
    rw [(found_iff_lookup h hFuel hReturns).1, not_not, lookup_none_iff]
  cases c with
  | cat dest => exact hNotFound dest (Or.inl rfl)
  | filesize dest => exact hNotFound dest (Or.inr rfl)
  | cd dest =>
    rw [Harmless, HarmlessAmong]
    by_cases hDest : dest = CString.dotDot
    · rw [if_pos hDest, if_pos hDest]
    · rw [if_neg hDest, if_neg hDest, ← forall_lookup_iff (P := fun r => r.flags &&& 2 ≠ 0)]
      obtain ⟨node, s', hReturns⟩ := runCommand_lookup hRun (Or.inr (Or.inr ⟨rfl, hDest⟩))
      obtain ⟨hFound, hDirectory⟩ := found_iff_lookup h hFuel hReturns
      rw [hFound]
      constructor
      · intro hEnters r hLook
        exact (hDirectory r hLook).mp (hEnters (by rw [hLook]; simp))
      · intro hFlags hSome
        obtain ⟨r, hLook⟩ := Option.ne_none_iff_exists'.mp hSome
        exact (hDirectory r hLook).mpr (hFlags r hLook)
  | _ => exact Iff.rfl

end Records

-- ---------------------------------------------------------------------------
-- The commands over the ledger
-- ---------------------------------------------------------------------------

namespace Ledger

variable {env : ShellEnv} {fuel : Nat} {l l' : Ledger}

/-- **A lookup in the virtual file system.** -/
theorem finddirFs_live {dir r : Nat} {name : CString}
    (h : (ledger env.toEnv fuel).finddirFs env fuel l dir name = .done (r, l')) :
    (¬ Found env.toEnv fuel l.machine dir name ∧ l'.live = l.live) ∨
      (Found env.toEnv fuel l.machine dir name ∧ FreeCell l.machine.heap r ∧
        l'.live = r ::ₘ l.live) := by
  have hWord := (env.words env.iso9660Finddir (by simp)).1
  unfold Services.finddirFs at h
  simp only at h
  split at h
  · next hDir =>
    split at h
    · next hRoot =>
      obtain ⟨-, rfl⟩ : rootFinddir env.toEnv dir name = r ∧ l = l' := by simpa using h
      refine Or.inl ⟨?_, rfl⟩
      intro hc
      exact env.functions_ne.1 (hRoot.symm.trans hc.1.2)
    · split at h
      · next hIso =>
        rcases finddir_live h with ⟨hRecord, -, hLive⟩ | ⟨hRecord, hNode⟩
        · refine Or.inl ⟨?_, hLive⟩
          intro hc
          obtain ⟨-, e, he⟩ := hc
          rw [hRecord] at he
          cases he
        · exact Or.inr ⟨⟨⟨hDir.1, hIso⟩, hRecord⟩, hNode⟩
      · cases h
  · next hDir =>
    obtain ⟨-, rfl⟩ : 0 = r ∧ l = l' := by simpa using h
    refine Or.inl ⟨fun hc => hDir ⟨hc.1.1, ?_⟩, rfl⟩
    show l.machine.mem.load32 (dir + 304) ≠ 0
    rw [hc.1.2]
    exact hWord

/-- The node that a lookup makes is the difference. -/
theorem lookup_live {dir r : Nat} {name : CString}
    (h : (ledger env.toEnv fuel).finddirFs env fuel l dir name = .done (r, l')) :
    l'.live = l.live ↔ ¬ Found env.toEnv fuel l.machine dir name := by
  rcases finddirFs_live h with ⟨hFound, hLive⟩ | ⟨hFound, -, hLive⟩
  · exact iff_of_true hLive hFound
  · refine iff_of_false ?_ fun hc => hc hFound
    intro hc
    have hCard := congrArg Multiset.card (hLive.symm.trans hc)
    rw [Multiset.card_cons] at hCard
    omega

/-- The lookup of the model. -/
theorem finddirFs_model {dir r : Nat} {name : CString}
    (h : (ledger env.toEnv fuel).finddirFs env fuel l dir name = .done (r, l')) :
    Hexos.finddirFs env.toEnv fuel l.machine dir name = .done (r, l'.machine) := by
  have hMap : Outcome.map _ _ =
      (Services.model env.toEnv fuel).finddirFs env fuel l.machine dir name :=
    Services.finddirFs_map (ledger_matches env.toEnv fuel) l dir name
  rw [h] at hMap
  exact hMap.symm

/-- The way up of the model. -/
theorem callRecreate_model {r : Nat} {mini : FsNodeMini}
    (h : (ledger env.toEnv fuel).callRecreate env fuel l mini = .done (r, l')) :
    Hexos.callRecreate env.toEnv fuel l.machine mini = .done (r, l'.machine) := by
  have hMap : Outcome.map _ _ =
      (Services.model env.toEnv fuel).callRecreate env fuel l.machine mini :=
    Services.callRecreate_map (ledger_matches env.toEnv fuel) l mini
  rw [h] at hMap
  exact hMap.symm

theorem lsLoop_live {dir rounds i : Nat} {text : List UInt8}
    (h : (ledger env.toEnv fuel).lsLoop env fuel dir rounds l i = .done (text, l')) :
    l'.live = l.live := by
  induction rounds generalizing l i text with
  | zero => cases h
  | succ rounds ih =>
    rw [Services.lsLoop] at h
    obtain ⟨⟨entry, l₁⟩, hEntry, h⟩ := Outcome.bind_eq_done.mp h
    have hLive : l₁.live = l.live := by
      unfold Services.readdirFs at hEntry
      simp only at hEntry
      split at hEntry
      · split at hEntry
        · obtain ⟨-, rfl⟩ := Prod.mk.inj (Outcome.done.inj hEntry)
          rfl
        · split at hEntry
          · exact readdir_live hEntry
          · cases hEntry
      · obtain ⟨-, rfl⟩ := Prod.mk.inj (Outcome.done.inj hEntry)
        rfl
    simp only at h
    split at h
    · obtain ⟨line, -, h⟩ := Outcome.bind_eq_done.mp h
      obtain ⟨⟨rest, l₂⟩, hRest, hEq⟩ := Outcome.map_eq_done.mp h
      obtain ⟨-, rfl⟩ := Prod.mk.inj hEq
      exact (ih hRest).trans hLive
    · obtain ⟨-, rfl⟩ := Prod.mk.inj (Outcome.done.inj h)
      exact hLive

theorem readFs_live {node offset size buffer : Nat}
    (h : (ledger env.toEnv fuel).readFs env fuel l node offset size buffer = .done l') :
    l'.live = l.live := by
  unfold Services.readFs at h
  simp only at h
  split at h
  · split at h
    · exact read_live h
    · cases h
  · obtain rfl := Outcome.done.inj h
    rfl

theorem catLoop_live {node filebuf rounds : Nat} {fileLeft offset : Int} {text : List UInt8}
    (h : (ledger env.toEnv fuel).catLoop env fuel node filebuf rounds l fileLeft offset =
      .done (text, l')) : l'.live = l.live := by
  induction rounds generalizing l fileLeft offset text with
  | zero => cases h
  | succ rounds ih =>
    rw [Services.catLoop] at h
    simp only at h
    generalize (if fileLeft ≥ 2048 then 2048 else fileLeft) = toRead at h
    obtain ⟨l₁, hRead, h⟩ := Outcome.bind_eq_done.mp h
    have hLive : l₁.live = l.live := readFs_live hRead
    obtain ⟨chunk, -, h⟩ := Outcome.bind_eq_done.mp h
    split at h
    · obtain ⟨-, rfl⟩ := Prod.mk.inj (Outcome.done.inj h)
      exact hLive
    · obtain ⟨⟨rest, l₂⟩, hRest, hEq⟩ := Outcome.map_eq_done.mp h
      obtain ⟨-, rfl⟩ := Prod.mk.inj hEq
      exact (ih hRest).trans hLive

theorem cat_live {dir dir' : Nat} {dest : CString} {text : List UInt8}
    (h : (ledger env.toEnv fuel).shellCat env fuel dir l dest = .done (text, dir', l')) :
    l'.live = l.live ↔ ¬ Found env.toEnv fuel l.machine dir dest := by
  obtain ⟨⟨node, l₁⟩, hFind, h⟩ := Outcome.bind_eq_done.mp h
  have hLive : l'.live = l₁.live := by
    simp only at h
    split at h
    · obtain ⟨-, -, rfl⟩ : _ ∧ _ ∧ l₁ = l' := by simpa using h
      rfl
    · split at h
      · obtain ⟨-, -, rfl⟩ : _ ∧ _ ∧ l₁ = l' := by simpa using h
        rfl
      · obtain ⟨⟨filebuf, l₂⟩, hAlloc, h⟩ := Outcome.bind_eq_done.mp h
        obtain ⟨l₃, hOpen, h⟩ := Outcome.bind_eq_done.mp h
        obtain ⟨⟨content, l₄⟩, hLoop, h⟩ := Outcome.bind_eq_done.mp h
        obtain ⟨l₅, hFree, hEq⟩ := Outcome.map_eq_done.mp h
        obtain ⟨-, -, rfl⟩ : _ ∧ _ ∧ l₅ = l' := by simpa using hEq
        have hOpenLive : l₃ = l₂ := by
          unfold Services.openFs at hOpen
          simp only at hOpen
          split at hOpen
          · split at hOpen
            · exact (Outcome.done.inj hOpen).symm
            · cases hOpen
          · exact (Outcome.done.inj hOpen).symm
        rw [kfree_live hFree, catLoop_live hLoop, hOpenLive, (kalloc_live hAlloc).2,
          Multiset.erase_cons_head]
  rw [hLive]
  exact lookup_live hFind

theorem filesize_live {dir dir' : Nat} {dest : CString} {text : List UInt8}
    (h : (ledger env.toEnv fuel).shellFilesize env fuel dir l dest = .done (text, dir', l')) :
    l'.live = l.live ↔ ¬ Found env.toEnv fuel l.machine dir dest := by
  obtain ⟨⟨node, l₁⟩, hFind, h⟩ := Outcome.bind_eq_done.mp h
  obtain rfl : l₁ = l' := by
    simp only at h
    split at h
    · obtain ⟨-, -, rfl⟩ : _ ∧ _ ∧ l₁ = l' := by simpa using h
      rfl
    · split at h
      · obtain ⟨-, -, rfl⟩ : _ ∧ _ ∧ l₁ = l' := by simpa using h
        rfl
      · obtain ⟨size, -, hEq⟩ := Outcome.map_eq_done.mp h
        obtain ⟨-, -, rfl⟩ : _ ∧ _ ∧ l₁ = l' := by simpa using hEq
        rfl
  exact lookup_live hFind

theorem callFreeNode_live {node : Nat}
    (h : (ledger env.toEnv fuel).callFreeNode env l node = .done l') :
    l'.live = l.live ∨ l'.live = l.live.erase node := by
  unfold Services.callFreeNode at h
  simp only at h
  split at h
  · obtain rfl := Outcome.done.inj h
    exact Or.inl rfl
  · split at h
    · exact Or.inr (kfree_live h)
    · cases h

/-- How often a pointer other than the old directory's may be live after a `cd` that
leaks nothing. -/
theorem count_le_of_keepsHeap {old new u : Nat} {live live' : Multiset Nat} {dest : CString}
    (h : KeepsHeap old new live live' (.cd dest)) (hu : u ≠ old) :
    live'.count u ≤ live.count u + if new ≠ 0 ∧ u = new then 1 else 0 := by
  have hErase := Multiset.count_erase_of_ne hu live
  rcases h with (rfl | rfl) | ⟨hNew, rfl | rfl⟩
  · omega
  · omega
  · rw [Multiset.count_cons]
    simp [hNew]
  · rw [Multiset.count_cons, hErase]
    simp [hNew]

/-- What `iso9660_recreate` forgets is too much, whether the old directory is freed or
not. -/
theorem recreate_leaks {l₁ l₂ : Ledger} {mini : FsNodeMini} {dir node : Nat}
    {dest : CString} (hDir : ¬ FreeCell l.machine.heap dir)
    (hRecreate : (ledger env.toEnv fuel).recreate env.toEnv fuel l mini = .done (node, l₁))
    (hFreed : l₂.live = l₁.live ∨ l₂.live = l₁.live.erase dir) :
    ¬ KeepsHeap dir node l.live l₂.live (.cd dest) := by
  intro hKeeps
  obtain ⟨u, hu, hLive⟩ := recreate_live hRecreate
  have hNe : u ≠ dir := fun hc => hDir (hc ▸ hu)
  have hCount := count_le_of_keepsHeap hKeeps hNe
  have hSame : l₂.live.count u = l₁.live.count u := by
    rcases hFreed with hSame | hErase
    · rw [hSame]
    · rw [hErase, Multiset.count_erase_of_ne hNe]
  rw [hSame] at hCount
  rcases hLive with ⟨rfl, hLive⟩ | hLive
  · rw [hLive, Multiset.count_cons_self, if_neg (by simp)] at hCount
    omega
  · -- the forgotten node may have the address of the new one: then it counts twice
    rw [hLive, Multiset.count_cons, Multiset.count_cons_self] at hCount
    split at hCount
    · next hEq =>
      split at hCount <;> omega
    · next hEq =>
      rw [if_neg fun hc => hEq hc.2] at hCount
      omega

/-- `cd ..`. The allocation that `iso9660_recreate` forgets is too much. -/
theorem up_keepsHeap {dir dir' : Nat} {reply : CdReply} (hDir : ¬ FreeCell l.machine.heap dir)
    (h : (ledger env.toEnv fuel).shellCd env fuel dir l CString.dotDot = .done (reply, dir', l')) :
    KeepsHeap dir dir' l.live l'.live (.cd CString.dotDot) ↔
      (Shell.parent ⟨dir, l.machine⟩).recreate ≠ env.iso9660Recreate := by
  have hWord := (env.words env.iso9660Recreate (by simp)).1
  unfold Services.shellCd at h
  rw [if_pos rfl] at h
  simp only at h
  split at h
  · next hNone =>
    obtain ⟨-, -, rfl⟩ : _ ∧ _ ∧ l = l' := by simpa using h
    refine iff_of_true (Or.inl (Or.inl rfl)) ?_
    intro hc
    exact hWord (hc.symm.trans hNone)
  · obtain ⟨⟨node, l₁⟩, hCall, h⟩ := Outcome.bind_eq_done.mp h
    obtain ⟨l₂, hFree, hEq⟩ := Outcome.map_eq_done.mp h
    obtain ⟨-, rfl, rfl⟩ : _ ∧ node = dir' ∧ l₂ = l' := by simpa using hEq
    have hFreed := callFreeNode_live hFree
    unfold Services.callRecreate at hCall
    split at hCall
    · next hRoot =>
      obtain ⟨-, rfl⟩ := Prod.mk.inj (Outcome.done.inj hCall)
      refine iff_of_true (Or.inl hFreed) ?_
      intro hc
      exact env.functions_ne.2.1 (hRoot.symm.trans hc)
    · split at hCall
      · next hIso =>
        exact iff_of_false (recreate_leaks hDir hCall hFreed) fun hc => hc hIso
      · cases hCall

/-- `cd dest`, down. The node of a file is too much. -/
theorem down_keepsHeap {dir dir' : Nat} {dest : CString} {reply : CdReply}
    (hDir : ¬ FreeCell l.machine.heap dir) (hDest : dest ≠ CString.dotDot)
    (h : (ledger env.toEnv fuel).shellCd env fuel dir l dest = .done (reply, dir', l')) :
    KeepsHeap dir dir' l.live l'.live (.cd dest) ↔
      (Found env.toEnv fuel l.machine dir dest →
        FindsDirectory env.toEnv fuel l.machine dir dest) := by
  unfold Services.shellCd at h
  rw [if_neg hDest] at h
  obtain ⟨⟨node, l₁⟩, hFind, hEnd⟩ := Outcome.map_eq_done.mp h
  have hModel := finddirFs_model hFind
  have hDirectory : FindsDirectory env.toEnv fuel l.machine dir dest ↔
      node ≠ 0 ∧ l₁.machine.mem.load32 (node + 268) &&& 7 = fsDirectory := by
    constructor
    · rintro ⟨node', s', hFind', hNode⟩
      obtain ⟨rfl, rfl⟩ := Prod.mk.inj (Outcome.done.inj (hModel.symm.trans hFind'))
      exact hNode
    · exact fun hNode => ⟨node, l₁.machine, hModel, hNode⟩
  simp only at hEnd
  rw [hDirectory]
  rcases finddirFs_live hFind with ⟨hFound, hLive⟩ | ⟨hFound, hFree, hLive⟩
  · -- nothing was allocated
    refine iff_of_true (Or.inl (Or.inl ?_)) fun hc => absurd hc hFound
    split at hEnd
    · obtain ⟨-, -, rfl⟩ : _ ∧ _ ∧ l₁ = l' := by simpa using hEnd
      exact hLive
    · split at hEnd
      · obtain ⟨-, -, rfl⟩ : _ ∧ _ ∧ l₁ = l' := by simpa using hEnd
        exact hLive
      · obtain ⟨-, -, rfl⟩ : _ ∧ _ ∧ l₁ = l' := by simpa using hEnd
        exact hLive
  · -- a node was, and only a directory is entered
    have hNe : node ≠ dir := fun hc => hDir (hc ▸ hFree)
    have hLeak : ¬ KeepsHeap dir dir l.live l₁.live (.cd dest) := by
      intro hKeeps
      have hCount := count_le_of_keepsHeap hKeeps hNe
      rw [hLive, Multiset.count_cons_self, if_neg fun hc => hNe hc.2] at hCount
      omega
    split at hEnd
    · next hNull =>
      obtain ⟨-, rfl, rfl⟩ : _ ∧ dir = dir' ∧ l₁ = l' := by simpa using hEnd
      exact iff_of_false hLeak fun hc => (hc hFound).1 hNull
    · next hNode =>
      split at hEnd
      · next hFile =>
        obtain ⟨-, rfl, rfl⟩ : _ ∧ dir = dir' ∧ l₁ = l' := by simpa using hEnd
        exact iff_of_false hLeak fun hc => hFile (hc hFound).2
      · next hFlags =>
        obtain ⟨-, rfl, rfl⟩ : _ ∧ node = dir' ∧ l₁ = l' := by simpa using hEnd
        exact iff_of_true (Or.inr ⟨hNode, Or.inl hLive⟩) fun _ => ⟨hNode, not_not.mp hFlags⟩

end Ledger

/-- A command line that returns does so over the ledger, too. -/
theorem ledger_shellRuncmd {World : Type}
    {processCommand : ProcessCommand → World → Outcome (List UInt8 × World)} {env : ShellEnv}
    {fuel len : Nat} {buffer : Mem} {sh sh' : Shell} {world world' : World} {text : List UInt8}
    (live : Multiset Nat)
    (hRun : shellRuncmd processCommand env fuel buffer len sh world = .done (text, sh', world')) :
    ∃ live', (ledger env.toEnv fuel).shellRuncmd env fuel processCommand buffer len sh.currentDir
      ⟨sh.machine, live⟩ world =
        .done (text, (sh'.currentDir, ⟨sh'.machine, live'⟩), world') := by
  have hMap := Services.shellRuncmd_map processCommand (ledger_matches env.toEnv fuel) buffer len
    sh.currentDir ⟨sh.machine, live⟩ world
  rw [show Shell.mk sh.currentDir sh.machine = sh from rfl, hRun] at hMap
  obtain ⟨⟨text', ⟨dir', ⟨s', live'⟩⟩, world''⟩, hLedger, hEq⟩ :=
    Outcome.map_eq_done.mp hMap
  obtain ⟨rfl, rfl, rfl⟩ : text' = text ∧ Services.toShell (dir', s') = sh' ∧
    world'' = world' := by
    simpa using hEq
  exact ⟨live', hLedger⟩

/-- **No leaks, by the lookup.** For every volume, every shell whose current directory is
no free memory, and every command line that returns. -/
theorem keepsHeap_iff_harmless {World : Type}
    (processCommand : ProcessCommand → World → Outcome (List UInt8 × World)) (env : ShellEnv)
    (fuel : Nat) (buffer : Mem) (len : Nat) (sh : Shell) (live : Multiset Nat) (world : World)
    (hDir : ¬ FreeCell sh.machine.heap sh.currentDir) (c : Command)
    (hCommand : shellCommand fuel buffer len = .done c) (text : List UInt8) (sh' : Shell)
    (world' : World)
    (hRun : shellRuncmd processCommand env fuel buffer len sh world = .done (text, sh', world')) :
    ∃ live', (ledger env.toEnv fuel).shellRuncmd env fuel processCommand buffer len sh.currentDir
        ⟨sh.machine, live⟩ world =
          .done (text, (sh'.currentDir, ⟨sh'.machine, live'⟩), world') ∧
      (KeepsHeap sh.currentDir sh'.currentDir live live' c ↔ Harmless env fuel sh c) := by
  obtain ⟨live', hLedger⟩ := ledger_shellRuncmd live hRun
  obtain ⟨dir', s'⟩ := sh'
  refine ⟨live', hLedger, ?_⟩
  unfold Services.shellRuncmd at hLedger
  rw [hCommand, Outcome.bind_done] at hLedger
  cases c with
  | ls =>
    obtain ⟨⟨_, _⟩, hLs, hEq⟩ := Outcome.map_eq_done.mp hLedger
    obtain ⟨⟨_, l₁⟩, hLoop, hEq'⟩ := Outcome.map_eq_done.mp hLs
    simp only [Prod.mk.injEq] at hEq hEq'
    obtain ⟨-, rfl, -⟩ := hEq
    obtain ⟨-, -, rfl⟩ := hEq'
    exact iff_of_true (Ledger.lsLoop_live hLoop) trivial
  | cat dest =>
    obtain ⟨⟨_, _⟩, hCat, hEq⟩ := Outcome.map_eq_done.mp hLedger
    simp only [Prod.mk.injEq] at hEq
    obtain ⟨-, rfl, -⟩ := hEq
    exact Ledger.cat_live hCat
  | filesize dest =>
    obtain ⟨⟨_, _⟩, hSize, hEq⟩ := Outcome.map_eq_done.mp hLedger
    simp only [Prod.mk.injEq] at hEq
    obtain ⟨-, rfl, -⟩ := hEq
    exact Ledger.filesize_live hSize
  | cd dest =>
    obtain ⟨⟨_, _⟩, hCd, hEq⟩ := Outcome.map_eq_done.mp hLedger
    simp only [Prod.mk.injEq] at hEq
    obtain ⟨-, rfl, -⟩ := hEq
    by_cases hDest : dest = CString.dotDot
    · subst hDest
      rw [Harmless, if_pos rfl]
      exact Ledger.up_keepsHeap hDir hCd
    · rw [Harmless, if_neg hDest]
      exact Ledger.down_keepsHeap hDir hDest hCd
  | _ =>
    obtain ⟨⟨_, _, _⟩, -, hEq⟩ := Outcome.map_eq_done.mp hLedger
    simp only [Prod.mk.injEq, Ledger.mk.injEq] at hEq
    exact iff_of_true hEq.2.1.2.2.symm trivial

/-- **No leaks.** For every volume, every shell whose current directory is no free
memory, and every command line that returns: the ledger says what the command has done
to the live allocations, and that is what it may do exactly when its lookup comes to
nothing it leaves behind. In a well-formed directory that is a matter of the records. -/
theorem commands_keep_heap_iff {World : Type}
    (processCommand : ProcessCommand → World → Outcome (List UInt8 × World)) (env : ShellEnv)
    (fuel : Nat) (buffer : Mem) (len : Nat) (sh : Shell) (live : Multiset Nat) (world : World)
    (hDir : ¬ FreeCell sh.machine.heap sh.currentDir) (c : Command)
    (hCommand : shellCommand fuel buffer len = .done c) (text : List UInt8) (sh' : Shell)
    (world' : World)
    (hRun : shellRuncmd processCommand env fuel buffer len sh world = .done (text, sh', world')) :
    ∃ live', (ledger env.toEnv fuel).shellRuncmd env fuel processCommand buffer len sh.currentDir
        ⟨sh.machine, live⟩ world =
          .done (text, (sh'.currentDir, ⟨sh'.machine, live'⟩), world') ∧
      (KeepsHeap sh.currentDir sh'.currentDir live live' c ↔ Harmless env fuel sh c) ∧
      ∀ rest, InDirectory env.toEnv sh rest → 256 ≤ fuel →
        (KeepsHeap sh.currentDir sh'.currentDir live live' c ↔ HarmlessAmong env sh rest c) := by
  obtain ⟨live', hLedger, hKeeps⟩ :=
    keepsHeap_iff_harmless processCommand env fuel buffer len sh
    live world hDir c hCommand text sh' world' hRun
  refine ⟨live', hLedger, hKeeps, fun rest hIn hFuel => hKeeps.trans ?_⟩
  rw [shellRuncmd, hCommand, Outcome.bind_done] at hRun
  exact harmless_iff_records hIn hFuel hRun

/-- The line in the buffer. -/
def lineBuffer (line : String) : Mem := fun i => (ascii line).getD i 0

/-- The mount node of a freshly mounted disk as a directory of the volume. -/
theorem sampleShell_inDirectory {disk : Nat → Mem} {sh : Shell} {dot dotDot : DirRecord}
    {rest : List DirRecord} (h : sampleShell disk = some sh)
    (hSec : IsDirectory (disk ((disk ((disk 16).load32 140)).load32 2)) dot dotDot rest) :
    InDirectory (sampleEnv disk) ⟨0x3000, sh.machine⟩ rest := by
  obtain ⟨fsInfo, live, hInv, -, hAt⟩ := sampleShell_dirAt h
  obtain ⟨_, _, -, -, -, -, hMounted⟩ := sampleShell_mounted h
  have hView := hMounted.cdrom
  unfold viewNode cdromView at hView
  simp only [NodeView.mk.injEq] at hView
  obtain ⟨hFlags, -, -, hFinddir, -⟩ := hView
  refine ⟨⟨?_, hFinddir⟩, live, fsInfo, _, _, dot, dotDot, hInv, hAt, hSec⟩
  rw [show sh.machine.mem.load32 (0x3000 + 268) = fsDirectory from hFlags]
  decide

/-- In the root directory of the volume, whose one file is `A`, `filesize B` leaks
nothing. -/
theorem missing_file_keeps_heap :
    ∃ sh text s', sampleShell catDisk = some sh ∧
      InDirectory (sampleEnv catDisk) ⟨0x3000, sh.machine⟩ [⟨34, 21, 2050, 0, [0x41]⟩] ∧
      (ledger (sampleEnv catDisk) 600).shellRuncmd (sampleShellEnv catDisk) 600 idleProcesses
        (lineBuffer "filesize B") 10 0x3000 ⟨sh.machine, 0⟩ () =
          .done (text, (0x3000, ⟨s', 0⟩), ()) := by
  have hCommand : (shellCommand 600 (lineBuffer "filesize B") 10).toOption =
      some (.filesize ⟨[0x42], by decide⟩) := by decide +kernel
  have hEval : (sampleShell catDisk).map (fun sh => (decide (FreeCell sh.machine.heap 0x3000),
      (shellRuncmd idleProcesses (sampleShellEnv catDisk) 600 (lineBuffer "filesize B") 10
        ⟨0x3000, sh.machine⟩ ()).toOption.map fun (_, sh, _) => sh.currentDir)) =
      some (false, some 0x3000) := by decide +kernel
  obtain ⟨sh, hShell, hEval⟩ := Option.map_eq_some_iff.mp hEval
  obtain ⟨hFree, hRun⟩ := Prod.mk.inj hEval
  obtain ⟨⟨text, ⟨dir, s'⟩, _⟩, hRun, rfl⟩ := Option.map_eq_some_iff.mp hRun
  have hRoot : (catDisk ((catDisk 16).load32 140)).load32 2 = 20 := by decide +kernel
  have hSec : IsDirectory (catDisk ((catDisk ((catDisk 16).load32 140)).load32 2))
      ⟨34, 20, 2048, 2, [0]⟩ ⟨34, 20, 2048, 2, [1]⟩ [⟨34, 21, 2050, 0, [0x41]⟩] := by
    rw [hRoot]
    exact ⟨by decide +kernel, rfl, rfl, by decide⟩
  have hIn := sampleShell_inDirectory hShell hSec
  obtain ⟨live', hLedger, -, hKeeps⟩ :=
    commands_keep_heap_iff idleProcesses (sampleShellEnv catDisk)
    600 (lineBuffer "filesize B") 10 ⟨0x3000, sh.machine⟩ 0 () (of_decide_eq_false hFree) _
    (Outcome.toOption_eq_some.mp hCommand) text _ _ (Outcome.toOption_eq_some.mp hRun)
  obtain rfl : live' = 0 := (hKeeps _ hIn (by omega)).mpr (Or.inl (by decide))
  exact ⟨sh, text, s', hShell, hIn, hLedger⟩

/-- `filesize A` prints the length of the file and leaves its node on the heap. -/
theorem filesize_leaks_node :
    ∃ sh s' live', sampleShell catDisk = some sh ∧
      (ledger (sampleEnv catDisk) 600).shellRuncmd (sampleShellEnv catDisk) 600 idleProcesses
        (lineBuffer "filesize A") 10 0x3000 ⟨sh.machine, 0⟩ () =
          .done (ascii "2050\n", (0x3000, ⟨s', live'⟩), ()) ∧ live' ≠ 0 := by
  have hEval : (sampleShell catDisk).map (fun sh =>
      ((ledger (sampleEnv catDisk) 600).shellRuncmd (sampleShellEnv catDisk) 600 idleProcesses
        (lineBuffer "filesize A") 10 0x3000 ⟨sh.machine, 0⟩ ()).toOption.map
          fun (text, (dir, l), _) => (text, dir, l.live.card)) =
      some (some (ascii "2050\n", 0x3000, 1)) := by decide +kernel
  obtain ⟨sh, hShell, hEval⟩ := Option.map_eq_some_iff.mp hEval
  obtain ⟨⟨text, ⟨dir, ⟨s', live'⟩⟩, _⟩, hRun, hEval⟩ :=
    Option.map_eq_some_iff.mp hEval
  simp only [Prod.mk.injEq] at hEval
  obtain ⟨rfl, rfl, hCard⟩ := hEval
  refine ⟨sh, s', live', hShell, Outcome.toOption_eq_some.mp hRun, ?_⟩
  intro hc
  rw [hc] at hCard
  cases hCard

end Hexos
