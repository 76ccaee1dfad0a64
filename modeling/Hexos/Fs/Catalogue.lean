import Hexos.Fs.Read
import Hexos.Fs.Recreate
import Hexos.Lib.Storage

/-!
# HexOS — the directories of a volume as a tree

A volume says twice which directory is below which: by the records of the
directories, which `finddir` goes by, and by the path table, which `recreate` goes
by. Where the two agree, the volume hangs as a tree below the two directories of the
virtual file system.

## Results

* `Volume.parentLba_of_ancestry` — the directory above, in terms of the path table.
* `Catalogue.tree` — the tree that the shell shows.
-/

namespace Hexos

open Mem

-- ---------------------------------------------------------------------------
-- The directory above
-- ---------------------------------------------------------------------------

namespace Volume

variable {env : Env} {dev : Nat} {v : Volume env dev} {i : Nat} {d : PathEntry}
  {ds : List PathEntry}

/-- The sector of the directory above the one at `lba`, by the path table; there is none
above the root directory of the volume. -/
def parentLba (v : Volume env dev) (lba : Nat) : Option Nat :=
  (v.entries.findIdx? fun e => e.lba = lba).bind fun i =>
    if i = 0 then none
    else (v.entries[i]?.bind fun e => v.entries[e.parentNum - 1]?).map PathEntry.lba

/-- Every directory has one entry. -/
theorem findIdx_entry (hd : v.entries[i]? = some d) :
    v.entries.findIdx? (fun e => e.lba = d.lba) = some i := by
  obtain ⟨hi, hGet⟩ := List.getElem?_eq_some_iff.mp hd
  refine List.findIdx?_eq_some_iff_getElem.mpr ⟨hi, by simp [hGet], ?_⟩
  intro j hj
  have hLbas : v.entries.Pairwise fun a b => a.lba ≠ b.lba := List.pairwise_map.mp v.lbas
  have hNe := List.pairwise_iff_getElem.mp hLbas j i (hj.trans hi) hi hj
  simpa [hGet] using hNe

/-- The directory above is the next ancestor. -/
theorem parentLba_of_ancestry (h : v.Ancestry i (d :: ds)) :
    v.parentLba d.lba = ds.head?.map PathEntry.lba := by
  unfold parentLba
  cases h with
  | root hd =>
    rw [findIdx_entry hd]
    rfl
  | child hi hd hRest =>
    obtain ⟨p, ds', rfl⟩ := hRest.exists_cons
    rw [findIdx_entry hd, Option.bind_some, if_neg hi, hd, Option.bind_some, hRest.head]
    rfl

/-- There is none above the root directory. -/
theorem parentLba_root (v : Volume env dev) : v.parentLba v.rootLba = none := by
  obtain ⟨d, hd, hLba⟩ := v.root_entry
  rw [← hLba]
  exact parentLba_of_ancestry (.root hd)

/-- A directory with one above it has an entry. -/
theorem entry_of_parentLba {lba q : Nat} (h : v.parentLba lba = some q) :
    ∃ e ∈ v.entries, e.lba = lba := by
  obtain ⟨i, hFind, -⟩ := Option.bind_eq_some_iff.mp h
  obtain ⟨hi, hLba, -⟩ := List.findIdx?_eq_some_iff_getElem.mp hFind
  exact ⟨_, List.getElem_mem hi, by simpa using hLba⟩

/-- So has the one above. -/
theorem entry_above {lba q : Nat} (h : v.parentLba lba = some q) :
    ∃ e ∈ v.entries, e.lba = q := by
  obtain ⟨i, -, h⟩ := Option.bind_eq_some_iff.mp h
  split at h
  · cases h
  · obtain ⟨p, hBind, hLba⟩ := Option.map_eq_some_iff.mp h
    obtain ⟨e, -, hp⟩ := Option.bind_eq_some_iff.mp hBind
    exact ⟨p, List.mem_of_getElem? hp, hLba⟩

end Volume

-- ---------------------------------------------------------------------------
-- The tree
-- ---------------------------------------------------------------------------

/-- A volume with the records of its directories, each in one sector and behind the
system area. A directory that is shown in another one is an entry of the path table
with that one as its parent. -/
structure Catalogue (env : Env) (dev : Nat) extends Volume env dev where
  records     : Nat → List DirRecord
  directories : ∀ e ∈ entries, ∃ dot dotDot,
    IsDirectory (env.devices dev e.lba) dot dotDot (records e.lba)
  system      : ∀ e ∈ entries, iso9660Offset ≤ e.lba
  children    : ∀ lba, ∀ r ∈ visible (records lba), r.flags &&& 2 ≠ 0 →
    toVolume.parentLba r.lba = some lba

/-- A place where the shell may be: the two directories of the virtual file system, and
those of the volume. -/
inductive Place
  | root
  | mnt
  | dir (lba : Nat)
deriving DecidableEq

namespace Catalogue

variable {env : Env} {dev : Nat} (cat : Catalogue env dev)

/-- The bytes of the file of a record, as the device returns them. -/
def content (_ : Catalogue env dev) (r : DirRecord) : List UInt8 :=
  (List.range r.fileLength).map fun k => env.devices dev ((r.lba + k / 2048) % 2 ^ 32) (k % 2048)

@[simp] theorem length_content (r : DirRecord) : (cat.content r).length = r.fileLength := by
  simp [content]

theorem isFile_content (r : DirRecord) : IsFile env dev r.lba (cat.content r) := by
  intro k hk
  simp [content]

/-- What a record stands for. -/
def entryOf (r : DirRecord) : FileTree.Entry Place UInt8 :=
  if r.flags &&& 2 ≠ 0 then .dir (.dir r.lba) else .file (cat.content r)

/-- The names in a directory. -/
def listing : Place → List (List UInt8)
  | .root => [CString.mnt.bytes]
  | .mnt => [CString.cdrom0.bytes]
  | .dir lba => (visible (cat.records lba)).map DirRecord.ident

/-- What a name stands for in a directory. -/
def find : Place → List UInt8 → Option (FileTree.Entry Place UInt8)
  | .root, name => if name = CString.mnt.bytes then some (.dir .mnt) else none
  | .mnt, name => if name = CString.cdrom0.bytes then some (.dir (.dir cat.rootLba)) else none
  | .dir lba, name => (firstRecord name (cat.records lba)).map cat.entryOf

/-- The directory above: the root directory of the volume hangs below `mnt`. -/
def above : Place → Option Place
  | .root => none
  | .mnt => some .root
  | .dir lba => some ((cat.parentLba lba).elim .mnt .dir)

theorem firstRecord_mem {name : List UInt8} {rs : List DirRecord} {r : DirRecord}
    (h : firstRecord name rs = some r) : r ∈ visible rs := List.mem_of_find?_eq_some h

/-- The records and the path table agree. -/
theorem above_of_find {d e : Place} {name : List UInt8} (h : cat.find d name = some (.dir e)) :
    cat.above e = some d := by
  cases d with
  | root =>
    rw [find] at h
    split at h
    · cases h
      rfl
    · cases h
  | mnt =>
    rw [find] at h
    split at h
    · cases h
      show some ((cat.parentLba cat.rootLba).elim Place.mnt Place.dir) = _
      rw [cat.parentLba_root]
      rfl
    · cases h
  | dir lba =>
    obtain ⟨r, hFirst, hEntry⟩ := Option.map_eq_some_iff.mp h
    unfold entryOf at hEntry
    split at hEntry
    · next hDir =>
      cases hEntry
      show some ((cat.parentLba r.lba).elim Place.mnt Place.dir) = _
      rw [cat.children lba r (firstRecord_mem hFirst) hDir]
      rfl
    · cases hEntry

/-- **The tree.** -/
def tree : FileTree Place (List UInt8) UInt8 where
  root := .root
  above := cat.above
  listing := cat.listing
  find := cat.find
  back := cat.above_of_find

end Catalogue

end Hexos
