import Hexos.Heap.Definitions
import Hexos.Libc.Definitions

/-!
# HexOS — the file systems and the shell's `cd` and `cat`

`kernel/kernel/vfs.c`, `kernel/kernel/fs/iso9660.c` and the `cd` and `cat`
commands of `kernel/kernel/shell.c`. Nodes, sector buffers and the `iso9660_fs` record are
bytes of the memory, at the addresses the code uses. The headers and bitmaps
of the heap are apart from them, in `Machine.heap`: what clients hold never
overlaps a header or a bitmap.

The words of an `fs_node_t` (332 bytes):

| field | at | field   | at  | field     | at  |
|-------|----|---------|-----|-----------|-----|
| name  | 0  | length  | 276 | readdir   | 300 |
| mask  | 256| impl    | 280 | finddir   | 304 |
| uid   | 260| read    | 284 | recreate  | 308 |
| gid   | 264| write   | 288 | free_node | 312 |
| flags | 268| open    | 292 | parent    | 316 |
| inode | 272| close   | 296 | ptr       | 328 |

A directory record has its length at 0, the lba at 2, the file length at 10,
the flags at 25, the identifier length at 32 and the identifier from 33 on. A
path table entry has its identifier length at 0, the lba at 2 and the parent
number at 6.
-/

namespace Hexos

/-- A C string: bytes without a zero. -/
structure CString where
  bytes   : List UInt8
  nonzero : 0 ∉ bytes
deriving DecidableEq

/-- `"mnt"`. -/
def CString.mnt : CString := ⟨[0x6D, 0x6E, 0x74], by decide⟩

/-- `"cdrom0"`. -/
def CString.cdrom0 : CString := ⟨[0x63, 0x64, 0x72, 0x6F, 0x6D, 0x30], by decide⟩

/-- `".."`. -/
def CString.dotDot : CString := ⟨[0x2E, 0x2E], by decide⟩

/-- `"error"`. -/
def CString.error : CString := ⟨[0x65, 0x72, 0x72, 0x6F, 0x72], by decide⟩

/-- `fs_node_mini_t`. -/
structure FsNodeMini where
  inode    : Nat
  impl     : Nat
  recreate : Nat
deriving DecidableEq

/-- The addresses the linker chose for the globals and functions, and the
sectors each block device returns. The three global nodes do not overlap, and
the functions a pointer may hold are told apart. -/
structure Env where
  fsRoot          : Nat
  fsMnt           : Nat
  fsCdromMnt      : Nat
  iso9660Resp     : Nat
  rootReaddir     : Nat
  rootFinddir     : Nat
  rootRecreate    : Nat
  rootFreeNode    : Nat
  iso9660Read     : Nat
  iso9660Write    : Nat
  iso9660Open     : Nat
  iso9660Close    : Nat
  iso9660Readdir  : Nat
  iso9660Finddir  : Nat
  iso9660Recreate : Nat
  iso9660FreeNode : Nat
  devices         : Nat → Nat → Mem
  globals_ne_null : fsRoot ≠ 0 ∧ fsMnt ≠ 0 ∧ fsCdromMnt ≠ 0 ∧ iso9660Resp ≠ 0
  nodes_apart     : (fsRoot + 332 ≤ fsMnt ∨ fsMnt + 332 ≤ fsRoot) ∧
    (fsRoot + 332 ≤ fsCdromMnt ∨ fsCdromMnt + 332 ≤ fsRoot) ∧
    (fsMnt + 332 ≤ fsCdromMnt ∨ fsCdromMnt + 332 ≤ fsMnt)
  words           : ∀ f ∈ [rootFinddir, rootRecreate, rootFreeNode, iso9660Finddir,
    iso9660Recreate, iso9660FreeNode], f ≠ 0 ∧ f < 2 ^ 32
  functions_ne    : rootFinddir ≠ iso9660Finddir ∧ rootRecreate ≠ iso9660Recreate ∧
    rootFreeNode ≠ iso9660FreeNode

/-- The heap's own data and the rest of the memory. -/
structure Machine where
  heap : KernelHeap
  mem  : Mem

/-- `FS_FILE`. -/
def fsFile : Nat := 1

/-- `FS_DIRECTORY`. -/
def fsDirectory : Nat := 2

/-- `sizeof(fs_node_t)`. -/
def sizeofFsNode : Nat := 332

/-- `sizeof(iso9660_fs)`. -/
def sizeofIso9660Fs : Nat := 16

/-- `ISO9660_OFFSET`. -/
def iso9660Offset : Nat := 0x10

-- ---------------------------------------------------------------------------
-- Memory
-- ---------------------------------------------------------------------------

/-- The `fs_node_mini_t` at `a`. -/
def loadMini (m : Mem) (a : Nat) : FsNodeMini :=
  ⟨m.load32 a, m.load32 (a + 4), m.load32 (a + 8)⟩

/-- Write an `fs_node_mini_t`. -/
def storeMini (m : Mem) (a : Nat) (mini : FsNodeMini) : Mem :=
  ((m.store32 a mini.inode).store32 (a + 4) mini.impl).store32 (a + 8) mini.recreate

/-- `strcpy` of a string constant. -/
def storeString (m : Mem) (d : Nat) : List UInt8 → Mem
  | [] => m.store8 d 0
  | c :: cs => storeString (m.store8 d c) (d + 1) cs

/-- `strcpy`, for strings of fewer than `fuel` bytes. -/
def strcpy : Nat → Mem → Nat → Nat → Outcome Mem
  | 0, _, _, _ => .running
  | fuel + 1, m, d, s =>
    if m s ≠ 0 then strcpy fuel (m.store8 d (m s)) (d + 1) (s + 1) else .done (m.store8 d 0)

/-- `memcpy`: the `n` bytes from `i` on, one after another. -/
def memcpy (m : Mem) (dst src : Nat) : Nat → Nat → Mem
  | 0, _ => m
  | n + 1, i => memcpy (m.store8 (dst + i) (m (src + i))) dst src n (i + 1)

/-- `!strcmp(s, name)`. -/
def strEq (m : Mem) (s : Nat) : List UInt8 → Bool
  | [] => m s == 0
  | c :: cs => if m s ≠ 0 ∧ m s = c then strEq m (s + 1) cs else m s == c

namespace Machine

/-- `kalloc(&main_heap, size)`. -/
def kalloc (fuel : Nat) (s : Machine) (size : Nat) : Outcome (Nat × Machine) :=
  (Hexos.kalloc fuel s.heap size).map fun (ptr, heap) => (ptr, { s with heap := heap })

/-- `kfree(&main_heap, ptr)`. -/
def kfree (s : Machine) (ptr : Nat) : Outcome Machine :=
  (Hexos.kfree s.heap ptr).map fun heap => { s with heap := heap }

/-- `dev->read_block(dev, buffer, 1, lba)`. -/
def readBlock (env : Env) (s : Machine) (dev buffer lba : Nat) : Machine :=
  { s with mem := s.mem.copyIn buffer 2048 (env.devices dev lba) }

end Machine

-- ---------------------------------------------------------------------------
-- Nodes of an ISO9660 volume
-- ---------------------------------------------------------------------------

/-- The stores of `iso9660_entry_to_node_mini` up to `response->length`, after
the name: each reads the directory record as the stores before left it. -/
def storeAttributes (m : Mem) (response dirEntry : Nat) : Mem :=
  let m :=
    m.store32 (response + 268) (if m (dirEntry + 25) &&& 2 ≠ 0 then fsDirectory else fsFile)
  let m := m.store32 (response + 256) 0
  let m := m.store32 (response + 260) 0
  let m := m.store32 (response + 264) 0
  m.store32 (response + 276) (m.load32 (dirEntry + 10))

/-- The stores of `iso9660_entry_to_node_mini` from `response->impl` on. -/
def storeLinks (env : Env) (m : Mem) (response fsInfo : Nat) (parent : FsNodeMini) : Mem :=
  let m := m.store32 (response + 280) fsInfo
  let m := m.store32 (response + 308) env.iso9660Recreate
  let m := storeMini m (response + 316) parent
  let m := m.store32 (response + 284) env.iso9660Read
  let m := m.store32 (response + 288) env.iso9660Write
  let m := m.store32 (response + 292) env.iso9660Open
  let m := m.store32 (response + 296) env.iso9660Close
  let m := m.store32 (response + 300) env.iso9660Readdir
  let m := m.store32 (response + 304) env.iso9660Finddir
  let m := m.store32 (response + 308) env.iso9660Recreate
  m.store32 (response + 312) env.iso9660FreeNode

/-- The stores of `iso9660_entry_to_node_mini` to the name. The test of the
identifier length is always true for a byte. -/
def storeName (fuel : Nat) (m : Mem) (response dirEntry : Nat) : Outcome Mem :=
  if (m (dirEntry + 32)).toNat ≤ 255 then
    (strcpy fuel m response (dirEntry + 33)).map fun m =>
      m.store8 (response + (m (dirEntry + 32)).toNat) 0
  else .done ((storeString m response CString.error.bytes).store8 (response + 6) 0)

/-- `iso9660_entry_to_node_mini`. -/
def iso9660EntryToNodeMini (env : Env) (fuel : Nat) (s : Machine) (dirEntry fsInfo : Nat)
    (parent : FsNodeMini) : Outcome (Nat × Machine) :=
  (s.kalloc fuel sizeofFsNode).bind fun (response, s) =>
  (storeName fuel s.mem response dirEntry).map fun m =>
    let m := storeAttributes m response dirEntry
    let m := m.store32 (response + 272) (m.load32 (dirEntry + 2))
    (response, { s with mem := storeLinks env m response fsInfo parent })

/-- `iso9660_entry_to_node`. -/
def iso9660EntryToNode (env : Env) (fuel : Nat) (s : Machine) (dirEntry fsInfo parent : Nat) :
    Outcome (Nat × Machine) :=
  let miniVersion : FsNodeMini :=
    ⟨s.mem.load32 (parent + 272), s.mem.load32 (parent + 280), s.mem.load32 (parent + 308)⟩
  iso9660EntryToNodeMini env fuel s dirEntry fsInfo miniVersion

-- ---------------------------------------------------------------------------
-- Directories
-- ---------------------------------------------------------------------------

/-- The walk of `iso9660_readdir`: the record with the number `i`. -/
def readdirLoop (m : Mem) (i : Nat) : Nat → Nat → Bool → Nat → Outcome (Option Nat)
  | 0, _, _, _ => .running
  | fuel + 1, dirEntry, skipFirst, count =>
    let next := dirEntry + (m dirEntry).toNat
    if m dirEntry = 0 then .done none
    else if skipFirst = false ∧ m (dirEntry + 33) ≠ 1 then
      if count = i then .done (some dirEntry) else readdirLoop m i fuel next false (count + 1)
    else readdirLoop m i fuel next false count

/-- `iso9660_readdir`: the address of the global `iso9660_resp`, or 0. -/
def iso9660Readdir (env : Env) (fuel : Nat) (s : Machine) (this i : Nat) :
    Outcome (Nat × Machine) :=
  (s.kalloc fuel 2048).bind fun (buffer, s) =>
  let fsInfo := s.mem.load32 (this + 280)
  let s := s.readBlock env (s.mem.load32 fsInfo) buffer (s.mem.load32 (this + 272))
  (readdirLoop s.mem i fuel buffer true 0).bind fun
  | none => (s.kfree buffer).map fun s => (0, s)
  | some dirEntry =>
    let len := (s.mem (dirEntry + 32)).toNat
    let dName := env.iso9660Resp + 4
    (if len ≤ 255 then strcpy fuel (s.mem.store8 (dirEntry + 33 + len) 0) dName (dirEntry + 33)
      else .done ((storeString s.mem dName CString.error.bytes).store8 (dName + 6) 0)).bind fun m =>
    let m := m.store32 env.iso9660Resp 0
    (Machine.kfree { s with mem := m } buffer).map fun s => (env.iso9660Resp, s)

/-- The walk of `iso9660_finddir`: the record with the given name. On the way a
NUL is written behind every identifier it looks at. -/
def finddirLoop (name : CString) : Nat → Mem → Nat → Bool → Outcome (Option Nat × Mem)
  | 0, _, _, _ => .running
  | fuel + 1, m, dirEntry, skipFirst =>
    if m dirEntry = 0 then .done (none, m)
    else if skipFirst = false ∧ m (dirEntry + 33) ≠ 1 then
      let len := (m (dirEntry + 32)).toNat
      if len ≤ 255 then
        let m := m.store8 (dirEntry + 33 + len) 0
        if strEq m (dirEntry + 33) name.bytes then .done (some dirEntry, m)
        else finddirLoop name fuel m (dirEntry + (m dirEntry).toNat) false
      else .done (none, m)
    else finddirLoop name fuel m (dirEntry + (m dirEntry).toNat) false

/-- `iso9660_finddir`. -/
def iso9660Finddir (env : Env) (fuel : Nat) (s : Machine) (currentDir : Nat) (name : CString) :
    Outcome (Nat × Machine) :=
  (s.kalloc fuel 2048).bind fun (buffer, s) =>
  let fsInfo := s.mem.load32 (currentDir + 280)
  let s := s.readBlock env (s.mem.load32 fsInfo) buffer (s.mem.load32 (currentDir + 272))
  (finddirLoop name fuel s.mem buffer true).bind fun
  | (none, m) => (Machine.kfree { s with mem := m } buffer).map fun s => (0, s)
  | (some dirEntry, m) =>
    (iso9660EntryToNode env fuel { s with mem := m } dirEntry fsInfo currentDir).bind
      fun (response, s) => (s.kfree buffer).map fun s => (response, s)

-- ---------------------------------------------------------------------------
-- The path table
-- ---------------------------------------------------------------------------

/-- The length of the path table entry at `p`. -/
def pathEntryLen (m : Mem) (p : Nat) : Nat :=
  8 + (m p).toNat + (if (m p).toNat % 2 = 1 then 1 else 0)

/-- The first loop of `iso9660_recreate`: the entry with the given lba, and
whether it is the first. -/
def findPathEntry (m : Mem) (inode : Nat) : Nat → Nat → Bool → Outcome (Option (Nat × Bool))
  | 0, _, _ => .running
  | fuel + 1, p, isFirstEntry =>
    if m.load32 (p + 2) = inode then .done (some (p, isFirstEntry))
    else if m p = 0 then .done none
    else findPathEntry m inode fuel (p + pathEntryLen m p) false

/-- The second loop of `iso9660_recreate`: `n` entries further. -/
def skipPathEntries (m : Mem) : Nat → Nat → Option Nat
  | 0, p => some p
  | n + 1, p => if m p = 0 then none else skipPathEntries m n (p + pathEntryLen m p)

/-- The parent of the directory whose entry was found at `pathEntry`. -/
def pathParent (env : Env) (m : Mem) (fsInfo tableBuffer pathEntry : Nat) (isFirstEntry : Bool) :
    Option FsNodeMini :=
  if isFirstEntry then some (loadMini m (fsInfo + 4))
  else
    (skipPathEntries m (m.load16 (pathEntry + 6) - 1) tableBuffer).map fun p =>
      ⟨m.load32 (p + 2), fsInfo, env.iso9660Recreate⟩

/-- The exits of `iso9660_recreate` that find no directory. -/
def freeBuffers (s : Machine) (tableBuffer entryBuffer : Nat) : Outcome Machine :=
  (s.kfree tableBuffer).bind fun s => s.kfree entryBuffer

/-- `iso9660_recreate`. The node at `mini` is live and none of the buffers of the
call, so it is passed by value. The first allocation is never used and never
freed, and the directory record is read after its buffer has been freed. -/
def iso9660Recreate (env : Env) (fuel : Nat) (s : Machine) (mini : FsNodeMini) :
    Outcome (Nat × Machine) :=
  (s.kalloc fuel sizeofFsNode).bind fun (_, s) =>
  let fsInfo := mini.impl
  (s.kalloc fuel 2048).bind fun (entryBuffer, s) =>
  let s := s.readBlock env (s.mem.load32 fsInfo) entryBuffer mini.inode
  (s.kalloc fuel 2048).bind fun (tableBuffer, s) =>
  let s := s.readBlock env (s.mem.load32 fsInfo) tableBuffer iso9660Offset
  let s := s.readBlock env (s.mem.load32 fsInfo) tableBuffer (s.mem.load32 (tableBuffer + 140))
  (findPathEntry s.mem mini.inode fuel tableBuffer true).bind fun
  | none => (freeBuffers s tableBuffer entryBuffer).map fun s => (0, s)
  | some (pathEntry, isFirstEntry) =>
    match pathParent env s.mem fsInfo tableBuffer pathEntry isFirstEntry with
    | none => (freeBuffers s tableBuffer entryBuffer).map fun s => (0, s)
    | some parentMini =>
      (freeBuffers s tableBuffer entryBuffer).bind fun s =>
        iso9660EntryToNodeMini env fuel s entryBuffer fsInfo parentMini

-- ---------------------------------------------------------------------------
-- Files
-- ---------------------------------------------------------------------------

/-- The loop of `iso9660_read` that rounds the size up to whole blocks. -/
def roundToBlocks : Nat → Nat → Outcome Nat
  | 0, _ => .running
  | fuel + 1, blocksize =>
    if blocksize % 2048 ≠ 0 then roundToBlocks fuel ((blocksize + 1) % 2 ^ 32)
    else .done blocksize

/-- `iso9660_read`, with the offset in blocks. It reads one block whatever the
size, and it ends without returning a value. -/
def iso9660Read (env : Env) (fuel : Nat) (s : Machine) (node offset size buffer : Nat) :
    Outcome Machine :=
  let fsInfo := s.mem.load32 (node + 280)
  let length := s.mem.load32 (node + 276)
  let readsize := if size > length then length else size
  (roundToBlocks fuel readsize).bind fun blocksize =>
  (s.kalloc fuel blocksize).bind fun (blockbuf, s) =>
  let lba := (s.mem.load32 (node + 272) + offset) % 2 ^ 32
  let s := s.readBlock env (s.mem.load32 fsInfo) blockbuf lba
  Machine.kfree { s with mem := memcpy s.mem buffer blockbuf readsize 0 } blockbuf

-- ---------------------------------------------------------------------------
-- Mounting
-- ---------------------------------------------------------------------------

/-- The stores of `iso9660_init_volume` to the mount point. The first entry of
the path table is in the buffer at `buffer2`. -/
def initTarget (env : Env) (m : Mem) (target fsInfo buffer2 : Nat)
    (targetParent : FsNodeMini) : Mem :=
  let m := m.store32 (target + 272) (m.load32 (buffer2 + 2))
  let m := m.store32 (target + 280) fsInfo
  let m := storeString m target CString.mnt.bytes
  let m := m.store32 (target + 268) fsDirectory
  let m := storeMini m (target + 316) targetParent
  let m := m.store32 (target + 300) env.iso9660Readdir
  m.store32 (target + 304) env.iso9660Finddir

/-- `iso9660_init_volume`. The volume descriptor is read after its buffer has
been freed. -/
def iso9660InitVolume (env : Env) (fuel : Nat) (s : Machine) (dev target : Nat)
    (targetParent : FsNodeMini) : Outcome Machine :=
  (s.kalloc fuel sizeofIso9660Fs).bind fun (fsInfo, s) =>
  (s.kalloc fuel 2048).bind fun (buffer, s) =>
  let s := s.readBlock env dev buffer iso9660Offset
  (s.kfree buffer).bind fun s =>
  (s.kalloc fuel 2048).map fun (buffer2, s) =>
  let s := s.readBlock env dev buffer2 (s.mem.load32 (buffer + 140))
  let m := s.mem.store32 fsInfo dev
  let m := storeMini m (fsInfo + 4) targetParent
  { s with mem := initTarget env m target fsInfo buffer2 targetParent }

/-- The stores of `vfs_init` to `fs_mnt`. -/
def initMnt (env : Env) (m : Mem) : Mem :=
  let m := storeString m env.fsMnt CString.mnt.bytes
  let m := m.store32 (env.fsMnt + 268) fsDirectory
  let m := m.store32 (env.fsMnt + 316) 0
  let m := m.store32 (env.fsMnt + 324) env.rootRecreate
  let m := m.store32 (env.fsMnt + 300) env.rootReaddir
  let m := m.store32 (env.fsMnt + 304) env.rootFinddir
  let m := m.store32 (env.fsMnt + 308) env.rootRecreate
  let m := m.store32 (env.fsMnt + 312) env.rootFreeNode
  m.store32 (env.fsMnt + 272) 1

/-- The stores of `vfs_init` to `fs_root`. -/
def initRoot (env : Env) (m : Mem) : Mem :=
  let m := m.store32 (env.fsRoot + 268) fsDirectory
  let m := m.store32 (env.fsRoot + 300) env.rootReaddir
  let m := m.store32 (env.fsRoot + 304) env.rootFinddir
  let m := m.store32 (env.fsRoot + 308) env.rootRecreate
  let m := m.store32 (env.fsRoot + 312) env.rootFreeNode
  let m := m.store32 (env.fsRoot + 324) 0
  m.store32 (env.fsRoot + 272) 0

/-- `vfs_init`. The global `mini_root` is never read and is left out. -/
def vfsInit (env : Env) (m : Mem) : Mem :=
  let m := initRoot env (initMnt env m)
  let m := m.store32 (env.fsCdromMnt + 308) env.rootRecreate
  m.store32 (env.fsCdromMnt + 312) env.rootFreeNode

-- ---------------------------------------------------------------------------
-- The virtual file system
-- ---------------------------------------------------------------------------

/-- `root_finddir`. -/
def rootFinddir (env : Env) (node : Nat) (name : CString) : Nat :=
  if node = env.fsRoot then (if name = CString.mnt then env.fsMnt else 0)
  else if node = env.fsMnt then (if name = CString.cdrom0 then env.fsCdromMnt else 0)
  else 0

/-- `root_recreate`. -/
def rootRecreate (env : Env) (mini : FsNodeMini) : Nat :=
  if mini.inode = 0 then env.fsRoot else if mini.inode = 1 then env.fsMnt else 0

/-- `read_fs`. -/
def readFs (env : Env) (fuel : Nat) (s : Machine) (node offset size buffer : Nat) :
    Outcome Machine :=
  let read := s.mem.load32 (node + 284)
  if read ≠ 0 then
    if read = env.iso9660Read then iso9660Read env fuel s node offset size buffer
    else .panic "call of an address that is no read function"
  else .done s

/-- `open_fs`; `iso9660_open` does nothing. -/
def openFs (env : Env) (s : Machine) (node : Nat) : Outcome Machine :=
  let openFile := s.mem.load32 (node + 292)
  if openFile ≠ 0 then
    if openFile = env.iso9660Open then .done s
    else .panic "call of an address that is no open function"
  else .done s

/-- `finddir_fs`. -/
def finddirFs (env : Env) (fuel : Nat) (s : Machine) (node : Nat) (name : CString) :
    Outcome (Nat × Machine) :=
  let finddir := s.mem.load32 (node + 304)
  if s.mem.load32 (node + 268) &&& 7 = fsDirectory ∧ finddir ≠ 0 then
    if finddir = env.rootFinddir then .done (rootFinddir env node name, s)
    else if finddir = env.iso9660Finddir then iso9660Finddir env fuel s node name
    else .panic "call of an address that is no finddir function"
  else .done (0, s)

/-- A call through a `recreate` pointer. -/
def callRecreate (env : Env) (fuel : Nat) (s : Machine) (mini : FsNodeMini) :
    Outcome (Nat × Machine) :=
  if mini.recreate = env.rootRecreate then .done (rootRecreate env mini, s)
  else if mini.recreate = env.iso9660Recreate then iso9660Recreate env fuel s mini
  else .panic "call of an address that is no recreate function"

/-- A call `node->free_node(node)`: `root_free_node` does nothing,
`iso9660_free_node` frees the node. -/
def callFreeNode (env : Env) (s : Machine) (node : Nat) : Outcome Machine :=
  let freeNode := s.mem.load32 (node + 312)
  if freeNode = env.rootFreeNode then .done s
  else if freeNode = env.iso9660FreeNode then s.kfree node
  else .panic "call of an address that is no free_node function"

-- ---------------------------------------------------------------------------
-- The shell
-- ---------------------------------------------------------------------------

/-- The machine and `current_dir`. -/
structure Shell where
  currentDir : Nat
  machine    : Machine

/-- `vfs_init`, `shell_init` and the mount that `kernel_main` makes. -/
def mountCdrom (env : Env) (fuel : Nat) (s : Machine) (dev : Nat) : Outcome Shell :=
  (iso9660InitVolume env fuel { s with mem := vfsInit env s.mem } dev env.fsCdromMnt
    ⟨1, 0, env.rootRecreate⟩).map fun s => ⟨env.fsRoot, s⟩

/-- What `cd` prints: nothing, or one of its messages. -/
inductive CdReply
  | quiet
  | cannotGoUp
  | noSuchFile
  | isAFile
deriving DecidableEq

/-- The command `cd dest` of `shell_runcmd`. -/
def shellCd (env : Env) (fuel : Nat) (sh : Shell) (dest : CString) : Outcome (CdReply × Shell) :=
  if dest = CString.dotDot then
    let parent := loadMini sh.machine.mem (sh.currentDir + 316)
    if parent.recreate = 0 then .done (.cannotGoUp, sh)
    else
      (callRecreate env fuel sh.machine parent).bind fun (node, s) =>
      (callFreeNode env s sh.currentDir).map fun s => (.quiet, ⟨node, s⟩)
  else
    (finddirFs env fuel sh.machine sh.currentDir dest).map fun (destNode, s) =>
      if destNode = 0 then (.noSuchFile, ⟨sh.currentDir, s⟩)
      else if s.mem.load32 (destNode + 268) &&& 7 ≠ fsDirectory then
        (.isAFile, ⟨sh.currentDir, s⟩)
      else (.quiet, ⟨destNode, s⟩)

/-- The loop of `cat`: what it prints, and the machine it leaves. -/
def catLoop (env : Env) (fuel destNode filebuf : Nat) :
    Nat → Machine → Int → Int → Outcome (List UInt8 × Machine)
  | 0, _, _, _ => .running
  | rounds + 1, s, fileLeft, offset =>
    let toRead := if fileLeft ≥ 2048 then 2048 else fileLeft
    (readFs env fuel s destNode (wordOf (offset.tdiv 2048)) (wordOf toRead) filebuf).bind fun s =>
    -- make sure it ends with a null byte
    let s := { s with mem := s.mem.store8 (wordOf (filebuf + toRead)) 0 }
    (printString fuel s.mem filebuf).bind fun text =>
    if fileLeft - toRead ≤ 0 then .done (text, s)
    else
      (catLoop env fuel destNode filebuf rounds s (fileLeft - toRead) (offset + toRead)).map
        fun (rest, s) => (text ++ rest, s)

/-- The command `cat dest` of `shell_runcmd`: what it prints, and the shell it
leaves. The node of the file is not freed. -/
def shellCat (env : Env) (fuel : Nat) (sh : Shell) (dest : CString) :
    Outcome (List UInt8 × Shell) :=
  (finddirFs env fuel sh.machine sh.currentDir dest).bind fun (destNode, s) =>
  if destNode = 0 then
    .done
      (ascii "cat: " ++ dest.bytes ++ ascii ": no such file or directory\n", ⟨sh.currentDir, s⟩)
  else if s.mem.load32 (destNode + 268) &&& 7 = fsDirectory then
    .done (ascii "cat: " ++ dest.bytes ++ ascii ": is a directory\n", ⟨sh.currentDir, s⟩)
  else
    (s.kalloc fuel (2048 + 1)).bind fun (filebuf, s) =>
    (openFs env s destNode).bind fun s =>
    (catLoop env fuel destNode filebuf fuel s (intOf (s.mem.load32 (destNode + 276))) 0).bind
      fun (text, s) =>
      (s.kfree filebuf).map fun s => (text ++ ascii "\n", ⟨sh.currentDir, s⟩)

end Hexos
