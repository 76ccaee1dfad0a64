import Hexos.Shell.Definitions

/-!
# HexOS — the file systems over their services

The functions of `vfs.c` and `iso9660.c` and the commands of the shell, over the
services they use: the memory, the calls of the heap and the block device. A
property of a run that its machine does not show (which allocations are live,
which reads failed) is a matter of the services: they may keep more than the
machine, and they may fail.

## Results

* `Services.MatchesAll` — services that act on a machine as the model does.
* `Services.shellRuncmd_map` — over such services, the commands do what they do in
  the model.
-/

namespace Hexos

/-- What the file systems use: the memory, the heap and the block device. -/
structure Services (σ : Type) where
  mem       : σ → Mem
  setMem    : σ → Mem → σ
  kalloc    : σ → Nat → Outcome (Nat × σ)
  kfree     : σ → Nat → Outcome σ
  readBlock : σ → Nat → Nat → Nat → Outcome σ

namespace Services

variable {σ : Type} (o : Services σ)

-- ---------------------------------------------------------------------------
-- ISO9660
-- ---------------------------------------------------------------------------

section Iso9660

variable (env : Env) (fuel : Nat)

/-- `iso9660_entry_to_node_mini`. -/
def entryToNodeMini (s : σ) (dirEntry fsInfo : Nat) (parent : FsNodeMini) : Outcome (Nat × σ) :=
  (o.kalloc s sizeofFsNode).bind fun (response, s) =>
  (storeName fuel (o.mem s) response dirEntry).map fun m =>
    let m := storeAttributes m response dirEntry
    let m := m.store32 (response + 272) (m.load32 (dirEntry + 2))
    (response, o.setMem s (storeLinks env m response fsInfo parent))

/-- `iso9660_entry_to_node`. -/
def entryToNode (s : σ) (dirEntry fsInfo parent : Nat) : Outcome (Nat × σ) :=
  let m := o.mem s
  o.entryToNodeMini env fuel s dirEntry fsInfo
    ⟨m.load32 (parent + 272), m.load32 (parent + 280), m.load32 (parent + 308)⟩

/-- `iso9660_readdir`, from the walk on. -/
def readdirWalk (s : σ) (buffer i : Nat) : Outcome (Nat × σ) :=
  (readdirLoop (o.mem s) i fuel buffer true 0).bind fun
  | none => (o.kfree s buffer).map fun s => (0, s)
  | some dirEntry =>
    let len := (o.mem s (dirEntry + 32)).toNat
    let dName := env.iso9660Resp + 4
    (if len ≤ 255 then
        strcpy fuel ((o.mem s).store8 (dirEntry + 33 + len) 0) dName (dirEntry + 33)
      else .done ((storeString (o.mem s) dName CString.error.bytes).store8 (dName + 6) 0)).bind
        fun m =>
    let m := m.store32 env.iso9660Resp 0
    (o.kfree (o.setMem s m) buffer).map fun s => (env.iso9660Resp, s)

/-- `iso9660_readdir`. -/
def readdir (s : σ) (this i : Nat) : Outcome (Nat × σ) :=
  (o.kalloc s 2048).bind fun (buffer, s) =>
  let fsInfo := (o.mem s).load32 (this + 280)
  (o.readBlock s ((o.mem s).load32 fsInfo) buffer ((o.mem s).load32 (this + 272))).bind fun s =>
  o.readdirWalk env fuel s buffer i

/-- `iso9660_finddir`, from the walk on. -/
def finddirWalk (s : σ) (buffer fsInfo currentDir : Nat) (name : CString) : Outcome (Nat × σ) :=
  (finddirLoop name fuel (o.mem s) buffer true).bind fun
  | (none, m) => (o.kfree (o.setMem s m) buffer).map fun s => (0, s)
  | (some dirEntry, m) =>
    (o.entryToNode env fuel (o.setMem s m) dirEntry fsInfo currentDir).bind
      fun (response, s) => (o.kfree s buffer).map fun s => (response, s)

/-- `iso9660_finddir`. -/
def finddir (s : σ) (currentDir : Nat) (name : CString) : Outcome (Nat × σ) :=
  (o.kalloc s 2048).bind fun (buffer, s) =>
  let fsInfo := (o.mem s).load32 (currentDir + 280)
  (o.readBlock s ((o.mem s).load32 fsInfo) buffer ((o.mem s).load32 (currentDir + 272))).bind
    fun s =>
  o.finddirWalk env fuel s buffer fsInfo currentDir name

/-- The exits of `iso9660_recreate` that find no directory. -/
def freeBuffers (s : σ) (tableBuffer entryBuffer : Nat) : Outcome σ :=
  (o.kfree s tableBuffer).bind fun s => o.kfree s entryBuffer

/-- `iso9660_recreate`, from the scans on. -/
def recreateScan (s : σ) (entryBuffer tableBuffer : Nat) (mini : FsNodeMini) :
    Outcome (Nat × σ) :=
  (findPathEntry (o.mem s) mini.inode fuel tableBuffer true).bind fun
  | none => (o.freeBuffers s tableBuffer entryBuffer).map fun s => (0, s)
  | some (pathEntry, isFirstEntry) =>
    match pathParent env (o.mem s) mini.impl tableBuffer pathEntry isFirstEntry with
    | none => (o.freeBuffers s tableBuffer entryBuffer).map fun s => (0, s)
    | some parentMini =>
      (o.freeBuffers s tableBuffer entryBuffer).bind fun s =>
        o.entryToNodeMini env fuel s entryBuffer mini.impl parentMini

/-- `iso9660_recreate`. -/
def recreate (s : σ) (mini : FsNodeMini) : Outcome (Nat × σ) :=
  (o.kalloc s sizeofFsNode).bind fun (_, s) =>
  let fsInfo := mini.impl
  (o.kalloc s 2048).bind fun (entryBuffer, s) =>
  (o.readBlock s ((o.mem s).load32 fsInfo) entryBuffer mini.inode).bind fun s =>
  (o.kalloc s 2048).bind fun (tableBuffer, s) =>
  (o.readBlock s ((o.mem s).load32 fsInfo) tableBuffer iso9660Offset).bind fun s =>
  (o.readBlock s ((o.mem s).load32 fsInfo) tableBuffer ((o.mem s).load32 (tableBuffer + 140))).bind
    fun s => o.recreateScan env fuel s entryBuffer tableBuffer mini

/-- `iso9660_read`. -/
def read (s : σ) (node offset size buffer : Nat) : Outcome σ :=
  let fsInfo := (o.mem s).load32 (node + 280)
  let length := (o.mem s).load32 (node + 276)
  let readsize := if size > length then length else size
  (roundToBlocks fuel readsize).bind fun blocksize =>
  (o.kalloc s blocksize).bind fun (blockbuf, s) =>
  let lba := ((o.mem s).load32 (node + 272) + offset) % 2 ^ 32
  (o.readBlock s ((o.mem s).load32 fsInfo) blockbuf lba).bind fun s =>
  o.kfree (o.setMem s (memcpy (o.mem s) buffer blockbuf readsize 0)) blockbuf

end Iso9660

-- ---------------------------------------------------------------------------
-- The virtual file system
-- ---------------------------------------------------------------------------

section Vfs

variable (env : ShellEnv) (fuel : Nat)

/-- `read_fs`. -/
def readFs (s : σ) (node offset size buffer : Nat) : Outcome σ :=
  let read := (o.mem s).load32 (node + 284)
  if read ≠ 0 then
    if read = env.iso9660Read then o.read fuel s node offset size buffer
    else .panic "call of an address that is no read function"
  else .done s

/-- `open_fs`. -/
def openFs (s : σ) (node : Nat) : Outcome σ :=
  let openFile := (o.mem s).load32 (node + 292)
  if openFile ≠ 0 then
    if openFile = env.iso9660Open then .done s
    else .panic "call of an address that is no open function"
  else .done s

/-- `root_readdir`: it looks at the memory only. -/
def rootReaddir (s : σ) (node num : Nat) : Nat × σ :=
  let r := Hexos.rootReaddir env ⟨[], o.mem s⟩ node num
  (r.1, o.setMem s r.2.mem)

/-- `readdir_fs`. -/
def readdirFs (s : σ) (node index : Nat) : Outcome (Nat × σ) :=
  let readdir := (o.mem s).load32 (node + 300)
  if (o.mem s).load32 (node + 268) &&& 7 = fsDirectory ∧ readdir ≠ 0 then
    if readdir = env.rootReaddir then .done (o.rootReaddir env s node index)
    else if readdir = env.iso9660Readdir then o.readdir env.toEnv fuel s node index
    else .panic "call of an address that is no readdir function"
  else .done (0, s)

/-- `finddir_fs`. -/
def finddirFs (s : σ) (node : Nat) (name : CString) : Outcome (Nat × σ) :=
  let finddir := (o.mem s).load32 (node + 304)
  if (o.mem s).load32 (node + 268) &&& 7 = fsDirectory ∧ finddir ≠ 0 then
    if finddir = env.rootFinddir then .done (rootFinddir env.toEnv node name, s)
    else if finddir = env.iso9660Finddir then o.finddir env.toEnv fuel s node name
    else .panic "call of an address that is no finddir function"
  else .done (0, s)

/-- A call through a `recreate` pointer. -/
def callRecreate (s : σ) (mini : FsNodeMini) : Outcome (Nat × σ) :=
  if mini.recreate = env.rootRecreate then .done (rootRecreate env.toEnv mini, s)
  else if mini.recreate = env.iso9660Recreate then o.recreate env.toEnv fuel s mini
  else .panic "call of an address that is no recreate function"

/-- A call `node->free_node(node)`. -/
def callFreeNode (s : σ) (node : Nat) : Outcome σ :=
  let freeNode := (o.mem s).load32 (node + 312)
  if freeNode = env.rootFreeNode then .done s
  else if freeNode = env.iso9660FreeNode then o.kfree s node
  else .panic "call of an address that is no free_node function"

end Vfs

-- ---------------------------------------------------------------------------
-- The shell
-- ---------------------------------------------------------------------------

section Shell

variable (env : ShellEnv) (fuel : Nat)

/-- The loop of `ls`. -/
def lsLoop (currentDir : Nat) : Nat → σ → Nat → Outcome (List UInt8 × σ)
  | 0, _, _ => .running
  | rounds + 1, s, i =>
    (o.readdirFs env fuel s currentDir i).bind fun (entry, s) =>
    if entry ≠ 0 then
      (printString fuel (o.mem s) (entry + 4)).bind fun text =>
      (lsLoop currentDir rounds s ((i + 1) % 2 ^ 32)).map
        fun (rest, s) => (text ++ ascii "\n" ++ rest, s)
    else .done ([], s)

/-- The command `ls`. -/
def shellLs (dir : Nat) (s : σ) : Outcome (List UInt8 × Nat × σ) :=
  (o.lsLoop env fuel dir fuel s 0).map fun (text, s) => (text, dir, s)

/-- The command `cd dest`. -/
def shellCd (dir : Nat) (s : σ) (dest : CString) : Outcome (CdReply × Nat × σ) :=
  if dest = CString.dotDot then
    let parent := loadMini (o.mem s) (dir + 316)
    if parent.recreate = 0 then .done (.cannotGoUp, dir, s)
    else
      (o.callRecreate env fuel s parent).bind fun (node, s) =>
      (o.callFreeNode env s dir).map fun s => (.quiet, node, s)
  else
    (o.finddirFs env fuel s dir dest).map fun (destNode, s) =>
      if destNode = 0 then (.noSuchFile, dir, s)
      else if (o.mem s).load32 (destNode + 268) &&& 7 ≠ fsDirectory then (.isAFile, dir, s)
      else (.quiet, destNode, s)

/-- The loop of `cat`. -/
def catLoop (destNode filebuf : Nat) : Nat → σ → Int → Int → Outcome (List UInt8 × σ)
  | 0, _, _, _ => .running
  | rounds + 1, s, fileLeft, offset =>
    let toRead := if fileLeft ≥ 2048 then 2048 else fileLeft
    (o.readFs env fuel s destNode (wordOf (offset.tdiv 2048)) (wordOf toRead) filebuf).bind fun s =>
    -- make sure it ends with a null byte
    let s := o.setMem s ((o.mem s).store8 (wordOf (filebuf + toRead)) 0)
    (printString fuel (o.mem s) filebuf).bind fun text =>
    if fileLeft - toRead ≤ 0 then .done (text, s)
    else
      (catLoop destNode filebuf rounds s (fileLeft - toRead) (offset + toRead)).map
        fun (rest, s) => (text ++ rest, s)

/-- The command `cat dest`. -/
def shellCat (dir : Nat) (s : σ) (dest : CString) : Outcome (List UInt8 × Nat × σ) :=
  (o.finddirFs env fuel s dir dest).bind fun (destNode, s) =>
  if destNode = 0 then
    .done (ascii "cat: " ++ dest.bytes ++ ascii ": no such file or directory\n", dir, s)
  else if (o.mem s).load32 (destNode + 268) &&& 7 = fsDirectory then
    .done (ascii "cat: " ++ dest.bytes ++ ascii ": is a directory\n", dir, s)
  else
    (o.kalloc s (2048 + 1)).bind fun (filebuf, s) =>
    (o.openFs env s destNode).bind fun s =>
    (o.catLoop env fuel destNode filebuf fuel s (intOf ((o.mem s).load32 (destNode + 276))) 0).bind
      fun (text, s) => (o.kfree s filebuf).map fun s => (text ++ ascii "\n", dir, s)

/-- The command `filesize dest`. -/
def shellFilesize (dir : Nat) (s : σ) (dest : CString) : Outcome (List UInt8 × Nat × σ) :=
  (o.finddirFs env fuel s dir dest).bind fun (destNode, s) =>
  if destNode = 0 then
    .done (ascii "filesize: " ++ dest.bytes ++ ascii ": no such file or directory\n", dir, s)
  else if (o.mem s).load32 (destNode + 268) &&& 7 = fsDirectory then
    .done (ascii "filesize: " ++ dest.bytes ++ ascii ": is a directory\n", dir, s)
  else
    (printfInt fuel (intOf ((o.mem s).load32 (destNode + 276)))).map
      fun text => (text ++ ascii "\n", dir, s)

variable {World : Type}
  (processCommand : ProcessCommand → World → Outcome (List UInt8 × World))

/-- One command. Those that use no service are the model's. -/
def runCommand (dir : Nat) (s : σ) (world : World) :
    Command → Outcome (List UInt8 × (Nat × σ) × World)
  | .ls => (o.shellLs env fuel dir s).map fun (text, sh) => (text, sh, world)
  | .cd dest => (o.shellCd env fuel dir s dest).map fun (reply, sh) => (reply.text dest, sh, world)
  | .cat dest => (o.shellCat env fuel dir s dest).map fun (text, sh) => (text, sh, world)
  | .filesize dest => (o.shellFilesize env fuel dir s dest).map fun (text, sh) => (text, sh, world)
  | c => (Hexos.runCommand processCommand env fuel ⟨dir, ⟨[], o.mem s⟩⟩ world c).map
      fun (text, _, world) => (text, (dir, s), world)

/-- `shell_runcmd`. -/
def shellRuncmd (buffer : Mem) (len dir : Nat) (s : σ) (world : World) :
    Outcome (List UInt8 × (Nat × σ) × World) :=
  (shellCommand fuel buffer len).bind (o.runCommand env fuel processCommand dir s world)

end Shell

-- ---------------------------------------------------------------------------
-- Services that do the same
-- ---------------------------------------------------------------------------

/-- Seen through `f`, the memory and the heap of `o` act as those of `o'`. -/
structure Matches {τ : Type} (o : Services σ) (o' : Services τ) (f : σ → τ) : Prop where
  mem    : ∀ s, o.mem s = o'.mem (f s)
  setMem : ∀ s m, f (o.setMem s m) = o'.setMem (f s) m
  kalloc : ∀ s size, (o.kalloc s size).map (fun (ptr, s) => (ptr, f s)) = o'.kalloc (f s) size
  kfree  : ∀ s ptr, (o.kfree s ptr).map f = o'.kfree (f s) ptr

/-- So does the block device. -/
structure MatchesAll {τ : Type} (o : Services σ) (o' : Services τ) (f : σ → τ) : Prop
    extends Matches o o' f where
  readBlock : ∀ s dev buffer lba,
    (o.readBlock s dev buffer lba).map f = o'.readBlock (f s) dev buffer lba

section Same

variable {τ : Type} {o : Services σ} {o' : Services τ} {f : σ → τ} {fuel : Nat}

section Iso9660

variable {env : Env}

theorem entryToNodeMini_map (h : o.Matches o' f) (s : σ) (dirEntry fsInfo : Nat)
    (parent : FsNodeMini) :
    (o.entryToNodeMini env fuel s dirEntry fsInfo parent).map (fun (r, s) => (r, f s)) =
      o'.entryToNodeMini env fuel (f s) dirEntry fsInfo parent := by
  unfold entryToNodeMini
  rw [← h.kalloc]
  refine Outcome.map_bind_congr fun (response, s) => ?_
  simp only [Outcome.map_map, h.setMem, h.mem]

theorem entryToNode_map (h : o.Matches o' f) (s : σ) (dirEntry fsInfo parent : Nat) :
    (o.entryToNode env fuel s dirEntry fsInfo parent).map (fun (r, s) => (r, f s)) =
      o'.entryToNode env fuel (f s) dirEntry fsInfo parent := by
  unfold entryToNode
  simp only [entryToNodeMini_map h, h.mem]

/-- A buffer is freed, and the result is returned. -/
theorem kfree_map {α : Type} (h : o.Matches o' f) (s : σ) (ptr : Nat) (a : α) :
    ((o.kfree s ptr).map fun s => (a, s)).map (fun (r, s) => (r, f s)) =
      (o'.kfree (f s) ptr).map fun s => (a, s) := by
  rw [← h.kfree, Outcome.map_map, Outcome.map_map]

theorem readdirWalk_map (h : o.Matches o' f) (s : σ) (buffer i : Nat) :
    (o.readdirWalk env fuel s buffer i).map (fun (r, s) => (r, f s)) =
      o'.readdirWalk env fuel (f s) buffer i := by
  unfold readdirWalk
  rw [h.mem]
  refine Outcome.map_bind ?_
  intro r
  cases r with
  | none => exact kfree_map h s buffer 0
  | some dirEntry =>
    refine Outcome.map_bind ?_
    intro m
    rw [kfree_map h, h.setMem]

theorem readdir_map (h : o.MatchesAll o' f) (s : σ) (this i : Nat) :
    (o.readdir env fuel s this i).map (fun (r, s) => (r, f s)) =
      o'.readdir env fuel (f s) this i := by
  unfold readdir
  rw [← h.kalloc]
  refine Outcome.map_bind_congr fun (buffer, s) => ?_
  simp only [← h.readBlock, h.mem]
  exact Outcome.map_bind_congr fun s => readdirWalk_map h.toMatches s buffer i

theorem finddirWalk_map (h : o.Matches o' f) (s : σ) (buffer fsInfo currentDir : Nat)
    (name : CString) :
    (o.finddirWalk env fuel s buffer fsInfo currentDir name).map (fun (r, s) => (r, f s)) =
      o'.finddirWalk env fuel (f s) buffer fsInfo currentDir name := by
  unfold finddirWalk
  rw [h.mem]
  refine Outcome.map_bind fun (entry, m) => ?_
  cases entry with
  | none => simp only [kfree_map h, h.setMem]
  | some dirEntry =>
    simp only [← h.setMem, ← entryToNode_map h]
    exact Outcome.map_bind_congr fun (response, s) => kfree_map h s buffer response

theorem finddir_map (h : o.MatchesAll o' f) (s : σ) (currentDir : Nat)
    (name : CString) :
    (o.finddir env fuel s currentDir name).map (fun (r, s) => (r, f s)) =
      o'.finddir env fuel (f s) currentDir name := by
  unfold finddir
  rw [← h.kalloc]
  refine Outcome.map_bind_congr fun (buffer, s) => ?_
  simp only [← h.readBlock, h.mem]
  exact Outcome.map_bind_congr fun s => finddirWalk_map h.toMatches s buffer _ currentDir name

theorem freeBuffers_map (h : o.Matches o' f) (s : σ) (tableBuffer entryBuffer : Nat) :
    (o.freeBuffers s tableBuffer entryBuffer).map f =
      o'.freeBuffers (f s) tableBuffer entryBuffer := by
  unfold freeBuffers
  rw [← h.kfree]
  exact Outcome.map_bind_congr fun s => h.kfree s entryBuffer

theorem recreateScan_map (h : o.Matches o' f) (s : σ) (entryBuffer tableBuffer : Nat)
    (mini : FsNodeMini) :
    (o.recreateScan env fuel s entryBuffer tableBuffer mini).map (fun (r, s) => (r, f s)) =
      o'.recreateScan env fuel (f s) entryBuffer tableBuffer mini := by
  have hNone : ((o.freeBuffers s tableBuffer entryBuffer).map fun s => (0, s)).map
      (fun (r, s) => (r, f s)) =
        (o'.freeBuffers (f s) tableBuffer entryBuffer).map fun s => (0, s) := by
    rw [← freeBuffers_map h, Outcome.map_map, Outcome.map_map]
  unfold recreateScan
  rw [h.mem]
  refine Outcome.map_bind ?_
  intro r
  cases r with
  | none => exact hNone
  | some r =>
    obtain ⟨pathEntry, isFirstEntry⟩ := r
    simp only
    cases pathParent env (o'.mem (f s)) mini.impl tableBuffer pathEntry isFirstEntry with
    | none => exact hNone
    | some parentMini =>
      simp only [← freeBuffers_map h]
      exact Outcome.map_bind_congr fun s => entryToNodeMini_map h s entryBuffer mini.impl parentMini

theorem recreate_map (h : o.MatchesAll o' f) (s : σ) (mini : FsNodeMini) :
    (o.recreate env fuel s mini).map (fun (r, s) => (r, f s)) =
      o'.recreate env fuel (f s) mini := by
  unfold recreate
  rw [← h.kalloc]
  refine Outcome.map_bind_congr fun (_, s) => ?_
  simp only
  rw [← h.kalloc]
  refine Outcome.map_bind_congr fun (entryBuffer, s) => ?_
  simp only [← h.readBlock, h.mem]
  refine Outcome.map_bind_congr ?_
  intro s
  rw [← h.kalloc]
  refine Outcome.map_bind_congr fun (tableBuffer, s) => ?_
  simp only [← h.readBlock]
  refine Outcome.map_bind_congr ?_
  intro s
  simp only [← h.readBlock]
  exact Outcome.map_bind_congr fun s => recreateScan_map h.toMatches s entryBuffer tableBuffer mini

theorem read_map (h : o.MatchesAll o' f) (s : σ)
    (node offset size buffer : Nat) :
    (o.read fuel s node offset size buffer).map f = o'.read fuel (f s) node offset size buffer := by
  unfold read
  rw [h.mem]
  refine Outcome.map_bind ?_
  intro blocksize
  rw [← h.kalloc]
  refine Outcome.map_bind_congr fun (blockbuf, s) => ?_
  simp only [← h.readBlock, h.mem]
  refine Outcome.map_bind_congr ?_
  intro s
  rw [h.kfree, h.setMem]

end Iso9660

section Shell

variable {env : ShellEnv}

theorem readFs_map (h : o.MatchesAll o' f) (s : σ) (node offset size buffer : Nat) :
    (o.readFs env fuel s node offset size buffer).map f =
      o'.readFs env fuel (f s) node offset size buffer := by
  unfold readFs
  simp only [h.mem]
  split
  · split
    · exact read_map h s node offset size buffer
    · rfl
  · rfl

theorem openFs_map (h : o.Matches o' f) (s : σ) (node : Nat) :
    (o.openFs env s node).map f = o'.openFs env (f s) node := by
  unfold openFs
  simp only [h.mem]
  split
  · split <;> rfl
  · rfl

theorem readdirFs_map (h : o.MatchesAll o' f) (s : σ) (node index : Nat) :
    (o.readdirFs env fuel s node index).map (fun (r, s) => (r, f s)) =
      o'.readdirFs env fuel (f s) node index := by
  unfold readdirFs rootReaddir
  simp only [h.mem]
  split
  · split
    · simp only [Outcome.map_done, h.setMem]
    · split
      · exact readdir_map h s node index
      · rfl
  · rfl

theorem finddirFs_map (h : o.MatchesAll o' f) (s : σ) (node : Nat) (name : CString) :
    (o.finddirFs env fuel s node name).map (fun (r, s) => (r, f s)) =
      o'.finddirFs env fuel (f s) node name := by
  unfold finddirFs
  simp only [h.mem]
  split
  · split
    · rfl
    · split
      · exact finddir_map h s node name
      · rfl
  · rfl

theorem callRecreate_map (h : o.MatchesAll o' f) (s : σ) (mini : FsNodeMini) :
    (o.callRecreate env fuel s mini).map (fun (r, s) => (r, f s)) =
      o'.callRecreate env fuel (f s) mini := by
  unfold callRecreate
  split
  · rfl
  · split
    · exact recreate_map h s mini
    · rfl

theorem callFreeNode_map (h : o.Matches o' f) (s : σ) (node : Nat) :
    (o.callFreeNode env s node).map f = o'.callFreeNode env (f s) node := by
  unfold callFreeNode
  simp only [h.mem]
  split
  · rfl
  · split
    · exact h.kfree s node
    · rfl

theorem lsLoop_map (h : o.MatchesAll o' f) (currentDir rounds : Nat) (s : σ) (i : Nat) :
    (o.lsLoop env fuel currentDir rounds s i).map (fun (text, s) => (text, f s)) =
      o'.lsLoop env fuel currentDir rounds (f s) i := by
  induction rounds generalizing s i with
  | zero => rfl
  | succ rounds ih =>
    rw [lsLoop, lsLoop, ← readdirFs_map h]
    refine Outcome.map_bind_congr fun (entry, s) => ?_
    simp only [← h.mem]
    split
    · refine Outcome.map_bind ?_
      intro text
      rw [← ih, Outcome.map_map, Outcome.map_map]
    · rfl

theorem catLoop_map (h : o.MatchesAll o' f) (destNode filebuf rounds : Nat) (s : σ)
    (fileLeft offset : Int) :
    (o.catLoop env fuel destNode filebuf rounds s fileLeft offset).map
      (fun (text, s) => (text, f s)) =
      o'.catLoop env fuel destNode filebuf rounds (f s) fileLeft offset := by
  induction rounds generalizing s fileLeft offset with
  | zero => rfl
  | succ rounds ih =>
    rw [catLoop, catLoop]
    simp only [← readFs_map h]
    generalize (if fileLeft ≥ 2048 then 2048 else fileLeft) = toRead
    refine Outcome.map_bind_congr ?_
    intro s
    simp only [h.mem, h.setMem]
    refine Outcome.map_bind ?_
    intro text
    rw [← h.setMem]
    split
    · rfl
    · rw [← ih, Outcome.map_map, Outcome.map_map]

theorem shellCd_map (h : o.MatchesAll o' f) (dir : Nat) (s : σ) (dest : CString) :
    (o.shellCd env fuel dir s dest).map (fun (reply, dir, s) => (reply, dir, f s)) =
      o'.shellCd env fuel dir (f s) dest := by
  unfold shellCd
  simp only [h.mem]
  split
  · split
    · rfl
    · rw [← callRecreate_map h]
      refine Outcome.map_bind_congr fun (node, s) => ?_
      simp only [← callFreeNode_map h.toMatches, Outcome.map_map]
  · rw [← finddirFs_map h, Outcome.map_map, Outcome.map_map]
    congr 1
    funext (destNode, s)
    simp only
    split
    · rfl
    · split <;> rfl

theorem shellCat_map (h : o.MatchesAll o' f) (dir : Nat) (s : σ) (dest : CString) :
    (o.shellCat env fuel dir s dest).map (fun (text, dir, s) => (text, dir, f s)) =
      o'.shellCat env fuel dir (f s) dest := by
  unfold shellCat
  rw [← finddirFs_map h]
  refine Outcome.map_bind_congr fun (destNode, s) => ?_
  simp only [h.mem]
  split
  · rfl
  · split
    · rfl
    · rw [← h.kalloc]
      refine Outcome.map_bind_congr fun (filebuf, s) => ?_
      simp only [← openFs_map h.toMatches]
      refine Outcome.map_bind_congr ?_
      intro s
      rw [← catLoop_map h]
      refine Outcome.map_bind_congr fun (text, s) => ?_
      simp only [← h.kfree, Outcome.map_map]

theorem shellFilesize_map (h : o.MatchesAll o' f) (dir : Nat) (s : σ) (dest : CString) :
    (o.shellFilesize env fuel dir s dest).map (fun (text, dir, s) => (text, dir, f s)) =
      o'.shellFilesize env fuel dir (f s) dest := by
  unfold shellFilesize
  rw [← finddirFs_map h]
  refine Outcome.map_bind_congr fun (destNode, s) => ?_
  simp only [h.mem]
  split
  · rfl
  · split
    · rfl
    · rw [Outcome.map_map]

end Shell

end Same

-- ---------------------------------------------------------------------------
-- The services of the model
-- ---------------------------------------------------------------------------

/-- The services of the model: the machine, and the sectors of the environment. -/
def model (env : Env) (fuel : Nat) : Services Machine where
  mem s := s.mem
  setMem s m := { s with mem := m }
  kalloc s size := s.kalloc fuel size
  kfree s ptr := s.kfree ptr
  readBlock s dev buffer lba := .done (s.readBlock env dev buffer lba)

theorem model_mem (env : Env) (fuel : Nat) (s : Machine) : (model env fuel).mem s = s.mem := (rfl)

section Model

variable {env : ShellEnv} {fuel : Nat}

/- Over these services the functions are those of the model. -/
theorem model_readdir (env : Env) (fuel : Nat) (s : Machine) (this i : Nat) :
    (model env fuel).readdir env fuel s this i = iso9660Readdir env fuel s this i := rfl

theorem model_finddir (env : Env) (fuel : Nat) (s : Machine) (currentDir : Nat) (name : CString) :
    (model env fuel).finddir env fuel s currentDir name =
      iso9660Finddir env fuel s currentDir name := rfl

theorem model_recreate (env : Env) (fuel : Nat) (s : Machine) (mini : FsNodeMini) :
    (model env fuel).recreate env fuel s mini = iso9660Recreate env fuel s mini := rfl

theorem model_readdirFs (s : Machine) (node index : Nat) :
    (model env.toEnv fuel).readdirFs env fuel s node index =
      Hexos.readdirFs env fuel s node index := by
  have hRoot : (model env.toEnv fuel).rootReaddir env s node index =
      Hexos.rootReaddir env s node index := by
    show ((Hexos.rootReaddir env ⟨[], s.mem⟩ node index).1,
      { s with mem := (Hexos.rootReaddir env ⟨[], s.mem⟩ node index).2.mem }) = _
    unfold Hexos.rootReaddir
    simp only
    split
    · split <;> rfl
    · split
      · split <;> rfl
      · rfl
  unfold readdirFs Hexos.readdirFs
  rw [hRoot]
  rfl

theorem model_lsLoop (currentDir rounds : Nat) (s : Machine) (i : Nat) :
    (model env.toEnv fuel).lsLoop env fuel currentDir rounds s i =
      Hexos.lsLoop env fuel currentDir rounds s i := by
  induction rounds generalizing s i with
  | zero => rfl
  | succ rounds ih =>
    rw [lsLoop, Hexos.lsLoop, model_readdirFs]
    simp only [ih]
    rfl

theorem model_catLoop (destNode filebuf rounds : Nat) (s : Machine) (fileLeft offset : Int) :
    (model env.toEnv fuel).catLoop env fuel destNode filebuf rounds s fileLeft offset =
      Hexos.catLoop env.toEnv fuel destNode filebuf rounds s fileLeft offset := by
  induction rounds generalizing s fileLeft offset with
  | zero => rfl
  | succ rounds ih =>
    rw [catLoop, Hexos.catLoop]
    simp only [ih]
    rfl

/-- The state of the shell. -/
def toShell (sh : Nat × Machine) : Shell := ⟨sh.1, sh.2⟩

theorem model_shellLs (dir : Nat) (s : Machine) :
    ((model env.toEnv fuel).shellLs env fuel dir s).map (fun (text, sh) => (text, toShell sh)) =
      Hexos.shellLs env fuel ⟨dir, s⟩ := by
  unfold shellLs Hexos.shellLs
  rw [model_lsLoop, Outcome.map_map]
  rfl

theorem model_shellCd (dir : Nat) (s : Machine) (dest : CString) :
    ((model env.toEnv fuel).shellCd env fuel dir s dest).map
      (fun (reply, sh) => (reply, toShell sh)) =
      Hexos.shellCd env.toEnv fuel ⟨dir, s⟩ dest := by
  unfold shellCd Hexos.shellCd
  simp only [model_mem]
  split
  · split
    · rfl
    · refine Outcome.map_bind fun (node, s) => ?_
      simp only [Outcome.map_map]
      rfl
  · rw [Outcome.map_map]
    show Outcome.map _ (Hexos.finddirFs env.toEnv fuel s dir dest) = _
    congr 1
    funext (destNode, s)
    simp only
    split
    · rfl
    · split <;> rfl

theorem model_shellCat (dir : Nat) (s : Machine) (dest : CString) :
    ((model env.toEnv fuel).shellCat env fuel dir s dest).map
      (fun (text, sh) => (text, toShell sh)) =
      Hexos.shellCat env.toEnv fuel ⟨dir, s⟩ dest := by
  unfold shellCat Hexos.shellCat
  refine Outcome.map_bind fun (destNode, s) => ?_
  simp only [model_mem]
  split
  · rfl
  · split
    · rfl
    · refine Outcome.map_bind fun (filebuf, s) => ?_
      refine Outcome.map_bind ?_
      intro s
      rw [model_catLoop]
      refine Outcome.map_bind fun (text, s) => ?_
      simp only [Outcome.map_map]
      rfl

theorem model_shellFilesize (dir : Nat) (s : Machine) (dest : CString) :
    ((model env.toEnv fuel).shellFilesize env fuel dir s dest).map
        (fun (text, sh) => (text, toShell sh)) =
      Hexos.shellFilesize env.toEnv fuel ⟨dir, s⟩ dest := by
  unfold shellFilesize Hexos.shellFilesize
  refine Outcome.map_bind fun (destNode, s) => ?_
  simp only [model_mem]
  split
  · rfl
  · split
    · rfl
    · rw [Outcome.map_map]
      rfl

variable {o} {f : σ → Machine} {World : Type}
  (processCommand : ProcessCommand → World → Outcome (List UInt8 × World))

/-- **The commands.** Over services that act on a machine as the model does, they do
there what they do in the model. -/
theorem runCommand_map (h : o.MatchesAll (model env.toEnv fuel) f) (dir : Nat) (s : σ)
    (world : World) (c : Command) :
    (o.runCommand env fuel processCommand dir s world c).map
        (fun (text, sh, world) => (text, toShell (sh.1, f sh.2), world)) =
      Hexos.runCommand processCommand env fuel ⟨dir, f s⟩ world c := by
  cases c with
  | ls =>
    simp only [runCommand, Hexos.runCommand, ← model_shellLs, Outcome.map_map]
    unfold shellLs
    rw [← lsLoop_map h, Outcome.map_map, Outcome.map_map, Outcome.map_map]
  | cd dest =>
    simp only [runCommand, Hexos.runCommand, ← model_shellCd, ← shellCd_map h, Outcome.map_map]
  | cat dest =>
    simp only [runCommand, Hexos.runCommand, ← model_shellCat, ← shellCat_map h,
      Outcome.map_map]
  | filesize dest =>
    simp only [runCommand, Hexos.runCommand, ← model_shellFilesize, ← shellFilesize_map h,
      Outcome.map_map]
  | process command =>
    cases command <;> simp only [runCommand, Hexos.runCommand, Outcome.map_map] <;> rfl
  | empty => rfl
  | uname => rfl
  | pwd => rfl
  | mem => rfl
  | unknown => rfl

/-- **shell_runcmd.** -/
theorem shellRuncmd_map (h : o.MatchesAll (model env.toEnv fuel) f) (buffer : Mem) (len dir : Nat)
    (s : σ) (world : World) :
    (o.shellRuncmd env fuel processCommand buffer len dir s world).map
        (fun (text, sh, world) => (text, toShell (sh.1, f sh.2), world)) =
      Hexos.shellRuncmd processCommand env fuel buffer len ⟨dir, f s⟩ world := by
  unfold shellRuncmd Hexos.shellRuncmd
  exact Outcome.map_bind fun c => runCommand_map processCommand h dir s world c

end Model

end Services

end Hexos
