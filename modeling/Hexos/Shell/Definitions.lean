import Hexos.Fs.Definitions

/-!
# HexOS — the shell

`kernel/kernel/shell.c`, with the part of `vfs.c` that only its commands use.
`shell_buffer` is apart from the memory of the file systems: nothing but the
shell has a pointer to it. The commands that act on
processes (`dump`, `top`, `proctest`, `memtest`, `exit`) touch neither the
shell's variables nor the heap, and are a parameter here: functions of the rest
of the kernel.
-/

namespace Hexos

/-- The addresses of the globals that the shell uses in addition, with
`dirent_resp`, the answer of `root_readdir`. -/
structure ShellEnv extends Env where
  direntResp     : Nat
  dirent_ne_null : direntResp ≠ 0
  dirent_apart   : ∀ node ∈ [fsRoot, fsMnt, fsCdromMnt],
    direntResp + 260 ≤ node ∨ node + 332 ≤ direntResp
  readdir_ne     : rootReaddir ≠ iso9660Readdir ∧ rootReaddir ≠ 0 ∧ iso9660Readdir ≠ 0 ∧
    rootReaddir < 2 ^ 32 ∧ iso9660Readdir < 2 ^ 32

-- ---------------------------------------------------------------------------
-- Directory listings
-- ---------------------------------------------------------------------------

/-- The stores of `root_readdir` to `dirent_resp`. -/
def storeDirent (m : Mem) (resp : Nat) (name : List UInt8) : Mem :=
  let m := storeString m (resp + 4) name
  let m := m.store8 (resp + 4 + name.length) 0
  m.store32 resp 0

/-- `root_readdir`. -/
def rootReaddir (env : ShellEnv) (s : Machine) (node num : Nat) : Nat × Machine :=
  let inode := s.mem.load32 (node + 272)
  if inode = 0 then
    -- root dir
    if num = 0 then
      (env.direntResp, { s with mem := storeDirent s.mem env.direntResp CString.mnt.bytes })
    else (0, s)
  else if inode = 1 then
    -- mnt dir
    if num = 0 then
      (env.direntResp, { s with mem := storeDirent s.mem env.direntResp CString.cdrom0.bytes })
    else (0, s)
  else (0, s)

/-- `readdir_fs`. -/
def readdirFs (env : ShellEnv) (fuel : Nat) (s : Machine) (node index : Nat) :
    Outcome (Nat × Machine) :=
  let readdir := s.mem.load32 (node + 300)
  if s.mem.load32 (node + 268) &&& 7 = fsDirectory ∧ readdir ≠ 0 then
    if readdir = env.rootReaddir then .done (rootReaddir env s node index)
    else if readdir = env.iso9660Readdir then iso9660Readdir env.toEnv fuel s node index
    else .panic "call of an address that is no readdir function"
  else .done (0, s)

/-- The loop of `ls`: what it prints, and the machine it leaves. -/
def lsLoop (env : ShellEnv) (fuel currentDir : Nat) :
    Nat → Machine → Nat → Outcome (List UInt8 × Machine)
  | 0, _, _ => .running
  | rounds + 1, s, i =>
    (readdirFs env fuel s currentDir i).bind fun (entry, s) =>
    if entry ≠ 0 then
      (printString fuel s.mem (entry + 4)).bind fun text =>
      (lsLoop env fuel currentDir rounds s ((i + 1) % 2 ^ 32)).map
        fun (rest, s) => (text ++ ascii "\n" ++ rest, s)
    else .done ([], s)

/-- The command `ls` of `shell_runcmd`. -/
def shellLs (env : ShellEnv) (fuel : Nat) (sh : Shell) : Outcome (List UInt8 × Shell) :=
  (lsLoop env fuel sh.currentDir fuel sh.machine 0).map fun (text, s) =>
    (text, ⟨sh.currentDir, s⟩)

/-- The command `filesize dest` of `shell_runcmd`. The node is not freed. -/
def shellFilesize (env : Env) (fuel : Nat) (sh : Shell) (dest : CString) :
    Outcome (List UInt8 × Shell) :=
  (finddirFs env fuel sh.machine sh.currentDir dest).bind fun (destNode, s) =>
  if destNode = 0 then
    .done (ascii "filesize: " ++ dest.bytes ++ ascii ": no such file or directory\n",
      ⟨sh.currentDir, s⟩)
  else if s.mem.load32 (destNode + 268) &&& 7 = fsDirectory then
    .done (ascii "filesize: " ++ dest.bytes ++ ascii ": is a directory\n", ⟨sh.currentDir, s⟩)
  else
    (printfInt fuel (intOf (s.mem.load32 (destNode + 276)))).map
      fun text => (text ++ ascii "\n", ⟨sh.currentDir, s⟩)

-- ---------------------------------------------------------------------------
-- Command lines
-- ---------------------------------------------------------------------------

/-- A byte in front of a string. -/
def CString.push (c : UInt8) (hc : c ≠ 0) (s : CString) : CString :=
  ⟨c :: s.bytes, by simpa [hc.symm] using s.nonzero⟩

/-- The string at `p`, if it ends within `fuel` bytes. -/
def stringAt : Nat → Mem → Nat → Outcome CString
  | 0, _, _ => .running
  | fuel + 1, m, p =>
    if hc : m p ≠ 0 then (stringAt fuel m (p + 1)).map (CString.push (m p) hc)
    else .done ⟨[], by simp⟩

/-- The bytes from `p` on are `text`, compared one by one from the left. -/
def startsWith (m : Mem) (p : Nat) : List UInt8 → Bool
  | [] => true
  | c :: cs => m p == c && startsWith m (p + 1) cs

/-- A command that acts on processes. -/
inductive ProcessCommand
  | dump
  | top
  | proctest
  | memtest
  | exit
deriving DecidableEq

/-- What a line asks for. -/
inductive Command
  | empty
  | uname
  | ls
  | cd (dest : CString)
  | cat (dest : CString)
  | filesize (dest : CString)
  | pwd
  | mem
  | process (command : ProcessCommand)
  | unknown
deriving DecidableEq

/-- The tests of `shell_runcmd`, in its order. -/
def shellCommand (fuel : Nat) (buffer : Mem) (len : Nat) : Outcome Command :=
  if len = 0 then .done .empty
  else if strEq buffer 0 (ascii "uname") then .done .uname
  else if strEq buffer 0 (ascii "ls") then .done .ls
  else if startsWith buffer 0 (ascii "cd ") then (stringAt fuel buffer 3).map .cd
  else if startsWith buffer 0 (ascii "cat ") then (stringAt fuel buffer 4).map .cat
  else if startsWith buffer 0 (ascii "filesize") then (stringAt fuel buffer 9).map .filesize
  else if strEq buffer 0 (ascii "pwd") then .done .pwd
  else if strEq buffer 0 (ascii "mem") then .done .mem
  else if strEq buffer 0 (ascii "dump") then .done (.process .dump)
  else if strEq buffer 0 (ascii "top") then .done (.process .top)
  else if strEq buffer 0 (ascii "proctest") then .done (.process .proctest)
  else if strEq buffer 0 (ascii "memtest") then .done (.process .memtest)
  else if strEq buffer 0 (ascii "exit") then .done (.process .exit)
  else .done .unknown

/-- What `cd dest` prints. -/
def CdReply.text (dest : CString) : CdReply → List UInt8
  | .quiet => []
  | .cannotGoUp => ascii "cd: cannot go up further\n"
  | .noSuchFile => ascii "cd: " ++ dest.bytes ++ ascii ": no such file or directory\n"
  | .isAFile => ascii "cd: " ++ dest.bytes ++ ascii ": is a file\n"

section Commands

/- The rest of the kernel, and what the commands on processes print and do
there. -/
variable {World : Type}
  (processCommand : ProcessCommand → World → Outcome (List UInt8 × World))

/-- One command: what it prints, and what it leaves. -/
def runCommand (env : ShellEnv) (fuel : Nat) (sh : Shell) (world : World) :
    Command → Outcome (List UInt8 × Shell × World)
  | .empty => .done ([], sh, world)
  | .uname => .done (ascii "HexOS\n", sh, world)
  | .ls => (shellLs env fuel sh).map fun (text, sh) => (text, sh, world)
  | .cd dest => (shellCd env.toEnv fuel sh dest).map fun (reply, sh) => (reply.text dest, sh, world)
  | .cat dest => (shellCat env.toEnv fuel sh dest).map fun (text, sh) => (text, sh, world)
  | .filesize dest => (shellFilesize env.toEnv fuel sh dest).map fun (text, sh) => (text, sh, world)
  -- `shell_pwd`
  | .pwd => .done (ascii "hex" ++ ascii "\n", sh, world)
  | .mem => .done (ascii "TODO: this\n", sh, world)
  | .process .exit => (processCommand .exit world).map
      fun (text, world) => (ascii "bye\n" ++ text, sh, world)
  | .process command => (processCommand command world).map fun (text, world) => (text, sh, world)
  | .unknown => .done (ascii "Unknown or invalid command!\n", sh, world)

/-- `shell_runcmd`. -/
def shellRuncmd (env : ShellEnv) (fuel : Nat) (buffer : Mem) (len : Nat) (sh : Shell)
    (world : World) : Outcome (List UInt8 × Shell × World) :=
  (shellCommand fuel buffer len).bind (runCommand processCommand env fuel sh world)

end Commands

-- ---------------------------------------------------------------------------
-- Characters
-- ---------------------------------------------------------------------------

/-- A call of the terminal. -/
inductive TermCall
  | putchar (c : UInt8)
  | deletechar
deriving DecidableEq

/-- The variables of `shell.c`, and the rest of the kernel. -/
structure Console (World : Type) where
  buffer : Mem
  len    : Nat
  shell  : Shell
  world  : World

/-- What a call of `shell_putchar` does: its calls of the terminal, the indices of
`shell_buffer` it writes, and the state it leaves. -/
structure Keystroke (World : Type) where
  calls   : List TermCall
  written : List Nat
  console : Console World

/-- `shell_putchar`. -/
def shellPutchar {World : Type}
    (processCommand : ProcessCommand → World → Outcome (List UInt8 × World)) (env : ShellEnv)
    (fuel : Nat) (s : Console World) (c : UInt8) : Outcome (Keystroke World) :=
  if c = 10 then
    (shellRuncmd processCommand env fuel s.buffer s.len s.shell s.world).map
      fun (text, sh, world) =>
        ⟨(ascii "\n" ++ text ++ ascii "> ").map .putchar, [0],
          ⟨s.buffer.store8 0 0, 0, sh, world⟩⟩
  else if c = 8 then
    if s.len ≤ 0 then .done ⟨[], [], s⟩
    else
      let len := s.len - 1
      .done ⟨[.deletechar], [len], { s with buffer := s.buffer.store8 len 0, len := len }⟩
  else if s.len > 254 then .done ⟨[], [], s⟩
  else
    let buffer := (s.buffer.store8 s.len c).store8 (s.len + 1) 0
    .done ⟨[.putchar c], [s.len, s.len + 1], { s with buffer := buffer, len := s.len + 1 }⟩

end Hexos
