import Hexos.Fs.Directory
import Hexos.Fs.Trace
import Hexos.Io.Blocks
import Hexos.Shell.Services

/-!
# HexOS — errors of the block device

`kernel/kernel/blockdevice.c`: a block is read with `atapi_read`, and what that
returns is dropped, since a `read_block_t` returns nothing. The calls of the file
system over the driver are compared with the same calls over a script, a device that
delivers one sector after another and never fails.

## Results

* `atapiRead_mem` — a read that returns 0 leaves the buffer as it was.
* `readBlock_scripted` — each read is one of a script.
* `Replays` — so is every part of a call, by the rules for its pieces.
* `device_errors_unreported` — the calls over the driver are calls over a script, in
  which a failed read has delivered what was in the buffer.
-/

namespace Hexos

open Mem Traced

-- ---------------------------------------------------------------------------
-- One block
-- ---------------------------------------------------------------------------

/-- **One block.** A read that returns 0 changes nothing, one that returns does not
write outside of the buffer. -/
theorem atapiRead_mem (inp : AtaInputs) (fuel id buffer offset : Nat) (s : AtaState) :
    SameOff s.mem (atapiRead inp fuel id buffer 1 offset s).2.1.mem buffer 2048 ∧
      ((atapiRead inp fuel id buffer 1 offset s).1 = some 0 →
        (atapiRead inp fuel id buffer 1 offset s).2.1.mem = s.mem) := by
  obtain ⟨-, -, j, hj, ⟨hMem, -⟩, -, hZero⟩ :=
    atapiRead_whole inp fuel id s.mem s.dataReads buffer 1 offset () s ⟨rfl, rfl⟩
  rw [hMem]
  refine ⟨(copyIn_sameOff _ _ _ _).sub (Nat.le_refl buffer) ?_, ?_⟩
  · have := Nat.mul_le_mul_right 2048 hj
    omega
  · intro hr
    have hNone : j = 0 := by
      have hLess := hZero hr
      have hOne : (1 : Int).toNat = 1 := rfl
      omega
    funext i
    rw [hNone]
    exact if_neg (by omega)

-- ---------------------------------------------------------------------------
-- The services over the driver
-- ---------------------------------------------------------------------------

/-- A block that was read: what `atapi_read` returned, and the memory from the buffer
on, before and after. -/
structure BlockRead where
  result    : Int
  before    : Mem
  delivered : Mem

/-- A machine with its disk, and the blocks read. -/
structure Attached where
  machine     : Machine
  statusReads : Nat
  clockReads  : Nat
  dataReads   : Nat
  reads       : List BlockRead

/-- `atapi_block_read` of one block; the metadata of a device is the number of its
drive. Nothing depends on the result of `atapi_read`. -/
def atapiBlockRead (inp : AtaInputs) (fuel : Nat) (a : Attached) (dev buffer offset : Nat) :
    Outcome Attached :=
  let ataNumber := (a.machine.mem (a.machine.mem.load32 (dev + 4))).toNat
  match atapiRead inp fuel ataNumber buffer 1 offset
    ⟨a.statusReads, a.clockReads, a.dataReads, a.machine.mem⟩ with
  | (none, _, _) => .running
  | (some result, s, _) =>
    .done ⟨{ a.machine with mem := s.mem }, s.statusReads, s.clockReads, s.dataReads,
      a.reads ++ [⟨result, window a.machine.mem buffer, window s.mem buffer⟩]⟩

/-- The services of the model, with the disk in the place of the device. -/
def driver (inp : AtaInputs) (fuel : Nat) : Services Attached where
  mem a := a.machine.mem
  setMem a m := { a with machine := { a.machine with mem := m } }
  kalloc a size := (a.machine.kalloc fuel size).map fun (ptr, s) => (ptr, { a with machine := s })
  kfree a ptr := (a.machine.kfree ptr).map fun s => { a with machine := s }
  readBlock a dev buffer lba := atapiBlockRead inp fuel a dev buffer lba

/-- A machine, and the sectors that a device will deliver. -/
structure Scripted where
  machine : Machine
  sectors : List Mem

/-- The services of the model, with a device that delivers the sectors of a script. -/
def script (fuel : Nat) : Services Scripted where
  mem a := a.machine.mem
  setMem a m := { a with machine := { a.machine with mem := m } }
  kalloc a size := (a.machine.kalloc fuel size).map fun (ptr, s) => (ptr, { a with machine := s })
  kfree a ptr := (a.machine.kfree ptr).map fun s => { a with machine := s }
  readBlock a _ buffer _ :=
    match a.sectors with
    | [] => .running
    | sec :: sectors =>
      .done ⟨{ a.machine with mem := a.machine.mem.copyIn buffer 2048 sec }, sectors⟩

/-- A call of the file system. -/
inductive FsCall
  | readdir (this i : Nat)
  | finddir (currentDir : Nat) (name : CString)
  | recreate (mini : FsNodeMini)

/-- The call, over the given services. -/
def FsCall.run {σ : Type} (o : Services σ) (env : Env) (fuel : Nat) (s : σ) :
    FsCall → Outcome (Nat × σ)
  | .readdir this i => o.readdir env fuel s this i
  | .finddir currentDir name => o.finddir env fuel s currentDir name
  | .recreate mini => o.recreate env fuel s mini

-- ---------------------------------------------------------------------------
-- Reads of a script
-- ---------------------------------------------------------------------------

section Calls

variable {env : Env} {inp : AtaInputs} {fuel : Nat} {a a' : Attached}

/-- The heap does not see the device. -/
theorem driver_matches_script (inp : AtaInputs) (fuel : Nat) (sectors : List Mem) :
    (driver inp fuel).Matches (script fuel) fun a => ⟨a.machine, sectors⟩ where
  mem _ := rfl
  setMem _ _ := rfl
  kalloc a size := by
    show ((a.machine.kalloc fuel size).map _).map _ = (a.machine.kalloc fuel size).map _
    rw [Outcome.map_map]
  kfree a ptr := by
    show ((a.machine.kfree ptr).map _).map _ = (a.machine.kfree ptr).map _
    rw [Outcome.map_map]

/-- It does not change the reads either. -/
theorem driver_matches_reads (inp : AtaInputs) (fuel : Nat) (reads : List BlockRead) :
    (driver inp fuel).Matches (driver inp fuel) fun a => { a with reads := reads } where
  mem _ := rfl
  setMem _ _ := rfl
  kalloc a size := by
    show ((a.machine.kalloc fuel size).map _).map _ = (a.machine.kalloc fuel size).map _
    rw [Outcome.map_map]
  kfree a ptr := by
    show ((a.machine.kfree ptr).map _).map _ = (a.machine.kfree ptr).map _
    rw [Outcome.map_map]

/-- The part of a call that reads no block: it is the same over a script, which it
leaves as it is. -/
theorem walk_scripted {walk : ∀ {σ : Type}, Services σ → σ → Outcome (Nat × σ)}
    (hMap : ∀ {σ τ : Type} {o : Services σ} {o' : Services τ}
      {f : σ → τ}, o.Matches o' f →
      ∀ s, (walk o s).map (fun (r, s) => (r, f s)) = walk o' (f s))
    {r : Nat} (h : walk (driver inp fuel) a = .done (r, a')) (sectors : List Mem) :
    a'.reads = a.reads ∧
      walk (script fuel) ⟨a.machine, sectors⟩ = .done (r, ⟨a'.machine, sectors⟩) := by
  constructor
  · have hReads := hMap (driver_matches_reads inp fuel a.reads) a
    rw [h] at hReads
    have hEq : Outcome.done (r, { a' with reads := a.reads }) = Outcome.done (r, a') := hReads
    obtain ⟨-, hEq⟩ := Prod.mk.inj (Outcome.done.inj hEq)
    exact (congrArg Attached.reads hEq).symm
  · have hScript := hMap (driver_matches_script inp fuel sectors) a
    rw [h] at hScript
    exact hScript.symm

/-- What was read is what a copy delivers. -/
theorem copyIn_window {m m' : Mem} {buffer : Nat} (h : SameOff m m' buffer 2048) :
    m.copyIn buffer 2048 (window m' buffer) = m' := by
  funext i
  unfold copyIn window
  split
  · next hIn => rw [show buffer + (i - buffer) = i by omega]
  · next hOut => exact (h i (by omega)).symm

/-- **A read.** Over a script that delivers what the buffer then held it is the same;
when `atapi_read` returned 0, that is what it held before. -/
theorem readBlock_scripted {dev buffer lba : Nat}
    (h : (driver inp fuel).readBlock a dev buffer lba = .done a') :
    ∃ b : BlockRead, a'.reads = a.reads ++ [b] ∧ (b.result = 0 → b.delivered = b.before) ∧
      ∀ sectors, (script fuel).readBlock ⟨a.machine, b.delivered :: sectors⟩ dev buffer lba =
        .done ⟨a'.machine, sectors⟩ := by
  have h' : atapiBlockRead inp fuel a dev buffer lba = .done a' := h
  unfold atapiBlockRead at h'
  simp only at h'
  obtain ⟨hFrame, hFailed⟩ := atapiRead_mem inp fuel
    (a.machine.mem (a.machine.mem.load32 (dev + 4))).toNat buffer lba
    ⟨a.statusReads, a.clockReads, a.dataReads, a.machine.mem⟩
  split at h'
  · cases h'
  · next result s log hRead =>
    rw [hRead] at hFrame hFailed
    obtain rfl := Outcome.done.inj h'
    refine ⟨_, rfl, ?_, ?_⟩
    · intro hZero
      show window s.mem buffer = window a.machine.mem buffer
      rw [hFailed (by rw [← hZero])]
    · intro sectors
      show Outcome.done _ = Outcome.done _
      rw [copyIn_window hFrame]

/-- The part of a call over the driver is replayed over a script: the sectors it uses
are what the buffers held after its reads. -/
def Replays (run : Attached → Outcome (Nat × Attached))
    (replay : Scripted → Outcome (Nat × Scripted)) : Prop :=
  ∀ a r a', run a = .done (r, a') → ∃ reads : List BlockRead, a'.reads = a.reads ++ reads ∧
    (∀ b ∈ reads, b.result = 0 → b.delivered = b.before) ∧
    ∀ sectors, replay ⟨a.machine, reads.map (·.delivered) ++ sectors⟩ =
      .done (r, ⟨a'.machine, sectors⟩)

namespace Replays

variable (inp : AtaInputs) (fuel : Nat)

/-- A part without a read. -/
theorem walk (walk : ∀ {σ : Type}, Services σ → σ → Outcome (Nat × σ))
    (hMap : ∀ {σ τ : Type} {o : Services σ} {o' : Services τ}
      {f : σ → τ}, o.Matches o' f →
      ∀ s, (walk o s).map (fun (r, s) => (r, f s)) = walk o' (f s)) :
    Replays (walk (driver inp fuel)) (walk (script fuel)) := by
  intro a r a' h
  refine ⟨[], ?_, by simp, fun sectors => (walk_scripted hMap h sectors).2⟩
  rw [(walk_scripted hMap h []).1, List.append_nil]

/-- An allocation, and what follows. -/
theorem kalloc (size : Nat) {run : Nat → Attached → Outcome (Nat × Attached)}
    {replay : Nat → Scripted → Outcome (Nat × Scripted)}
    (h : ∀ ptr, Replays (run ptr) (replay ptr)) :
    Replays (fun a => ((driver inp fuel).kalloc a size).bind fun (ptr, a) => run ptr a)
      (fun s => ((script fuel).kalloc s size).bind fun (ptr, s) => replay ptr s) := by
  intro a r a' hRun
  obtain ⟨⟨ptr, a₁⟩, hAlloc, hRun⟩ := Outcome.bind_eq_done.mp hRun
  have hScripted := walk_scripted (fun hMatches s => hMatches.kalloc s size) hAlloc
  obtain ⟨reads, hReads, hFailed, hReplay⟩ := h ptr a₁ r a' hRun
  refine ⟨reads, by rw [hReads, (hScripted []).1], hFailed, ?_⟩
  intro sectors
  exact Outcome.bind_eq_done.mpr ⟨_, (hScripted _).2, hReplay sectors⟩

/-- A read, and what follows. Where it reads, and what follows, depend on the memory
before. -/
theorem readBlock (dev lba : Mem → Nat) (buffer : Nat)
    {run : Mem → Attached → Outcome (Nat × Attached)}
    {replay : Mem → Scripted → Outcome (Nat × Scripted)}
    (h : ∀ m, Replays (run m) (replay m)) :
    Replays
      (fun a => ((driver inp fuel).readBlock a (dev a.machine.mem) buffer (lba a.machine.mem)).bind
        (run a.machine.mem))
      (fun s => ((script fuel).readBlock s (dev s.machine.mem) buffer (lba s.machine.mem)).bind
        (replay s.machine.mem)) := by
  intro a r a' hRun
  obtain ⟨a₁, hRead, hRun⟩ := Outcome.bind_eq_done.mp hRun
  obtain ⟨b, hReads₁, hFailed₁, hRead⟩ := readBlock_scripted hRead
  obtain ⟨reads, hReads, hFailed, hReplay⟩ := h a.machine.mem a₁ r a' hRun
  refine ⟨b :: reads, ?_, List.forall_mem_cons.mpr ⟨hFailed₁, hFailed⟩, ?_⟩
  · rw [hReads, hReads₁, List.append_assoc, List.singleton_append]
  · intro sectors
    exact Outcome.bind_eq_done.mpr ⟨_, hRead _, hReplay sectors⟩

end Replays

/-- **Device errors.** For every volume and every behaviour of the disk, a call that
returns does what it does over a device that never fails and delivers, block by block,
what the buffers then held; for a block whose `atapi_read` returned 0 that is what the
buffer held before. -/
theorem device_errors_unreported (env : Env) (inp : AtaInputs) (fuel : Nat) (a : Attached)
    (call : FsCall) (r : Nat) (a' : Attached)
    (hRun : call.run (driver inp fuel) env fuel a = .done (r, a')) :
    ∃ reads, a'.reads = a.reads ++ reads ∧
      (∀ b ∈ reads, b.result = 0 → b.delivered = b.before) ∧
      call.run (script fuel) env fuel ⟨a.machine, reads.map (·.delivered)⟩ =
        .done (r, ⟨a'.machine, []⟩) := by
  have hReplays :
      Replays (call.run (driver inp fuel) env fuel) (call.run (script fuel) env fuel) := by
    cases call with
    | readdir this i =>
      exact .kalloc inp fuel 2048 fun buffer => .readBlock inp fuel
        (fun m => m.load32 (m.load32 (this + 280))) (fun m => m.load32 (this + 272)) buffer
        fun _ => .walk inp fuel (fun o s => o.readdirWalk env fuel s buffer i)
          fun hMatches s => Services.readdirWalk_map hMatches s buffer i
    | finddir currentDir name =>
      exact .kalloc inp fuel 2048 fun buffer => .readBlock inp fuel
        (fun m => m.load32 (m.load32 (currentDir + 280)))
        (fun m => m.load32 (currentDir + 272)) buffer
        fun m => .walk inp fuel
          (fun o s => o.finddirWalk env fuel s buffer (m.load32 (currentDir + 280)) currentDir name)
          fun hMatches s => Services.finddirWalk_map hMatches s buffer _ currentDir name
    | recreate mini =>
      exact .kalloc inp fuel sizeofFsNode fun _ => .kalloc inp fuel 2048 fun entryBuffer =>
        .readBlock inp fuel (fun m => m.load32 mini.impl) (fun _ => mini.inode) entryBuffer fun _ =>
        .kalloc inp fuel 2048 fun tableBuffer =>
        .readBlock inp fuel (fun m => m.load32 mini.impl)
          (fun _ => iso9660Offset) tableBuffer fun _ =>
        .readBlock inp fuel (fun m => m.load32 mini.impl) (fun m => m.load32 (tableBuffer + 140))
          tableBuffer fun _ =>
        .walk inp fuel (fun o s => o.recreateScan env fuel s entryBuffer tableBuffer mini)
          fun hMatches s => Services.recreateScan_map hMatches s entryBuffer tableBuffer mini
  obtain ⟨reads, hReads, hFailed, hReplay⟩ := hReplays a r a' hRun
  refine ⟨reads, hReads, hFailed, ?_⟩
  rw [← hReplay [], List.append_nil]

end Calls

-- ---------------------------------------------------------------------------
-- A disk that fails
-- ---------------------------------------------------------------------------

/-- A disk with the error bit set, and a clock that ticks. -/
def failingDisk : AtaInputs where
  status _ := 0x01
  clock k := ⟨0, k⟩
  data _ := 0
  interruptActive := false
  woken := false

/-- A listing of the mounted volume, and then another one with the disk failing. -/
theorem sample_listings :
    ∃ sh first s a', sampleShell sampleDisk = some sh ∧
      iso9660Readdir (sampleEnv sampleDisk) 600 sh.machine 0x3000 0 = .done (first, s) ∧
      FsCall.run (driver failingDisk 600) (sampleEnv sampleDisk) 600 ⟨s, 0, 0, 0, []⟩
        (.readdir 0x3000 0) = .done (0x4000, a') ∧ a'.reads.map (·.result) = [0] := by
  have hEval : (sampleShell sampleDisk).map (fun sh =>
      (iso9660Readdir (sampleEnv sampleDisk) 600 sh.machine 0x3000 0).toOption.map fun (_, s) =>
        (FsCall.run (driver failingDisk 600) (sampleEnv sampleDisk) 600 ⟨s, 0, 0, 0, []⟩
          (.readdir 0x3000 0)).toOption.map fun (r, a) => (r, a.reads.map (·.result))) =
      some (some (some (0x4000, [0]))) := by decide +kernel
  obtain ⟨sh, hShell, hEval⟩ := Option.map_eq_some_iff.mp hEval
  obtain ⟨⟨first, s⟩, hFirst, hEval⟩ := Option.map_eq_some_iff.mp hEval
  obtain ⟨⟨r, a'⟩, hSecond, hEval⟩ := Option.map_eq_some_iff.mp hEval
  obtain ⟨rfl, hReads⟩ := Prod.mk.inj hEval
  exact ⟨sh, first, s, a', hShell, Outcome.toOption_eq_some.mp hFirst,
    Outcome.toOption_eq_some.mp hSecond, hReads⟩

/-- The second listing is that of the bytes the first one has left in the heap. -/
theorem failed_listing_scripted :
    ∃ sh first s a' b, sampleShell sampleDisk = some sh ∧
      iso9660Readdir (sampleEnv sampleDisk) 600 sh.machine 0x3000 0 = .done (first, s) ∧
      FsCall.run (driver failingDisk 600) (sampleEnv sampleDisk) 600 ⟨s, 0, 0, 0, []⟩
        (.readdir 0x3000 0) = .done (0x4000, a') ∧ a'.reads = [b] ∧ b.result = 0 ∧
      FsCall.run (script 600) (sampleEnv sampleDisk) 600 ⟨s, [b.before]⟩ (.readdir 0x3000 0) =
        .done (0x4000, ⟨a'.machine, []⟩) := by
  obtain ⟨sh, first, s, a', hShell, hFirst, hSecond, hResult⟩ := sample_listings
  obtain ⟨reads, hReads, hFailed, hScript⟩ :=
    device_errors_unreported (sampleEnv sampleDisk) failingDisk
    600 ⟨s, 0, 0, 0, []⟩ (.readdir 0x3000 0) 0x4000 a' hSecond
  rw [List.nil_append] at hReads
  obtain ⟨b, hOne⟩ : ∃ b, reads = [b] := by
    have hLength := congrArg List.length hResult
    rw [List.length_map, hReads] at hLength
    exact List.length_eq_one_iff.mp hLength
  subst hOne
  have hZero : b.result = 0 := by simpa [hReads] using hResult
  refine ⟨sh, first, s, a', b, hShell, hFirst, hSecond, hReads, hZero, ?_⟩
  rw [← hFailed b (by simp) hZero]
  exact hScript

/-- The read of the second listing returns 0, and the call an entry. -/
theorem failed_read_returns_entry :
    ∃ sh first s r a', sampleShell sampleDisk = some sh ∧
      iso9660Readdir (sampleEnv sampleDisk) 600 sh.machine 0x3000 0 = .done (first, s) ∧
      FsCall.run (driver failingDisk 600) (sampleEnv sampleDisk) 600 ⟨s, 0, 0, 0, []⟩
        (.readdir 0x3000 0) = .done (r, a') ∧
      (∃ b ∈ a'.reads, b.result = 0) ∧ r ≠ 0 := by
  obtain ⟨sh, first, s, a', hShell, hFirst, hSecond, hResult⟩ := sample_listings
  obtain ⟨b, hb, hZero⟩ :=
    List.mem_map.mp (by rw [hResult]; simp : (0 : Int) ∈ a'.reads.map (·.result))
  exact ⟨sh, first, s, 0x4000, a', hShell, hFirst, hSecond, ⟨b, hb, hZero⟩, by omega⟩

end Hexos
