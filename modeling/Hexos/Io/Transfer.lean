import Hexos.Clock.Definitions
import Hexos.Lib.Memory
import Hexos.Lib.Traced
import Mathlib.Algebra.Group.Int.Defs

/-!
# HexOS — transfers to and from a disk

`kernel/kernel/io/ata.c`: `ata_wait`, the commands and the loops over the blocks,
with the clock functions of `clock.c` they use. What the code reads (the status
register, the clock, the data register) comes from sequences, one value for each
read; what it does at the ports is the log. The messages are left out, and
the mutex around each operation is a matter of `Hexos.Io.Blocks`.

`atapi_begin` has a `;` behind the `if` of its third wait: it writes the packet
whether the wait succeeded or failed.

## Results

* `Silent.ataReset`, `Quiet.ataWait` — what commands, the clock and waits leave
  alone.
* `checked` — a part whose result is checked.
-/

namespace Hexos

open Traced

-- ---------------------------------------------------------------------------
-- The machine
-- ---------------------------------------------------------------------------

/-- What the code reads: the status register, the clock and the data register, each
read giving the next value; `ata_interrupt_active`, and whether the interrupt
comes that ends a `process_wait`. -/
structure AtaInputs where
  status          : Nat → BitVec 8
  clock           : Nat → ClockTime
  data            : Nat → BitVec 16
  interruptActive : Bool
  woken           : Bool

/-- How many values have been read, and the memory. -/
structure AtaState where
  statusReads : Nat
  clockReads  : Nat
  dataReads   : Nat
  mem         : Mem

/-- What the code does at the ports, and the `ata_wait` calls that returned with
the last status they read. -/
inductive AtaEvent
  | outb (port value : Nat)
  | wait (mask state status : BitVec 8) (result : Bool)
  | pioRead (id buffer size : Nat)
  | pioWrite (id : Nat) (words : List Nat)

/-- A driver routine. -/
abbrev Driver (α : Type) := Traced AtaState AtaEvent α

/-- `inb(ata_base[id]+ATA_STATUS)`. -/
def inbStatus (inp : AtaInputs) : Driver (BitVec 8) :=
  update fun s => (inp.status s.statusReads, { s with statusReads := s.statusReads + 1 })

/-- `clock_read`. -/
def clockRead (inp : AtaInputs) : Driver ClockTime :=
  update fun s => (inp.clock s.clockReads, { s with clockReads := s.clockReads + 1 })

/-- The loop of `clock_wait`. -/
def clockWaitLoop (inp : AtaInputs) (millis : Nat) (start : ClockTime) : Nat → Driver Unit
  | 0 => running
  | fuel + 1 => do
    let now ← clockRead inp
    let elapsed := clockDiff start now
    let total := (elapsed.millis + elapsed.seconds * 1000) % 2 ^ 32
    if total < millis then clockWaitLoop inp millis start fuel else pure ()

/-- `clock_wait`. -/
def clockWait (inp : AtaInputs) (fuel millis : Nat) : Driver Unit := do
  let start ← clockRead inp
  clockWaitLoop inp millis start fuel

/-- `process_wait(&queue)` if `ata_interrupt_active`. -/
def waitQueue (inp : AtaInputs) : Driver Unit :=
  if inp.interruptActive && !inp.woken then running else pure ()

/-- `ata_base`. -/
def ataBase (id : Nat) : Nat := [0x1F0, 0x1F0, 0x170, 0x170].getD id 0

/-- `ATA_STATUS_BSY`. -/
def statusBsy : BitVec 8 := 0x80

/-- `ATA_STATUS_RDY`. -/
def statusRdy : BitVec 8 := 0x40

/-- `ATA_STATUS_DRQ`. -/
def statusDrq : BitVec 8 := 0x08

/-- `ATA_STATUS_ERR`. -/
def statusErr : BitVec 8 := 0x01

-- ---------------------------------------------------------------------------
-- Waiting for the device
-- ---------------------------------------------------------------------------

/-- A sequence of `outb` calls, each of a port and the value whose low byte is
written. -/
def outbs : List (Nat × Nat) → Driver Unit
  | [] => pure ()
  | (port, value) :: rest => do
    emit (.outb port (value % 256))
    outbs rest

/-- `ata_reset`. -/
def ataReset (inp : AtaInputs) (fuel id : Nat) : Driver Unit := do
  outbs [(ataBase id + 0x206, 4)]
  clockWait inp fuel 1
  outbs [(ataBase id + 0x206, 0)]
  clockWait inp fuel 1

/-- `ata_wait` fails: the controller is reset. -/
def ataWaitFail (inp : AtaInputs) (fuel id : Nat) (mask state t : BitVec 8) : Driver Bool := do
  ataReset inp fuel id
  emit (.wait mask state t false)
  pure false

/-- The loop of `ata_wait`. -/
def ataWaitLoop (inp : AtaInputs) (fuel id : Nat) (mask state : BitVec 8) (start : ClockTime) :
    Nat → Driver Bool
  | 0 => running
  | rounds + 1 => do
    let t ← inbStatus inp
    if t &&& mask = state then do
      emit (.wait mask state t true)
      pure true
    else if t &&& statusErr ≠ 0 then ataWaitFail inp fuel id mask state t
    else do
      let now ← clockRead inp
      -- ATA_TIMEOUT
      if (clockDiff start now).seconds > 2 then ataWaitFail inp fuel id mask state t
      else do
        clockWait inp fuel 0
        ataWaitLoop inp fuel id mask state start rounds

/-- `ata_wait`. -/
def ataWait (inp : AtaInputs) (fuel id : Nat) (mask state : BitVec 8) : Driver Bool := do
  let start ← clockRead inp
  ataWaitLoop inp fuel id mask state start fuel

-- ---------------------------------------------------------------------------
-- Data
-- ---------------------------------------------------------------------------

/-- The loop of `ata_pio_read`, for `n` more words. -/
def pioReadWords (inp : AtaInputs) (s : AtaState) (buffer : Nat) : Nat → AtaState
  | 0 => s
  | n + 1 =>
    let w := (inp.data s.dataReads).toNat
    let mem := (s.mem.store8 buffer (UInt8.ofNat w)).store8 (buffer + 1) (UInt8.ofNat (w / 256))
    pioReadWords inp { s with dataReads := s.dataReads + 1, mem := mem } (buffer + 2) n

/-- `ata_pio_read`. -/
def ataPioRead (inp : AtaInputs) (id buffer size : Nat) : Driver Unit := do
  emit (.pioRead id buffer size)
  update fun s => ((), pioReadWords inp s buffer ((size + 1) / 2))

/-- The words of the `size` bytes at `buffer`. -/
def wordsAt (m : Mem) (buffer size : Nat) : List Nat :=
  (List.range ((size + 1) / 2)).map fun k => m.load16 (buffer + 2 * k)

/-- `ata_pio_write`. -/
def ataPioWrite (id : Nat) (words : List Nat) : Driver Unit := emit (.pioWrite id words)

-- ---------------------------------------------------------------------------
-- Commands
-- ---------------------------------------------------------------------------

/-- The flags of a drive: error correction, linear addressing, and the slave bit
for odd-numbered drives. -/
def driveFlags (id : Nat) : Nat := 0x80 ||| 0x40 ||| 0x20 ||| (if id % 2 ≠ 0 then 0x10 else 0)

/-- The second wait of `ata_begin`. ATAPI identification does not raise the RDY
flag. -/
def waitReady (inp : AtaInputs) (fuel id command : Nat) : Driver Bool :=
  if command = 0xA1 then ataWait inp fuel id statusBsy 0
  else ataWait inp fuel id (statusBsy ||| statusRdy) statusRdy

/-- `ata_begin`. -/
def ataBegin (inp : AtaInputs) (fuel id command : Nat) (nblocks : Int) (offset : Nat) :
    Driver Bool := do
  let base := ataBase id
  let flags := driveFlags id ||| (offset / 2 ^ 24 &&& 0x0F)
  -- wait for the disk to calm down
  let calm ← ataWait inp fuel id statusBsy 0
  if calm = false then pure false
  else do
    -- get the attention of the proper disk
    outbs [(base + 6, flags)]
    let ready ← waitReady inp fuel id command
    if ready = false then pure false
    else do
      -- send the arguments, and execute the command
      outbs [(base + 0x206, 0), (base + 2, (nblocks % 256).toNat), (base + 3, offset &&& 0xFF),
        (base + 4, offset / 2 ^ 8 &&& 0xFF), (base + 5, offset / 2 ^ 16 &&& 0xFF),
        (base + 6, flags), (base + 7, command)]
      pure true

/-- `atapi_begin`, of the packet `data`. Nothing depends on the result of the third
wait. -/
def atapiBegin (inp : AtaInputs) (fuel id : Nat) (data : Mem) (length : Nat) : Driver Bool := do
  let base := ataBase id
  -- wait for the disk to calm down
  let calm ← ataWait inp fuel id statusBsy 0
  if calm = false then pure false
  else do
    -- get the attention of the proper disk
    outbs [(base + 6, driveFlags id)]
    -- wait again for the disk to indicate ready
    let ready ← ataWait inp fuel id statusBsy 0
    if ready = false then pure false
    else do
      -- send the arguments, and execute the command
      outbs [(base + 1, 0), (base + 2, 0), (base + 3, 0), (base + 4, length &&& 0xFF),
        (base + 5, length / 2 ^ 8), (base + 7, 0xA0)]
      -- wait for ready
      let _ ← ataWait inp fuel id (statusBsy ||| statusDrq) statusDrq
      -- send the ATAPI packet
      ataPioWrite id (wordsAt data 0 length)
      pure true

/-- The loop over `n` more blocks of the read functions; `false` if a wait failed. -/
def readBlocks (inp : AtaInputs) (fuel id size : Nat) : Nat → Nat → Driver Bool
  | 0, _ => pure true
  | n + 1, buffer => do
    let requested ← ataWait inp fuel id statusDrq statusDrq
    if requested = false then pure false
    else do
      ataPioRead inp id buffer size
      readBlocks inp fuel id size n (buffer + size)

/-- The loop of `ata_write_unlocked`. -/
def writeBlocks (inp : AtaInputs) (fuel id size : Nat) : Nat → Nat → Driver Bool
  | 0, _ => pure true
  | n + 1, buffer => do
    let requested ← ataWait inp fuel id statusDrq statusDrq
    if requested = false then pure false
    else do
      let words ← update fun s => (wordsAt s.mem buffer size, s)
      ataPioWrite id words
      writeBlocks inp fuel id size n (buffer + size)

-- ---------------------------------------------------------------------------
-- Operations
-- ---------------------------------------------------------------------------

/-- `ata_read`, with `ATA_BLOCKSIZE` 512. -/
def ataRead (inp : AtaInputs) (fuel id buffer : Nat) (nblocks : Int) (offset : Nat) :
    Driver Int := do
  let begun ← ataBegin inp fuel id 0x20 nblocks offset
  if begun = false then pure 0
  else do
    waitQueue inp
    let moved ← readBlocks inp fuel id 512 nblocks.toNat buffer
    if moved = false then pure 0
    else do
      let calm ← ataWait inp fuel id statusBsy 0
      if calm = false then pure 0 else pure nblocks

/-- `ata_write`. -/
def ataWrite (inp : AtaInputs) (fuel id buffer : Nat) (nblocks : Int) (offset : Nat) :
    Driver Int := do
  let begun ← ataBegin inp fuel id 0x30 nblocks offset
  if begun = false then pure 0
  else do
    let moved ← writeBlocks inp fuel id 512 nblocks.toNat buffer
    if moved = false then pure 0
    else do
      waitQueue inp
      let calm ← ataWait inp fuel id statusBsy 0
      if calm = false then pure 0 else pure nblocks

/-- The packet of `atapi_read_unlocked`, `SCSI_READ10`. -/
def readPacket (nblocks : Int) (offset : Nat) : List UInt8 :=
  [0x28, 0, UInt8.ofNat (offset / 2 ^ 24), UInt8.ofNat (offset / 2 ^ 16),
    UInt8.ofNat (offset / 2 ^ 8), UInt8.ofNat offset, 0, UInt8.ofNat (nblocks / 2 ^ 8 % 256).toNat,
    UInt8.ofNat (nblocks % 256).toNat, 0, 0, 0]

/-- `atapi_read`, with `ATAPI_BLOCKSIZE` 2048. -/
def atapiRead (inp : AtaInputs) (fuel id buffer : Nat) (nblocks : Int) (offset : Nat) :
    Driver Int := do
  let begun ← atapiBegin inp fuel id (fun i => (readPacket nblocks offset).getD i 0) 12
  if begun = false then pure 0
  else do
    waitQueue inp
    let moved ← readBlocks inp fuel id 2048 nblocks.toNat buffer
    if moved = false then pure 0 else pure 1

/-- `ata_identify`. -/
def ataIdentify (inp : AtaInputs) (fuel id command buffer : Nat) : Driver Int := do
  let begun ← ataBegin inp fuel id command 0 0
  if begun = false then pure 0
  else do
    let requested ← ataWait inp fuel id statusDrq statusDrq
    if requested = false then pure 0
    else do
      ataPioRead inp id buffer 512
      pure 1

/-- A call of one of the operations. -/
inductive AtaOp
  | read (id buffer : Nat) (nblocks : Int) (offset : Nat)
  | write (id buffer : Nat) (nblocks : Int) (offset : Nat)
  | atapiRead (id buffer : Nat) (nblocks : Int) (offset : Nat)
  | identify (id command buffer : Nat)

/-- The call. -/
def AtaOp.call (inp : AtaInputs) (fuel : Nat) : AtaOp → Driver Int
  | .read id buffer nblocks offset => ataRead inp fuel id buffer nblocks offset
  | .write id buffer nblocks offset => ataWrite inp fuel id buffer nblocks offset
  | .atapiRead id buffer nblocks offset => Hexos.atapiRead inp fuel id buffer nblocks offset
  | .identify id command buffer => ataIdentify inp fuel id command buffer

-- ---------------------------------------------------------------------------
-- Rules for the parts
-- ---------------------------------------------------------------------------

section Rules

variable {q : Type} {δ : q → AtaEvent → Option q} {P : q → AtaState → Prop}

/-- A property of phases and states that commands and the clock leave alone. -/
structure Silent (δ : q → AtaEvent → Option q) (P : q → AtaState → Prop) : Prop where
  outb     : ∀ p s port value, P p s → ∃ p', δ p (.outb port value) = some p' ∧ P p' s
  counters : ∀ p s statusReads clockReads, P p s →
    P p { s with statusReads := statusReads, clockReads := clockReads }

/-- Waits leave it alone too. -/
structure Quiet (δ : q → AtaEvent → Option q) (P : q → AtaState → Prop) :
    Prop extends Silent δ P where
  wait : ∀ p s mask state t result, P p s →
    ∃ p', δ p (.wait mask state t result) = some p' ∧ P p' s

namespace Silent

theorem outbs (h : Silent δ P) (l : List (Nat × Nat)) : Triple δ P (outbs l) fun _ => P := by
  induction l with
  | nil => exact Triple.pure fun _ _ hp => hp
  | cons pv l ih => exact Triple.bind_emit (fun p s hp => h.outb p s _ _ hp) ih

theorem clockWait (h : Silent δ P) (inp : AtaInputs) (fuel millis : Nat) :
    Triple δ P (clockWait inp fuel millis) fun _ => P := by
  have hLoop : ∀ start rounds,
      Triple δ P (clockWaitLoop inp millis start rounds) fun _ => P := by
    intro start rounds
    induction rounds with
    | zero => exact Triple.running fun _ _ hp => hp
    | succ rounds ih =>
      refine Triple.bind_update (R := fun _ => P) (fun p s hp => h.counters p s _ _ hp) ?_
      intro now
      dsimp only
      split
      · exact ih
      · exact Triple.pure fun _ _ hp => hp
  exact Triple.bind_update (R := fun _ => P) (fun p s hp => h.counters p s _ _ hp)
    fun start => hLoop start fuel

theorem ataReset (h : Silent δ P) (inp : AtaInputs) (fuel id : Nat) :
    Triple δ P (ataReset inp fuel id) fun _ => P :=
  Triple.bind (h.outbs _) (fun _ => Triple.bind (h.clockWait inp fuel 1)
    (fun _ => Triple.bind (h.outbs _) (fun _ => h.clockWait inp fuel 1) fun _ _ hp => hp)
    fun _ _ hp => hp) fun _ _ hp => hp

end Silent

namespace Quiet

theorem ataWaitFail (h : Quiet δ P) (inp : AtaInputs) (fuel id : Nat) (mask state t : BitVec 8) :
    Triple δ P (ataWaitFail inp fuel id mask state t) fun _ => P := by
  exact Triple.bind (h.ataReset inp fuel id)
    (fun _ => Triple.bind_emit (fun p s hp => h.wait p s _ _ _ _ hp)
    (Triple.pure fun _ _ hp => hp)) fun _ _ hp => hp

/-- A wait moves no data. The induction is on the rounds of the loop. -/
theorem ataWait (h : Quiet δ P) (inp : AtaInputs) (fuel id : Nat) (mask state : BitVec 8) :
    Triple δ P (ataWait inp fuel id mask state) fun _ => P := by
  have hLoop : ∀ start rounds,
      Triple δ P (ataWaitLoop inp fuel id mask state start rounds) fun _ => P := by
    intro start rounds
    induction rounds with
    | zero => exact Triple.running fun _ _ hp => hp
    | succ rounds ih =>
      refine Triple.bind_update (R := fun _ => P) (fun p s hp => h.counters p s _ _ hp) ?_
      intro t
      split
      · exact Triple.bind_emit (fun p s hp => h.wait p s _ _ _ _ hp) (Triple.pure fun _ _ hp => hp)
      · split
        · exact h.ataWaitFail inp fuel id mask state t
        · refine Triple.bind_update (R := fun _ => P) (fun p s hp => h.counters p s _ _ hp) ?_
          intro now
          split
          · exact h.ataWaitFail inp fuel id mask state t
          · exact Triple.bind (h.clockWait inp fuel 0) (fun _ => ih) fun _ _ hp => hp
  exact Triple.bind_update (R := fun _ => P) (fun p s hp => h.counters p s _ _ hp)
    fun start => hLoop start fuel

theorem waitReady (h : Quiet δ P) (inp : AtaInputs) (fuel id command : Nat) :
    Triple δ P (waitReady inp fuel id command) fun _ => P := by
  unfold Hexos.waitReady
  split <;> exact h.ataWait inp fuel id _ _

end Quiet

/-- `process_wait` on the queue of the drive. -/
theorem waitQueue_keeps (inp : AtaInputs) : Triple δ P (waitQueue inp) fun _ => P := by
  unfold waitQueue
  split
  · exact Triple.running fun _ _ hp => hp
  · exact Triple.pure fun _ _ hp => hp

/-- A part whose result is checked: `if(!f) return z;` and then the rest. -/
theorem checked {α : Type} {f : Driver Bool} {g : Driver α} {z : α}
    {Q : Option α → q → AtaState → Prop}
    (hf : Triple δ P f fun _ => P) (hg : Triple δ P g Q)
    (hFailed : ∀ p s, P p s → Q (some z) p s) (hRunning : ∀ p s, P p s → Q none p s) :
    Triple δ P (do let ok ← f; if ok = false then pure z else g) Q := by
  refine Triple.bind hf ?_ hRunning
  intro ok
  split
  · exact Triple.pure hFailed
  · exact hg

end Rules

end Hexos
