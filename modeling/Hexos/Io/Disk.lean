import Hexos.Io.Addressing
import Hexos.Lib.Storage

/-!
# HexOS — the disk behind the driver

`ata_read_unlocked` and `ata_write_unlocked` of `kernel/kernel/io/ata.c` against two
controllers with two drives each. A controller keeps what was last written to its
registers, takes a command when it is written, and moves one block of the drive in
each burst; a reset ends the command. When it is ready, how long it takes and which
requests it fails is up to it: all this is in the sequences that the driver reads.

The abstract disk is a store of blocks.

## Results

* `ataRead_effect`, `ataWrite_effect` — one call.
* `disk_refines_store` — any sequence of calls, with other code between them.
* `read_after_write` — a block read back.
-/

namespace Hexos

open BlockStore Mem Traced

-- ---------------------------------------------------------------------------
-- The controllers
-- ---------------------------------------------------------------------------

/-- The 256 words of a block. -/
abbrev Block := Fin 256 → BitVec 16

/-- The blocks of the four drives. -/
abbrev Drives := Store Nat Block

/-- A command that is being carried out: the drive, the next block, and how many blocks are
left. -/
structure Transfer where
  write : Bool
  drive : Nat
  lba   : Nat
  left  : Nat

/-- The two controllers: the registers, the commands by the base port, the drives, and how many
words they have supplied. -/
structure Controllers where
  ports    : Ports
  transfer : Nat → Option Transfer
  drives   : Drives
  supplied : Nat

namespace Controllers

/-- The number of the drive that a drive bit selects. -/
def driveId (base bit : Nat) : Nat := (if base = 0x170 then 2 else 0) + bit

/-- The command register is written. -/
def execute (c : Controllers) (base command : Nat) : Controllers :=
  let transfer := (decodeLba28 base c.ports).bind fun a =>
    if command = 0x20 then some ⟨false, driveId base a.1, a.2.lba, a.2.count⟩
    else if command = 0x30 then some ⟨true, driveId base a.1, a.2.lba, a.2.count⟩
    else none
  { c with transfer := Function.update c.transfer base transfer }

/-- A register is written: the command registers and the two that reset do something. -/
def outb (c : Controllers) (port value : Nat) : Controllers :=
  let c := { c with ports := Function.update c.ports port value }
  if port = 0x1F7 ∨ port = 0x177 then c.execute (port - 7) value
  else if (port = 0x3F6 ∨ port = 0x376) ∧ value / 4 % 2 = 1 then
    { c with transfer := Function.update c.transfer (port - 0x206) none }
  else c

/-- The transfer after one more block. -/
def advance (c : Controllers) (base : Nat) (t : Transfer) : Controllers :=
  { c with transfer :=
    Function.update c.transfer base (some { t with lba := t.lba + 1, left := t.left - 1 }) }

end Controllers

/-- The controllers as a monitor of what the driver does. A burst without a command that
asks for it is rejected; `none` is a controller that supplied other data than its
drive holds, which says nothing any more. -/
def diskMonitor (inp : AtaInputs) : Option Controllers → AtaEvent → Option (Option Controllers)
  | none, _ => some none
  | some c, .outb port value => some (some (c.outb port value))
  | some c, .wait _ _ _ _ => some (some c)
  | some c, .pioRead id _ size =>
      match c.transfer (ataBase id) with
      | none => none
      | some t =>
          if t.write = false ∧ 0 < t.left ∧ size = 512 then
            if ∀ k : Fin 256, inp.data (c.supplied + k) = c.drives t.drive t.lba k then
              some (some { c.advance (ataBase id) t with supplied := c.supplied + 256 })
            else some none
          else none
  | some c, .pioWrite id words =>
      match c.transfer (ataBase id) with
      | none => none
      | some t =>
          if t.write = true ∧ 0 < t.left ∧ words.length = 256 then
            some (some { c.advance (ataBase id) t with
              drives := c.drives.put t.drive t.lba 1 fun _ k => BitVec.ofNat 16 (words.getD k 0) })
          else none

-- ---------------------------------------------------------------------------
-- Blocks in memory
-- ---------------------------------------------------------------------------

/-- Block number `i` of the buffer. -/
def blockAt (m : Mem) (buffer i : Nat) : Block := fun k =>
  BitVec.ofNat 16 (m.load16 (buffer + 512 * i + 2 * k))

/-- The bytes of a drive from block `lba` on. -/
def bytesOf (S : Drives) (d lba : Nat) : Mem := fun i =>
  let w := (S d (lba + i / 512) ⟨i % 512 / 2, by omega⟩).toNat
  if i % 2 = 0 then UInt8.ofNat w else UInt8.ofNat (w / 256)

-- ---------------------------------------------------------------------------
-- Rules
-- ---------------------------------------------------------------------------

variable (inp : AtaInputs) (fuel id : Nat) (S : Drives) (m : Mem)

/-- Unless a controller has supplied other data: the drives hold `S`, the memory `m`, and every
word that was supplied has been read. -/
def DisksHold (p : Option Controllers) (s : AtaState) : Prop :=
  ∀ c, p = some c → c.drives = S ∧ s.mem = m ∧ c.supplied = s.dataReads

/-- In addition the controller of drive `id` is carrying out the command `t`. -/
def DiskServes (t : Transfer) (p : Option Controllers) (s : AtaState) : Prop :=
  ∀ c, p = some c → c.drives = S ∧ s.mem = m ∧ c.supplied = s.dataReads ∧
    c.transfer (ataBase id) = some t

theorem DiskServes.holds {t : Transfer} {p : Option Controllers} {s : AtaState}
    (h : DiskServes id S m t p s) : DisksHold S m p s :=
  fun c hc => ⟨(h c hc).1, (h c hc).2.1, (h c hc).2.2.1⟩

theorem outb_drives (c : Controllers) (port value : Nat) :
    (c.outb port value).drives = c.drives ∧ (c.outb port value).supplied = c.supplied ∧
      (c.outb port value).ports = Function.update c.ports port value := by
  unfold Controllers.outb
  simp only
  split
  · exact ⟨rfl, rfl, rfl⟩
  · split
    · exact ⟨rfl, rfl, rfl⟩
    · exact ⟨rfl, rfl, rfl⟩

/-- Commands, the clock and waits leave the drives and the memory alone. -/
theorem quiet_disk : Quiet (diskMonitor inp) (DisksHold S m) where
  outb p s port value h := by
    cases p with
    | none => exact ⟨none, rfl, fun c hc => by cases hc⟩
    | some c =>
      refine ⟨some (c.outb port value), rfl, fun c' hc' => ?_⟩
      obtain rfl := Option.some.inj hc'
      obtain ⟨hDrives, hSupplied, -⟩ := outb_drives c port value
      rw [hDrives, hSupplied]
      exact h c rfl
  counters p s _ _ h := h
  wait p s mask state t result h := by
    cases p with
    | none => exact ⟨none, rfl, h⟩
    | some c => exact ⟨some c, rfl, h⟩

/-- A wait that succeeds leaves the command alone; one that fails resets the controller. -/
theorem ataWait_serves (t : Transfer) (mask state : BitVec 8) :
    Triple (diskMonitor inp) (DiskServes id S m t) (ataWait inp fuel id mask state) fun r p s =>
      DisksHold S m p s ∧ (r = some true → DiskServes id S m t p s) := by
  have hFail :
      ∀ t', Triple (diskMonitor inp) (DiskServes id S m t) (ataWaitFail inp fuel id mask state t')
      fun r p s => DisksHold S m p s ∧ (r = some true → DiskServes id S m t p s) := by
    intro t'
    refine Triple.bind
      (Triple.strengthen ((quiet_disk inp S m).ataReset inp fuel id) fun _ _ h => h.holds)
      ?_ fun p s h => ⟨h, fun hc => by cases hc⟩
    intro _
    refine Triple.bind_emit (fun p s h => (quiet_disk inp S m).wait p s mask state t' false h) ?_
    exact Triple.pure fun p s h => ⟨h, fun hc => by cases hc⟩
  have hWait : ∀ p s t', DiskServes id S m t p s →
      ∃ p', diskMonitor inp p (.wait mask state t' true) = some p' ∧
      DiskServes id S m t p' s := by
    intro p s t' h
    cases p with
    | none => exact ⟨none, rfl, h⟩
    | some c => exact ⟨some c, rfl, h⟩
  have hClock : Triple (diskMonitor inp) (DiskServes id S m t) (clockWait inp fuel 0)
      fun _ => DiskServes id S m t := by
    have hLoop : ∀ start rounds, Triple (diskMonitor inp) (DiskServes id S m t)
        (clockWaitLoop inp 0 start rounds) fun _ => DiskServes id S m t := by
      intro start rounds
      induction rounds with
      | zero => exact Triple.running fun _ _ h => h
      | succ rounds ih =>
        refine Triple.bind_update (R := fun _ => DiskServes id S m t) (fun _ _ h => h) ?_
        intro now
        dsimp only
        split
        · exact ih
        · exact Triple.pure fun _ _ h => h
    exact Triple.bind_update (R := fun _ => DiskServes id S m t) (fun _ _ h => h) fun start =>
      hLoop start fuel
  have hLoop : ∀ start rounds, Triple (diskMonitor inp) (DiskServes id S m t)
      (ataWaitLoop inp fuel id mask state start rounds) fun r p s =>
        DisksHold S m p s ∧ (r = some true → DiskServes id S m t p s) := by
    intro start rounds
    induction rounds with
    | zero => exact Triple.running fun p s h => ⟨h.holds, fun hc => by cases hc⟩
    | succ rounds ih =>
      refine Triple.bind_update (R := fun _ => DiskServes id S m t) (fun _ _ h => h) ?_
      intro t'
      split
      · exact Triple.bind_emit (fun p s h => hWait p s t' h)
          (Triple.pure fun p s h => ⟨h.holds, fun _ => h⟩)
      · split
        · exact hFail t'
        · refine Triple.bind_update (R := fun _ => DiskServes id S m t) (fun _ _ h => h) ?_
          intro now
          split
          · exact hFail t'
          · exact Triple.bind hClock (fun _ => ih) fun p s h =>
              ⟨h.holds, fun hc => by cases hc⟩
  exact Triple.bind_update (R := fun _ => DiskServes id S m t) (fun _ _ h => h) fun start =>
    hLoop start fuel

-- ---------------------------------------------------------------------------
-- Commands
-- ---------------------------------------------------------------------------

/-- A sequence of `outb` calls at the controllers. -/
def Controllers.outbs (c : Controllers) (l : List (Nat × Nat)) : Controllers :=
  l.foldl (fun c pv => c.outb pv.1 (pv.2 % 256)) c

theorem outbs_drives (c : Controllers) (l : List (Nat × Nat)) :
    (c.outbs l).drives = c.drives ∧ (c.outbs l).supplied = c.supplied ∧
      (c.outbs l).ports = l.foldl (fun p pv => Function.update p pv.1 (pv.2 % 256)) c.ports := by
  induction l generalizing c with
  | nil => exact ⟨rfl, rfl, rfl⟩
  | cons pv l ih =>
    obtain ⟨hDrives, hSupplied, hPorts⟩ := ih (c.outb pv.1 (pv.2 % 256))
    obtain ⟨hDrives', hSupplied', hPorts'⟩ := outb_drives c pv.1 (pv.2 % 256)
    exact ⟨hDrives.trans hDrives', hSupplied.trans hSupplied',
      hPorts.trans (by rw [hPorts']; rfl)⟩

theorem outbs_controllers (l : List (Nat × Nat)) (p₀ : Option Controllers) (s₀ : AtaState) :
    Triple (diskMonitor inp) (fun p s => p = p₀ ∧ s = s₀) (outbs l) fun _ p s =>
      p = p₀.map (fun c => c.outbs l) ∧ s = s₀ := by
  induction l generalizing p₀ with
  | nil => exact Triple.pure fun p s h => ⟨by rw [h.1]; cases p₀ <;> rfl, h.2⟩
  | cons pv l ih =>
    refine Triple.bind_emit
      (R := fun p s => p = p₀.map (fun c => c.outb pv.1 (pv.2 % 256)) ∧ s = s₀) ?_ ?_
    · rintro p s ⟨rfl, rfl⟩
      cases p with
      | none => exact ⟨none, rfl, rfl, rfl⟩
      | some c => exact ⟨some (c.outb pv.1 (pv.2 % 256)), rfl, rfl, rfl⟩
    · have hRest := ih (p₀.map fun c => c.outb pv.1 (pv.2 % 256))
      rw [Option.map_map] at hRest
      exact hRest

/-- The base ports. -/
theorem ataBase_cases {id : Nat} (hid : id < 4) :
    (ataBase id = 0x1F0 ∧ id < 2) ∨ (ataBase id = 0x170 ∧ 2 ≤ id) := by
  obtain rfl | rfl | rfl | rfl : id = 0 ∨ id = 1 ∨ id = 2 ∨ id = 3 := by omega
  · exact Or.inl ⟨rfl, by omega⟩
  · exact Or.inl ⟨rfl, by omega⟩
  · exact Or.inr ⟨rfl, by omega⟩
  · exact Or.inr ⟨rfl, by omega⟩

theorem driveId_ataBase {id : Nat} (hid : id < 4) :
    Controllers.driveId (ataBase id) (id % 2) = id := by
  unfold Controllers.driveId
  rcases ataBase_cases hid with ⟨hBase, hLow⟩ | ⟨hBase, hHigh⟩
  · rw [hBase, if_neg (by omega)]
    omega
  · rw [hBase, if_pos rfl]
    omega

/-- The command that a call of `ata_begin` starts. -/
def commandOf (id : Nat) (write : Bool) (nblocks : Int) (offset : Nat) : Transfer :=
  ⟨write, id, offset % 2 ^ 28, if nblocks % 256 = 0 then 256 else (nblocks % 256).toNat⟩

/-- The arguments and the command, written to the registers of drive `id`. -/
theorem outbs_command {id : Nat} (hid : id < 4) (c : Controllers) (write : Bool) (nblocks : Int)
    (offset : Nat) :
    (c.outbs [(ataBase id + 0x206, 0), (ataBase id + 2, (nblocks % 256).toNat),
      (ataBase id + 3, offset &&& 0xFF), (ataBase id + 4, offset / 2 ^ 8 &&& 0xFF),
      (ataBase id + 5, offset / 2 ^ 16 &&& 0xFF),
        (ataBase id + 6, driveFlags id ||| (offset / 2 ^ 24 &&& 0x0F)),
      (ataBase id + 7, if write then 0x30 else 0x20)]).transfer (ataBase id) =
        some (commandOf id write nblocks offset) := by
  let arguments := [(ataBase id + 0x206, 0), (ataBase id + 2, (nblocks % 256).toNat),
    (ataBase id + 3, offset &&& 0xFF), (ataBase id + 4, offset / 2 ^ 8 &&& 0xFF),
    (ataBase id + 5, offset / 2 ^ 16 &&& 0xFF),
    (ataBase id + 6, driveFlags id ||| (offset / 2 ^ 24 &&& 0x0F))]
  have hLast : ∀ (c' : Controllers) (v : Nat),
      (c'.outb (ataBase id + 7) v).transfer (ataBase id) =
      (decodeLba28 (ataBase id) (Function.update c'.ports (ataBase id + 7) v)).bind fun a =>
        if v = 0x20 then some ⟨false, Controllers.driveId (ataBase id) a.1, a.2.lba, a.2.count⟩
        else if v = 0x30 then
          some ⟨true, Controllers.driveId (ataBase id) a.1, a.2.lba, a.2.count⟩
        else none := by
    intro c' v
    unfold Controllers.outb Controllers.execute
    rcases ataBase_cases hid with ⟨hBase, -⟩ | ⟨hBase, -⟩
    · simp [hBase]
    · simp [hBase]
  have hDecode :=
    decodeLba28_sent (ataBase id) id (if write then 0x30 else 0x20) offset nblocks c.ports
  show ((c.outbs arguments).outb (ataBase id + 7) ((if write then 0x30 else 0x20) % 256)).transfer
    (ataBase id) = _
  rw [hLast, (outbs_drives c arguments).2.2]
  rw [show decodeLba28 (ataBase id) (Function.update (arguments.foldl
    (fun p pv => Function.update p pv.1 (pv.2 % 256)) c.ports) (ataBase id + 7)
    ((if write then 0x30 else 0x20) % 256)) = _ from hDecode, Option.bind_some]
  simp only [driveId_ataBase hid]
  cases write <;> rfl

/-- **`ata_begin`.** A call that returns 1 has started the command. -/
theorem ataBegin_serves {id : Nat} (hid : id < 4) (write : Bool) (nblocks : Int) (offset : Nat) :
    Triple (diskMonitor inp) (DisksHold S m)
      (ataBegin inp fuel id (if write then 0x30 else 0x20) nblocks offset) fun r p s =>
        DisksHold S m p s ∧
        (r = some true → DiskServes id S m (commandOf id write nblocks offset) p s) := by
  have hQuiet := quiet_disk inp S m
  have hNone : ∀ r : Option Bool, r ≠ some true → ∀ p s, DisksHold S m p s →
      DisksHold S m p s ∧
      (r = some true → DiskServes id S m (commandOf id write nblocks offset) p s) :=
    fun r hr p s h => ⟨h, fun hc => absurd hc hr⟩
  refine checked (hQuiet.ataWait inp fuel id _ _) ?_ (hNone _ (by simp)) (hNone _ (by simp))
  refine Triple.bind (hQuiet.outbs _) ?_ (hNone _ (by simp))
  intro _
  refine checked (hQuiet.waitReady inp fuel id _) ?_ (hNone _ (by simp)) (hNone _ (by simp))
  -- the arguments and the command are the last thing that is written
  refine Triple.of_forall ?_
  intro p s h
  refine Triple.bind (outbs_controllers inp _ p s) ?_ ?_
  · intro _
    refine Triple.pure ?_
    rintro p' s' ⟨rfl, rfl⟩
    have hServes : DiskServes id S m (commandOf id write nblocks offset)
        (p.map fun c => c.outbs [(ataBase id + 0x206, 0), (ataBase id + 2, (nblocks % 256).toNat),
          (ataBase id + 3, offset &&& 0xFF), (ataBase id + 4, offset / 2 ^ 8 &&& 0xFF),
          (ataBase id + 5, offset / 2 ^ 16 &&& 0xFF),
          (ataBase id + 6, driveFlags id ||| (offset / 2 ^ 24 &&& 0x0F)),
          (ataBase id + 7, if write then 0x30 else 0x20)]) s' := by
      intro c' hc'
      obtain ⟨c, rfl, rfl⟩ := Option.map_eq_some_iff.mp hc'
      obtain ⟨hDrives, hMem, hSupplied⟩ := h c rfl
      obtain ⟨hDrives', hSupplied', -⟩ := outbs_drives c _
      exact ⟨hDrives'.trans hDrives, hMem, hSupplied'.trans hSupplied,
        outbs_command hid c write nblocks offset⟩
    exact ⟨hServes.holds, fun _ => hServes⟩
  · rintro p' s' ⟨rfl, rfl⟩
    refine ⟨fun c' hc' => ?_, fun hc => by cases hc⟩
    obtain ⟨c, rfl, rfl⟩ := Option.map_eq_some_iff.mp hc'
    obtain ⟨hDrives, hMem, hSupplied⟩ := h c rfl
    obtain ⟨hDrives', hSupplied', -⟩ := outbs_drives c _
    exact ⟨hDrives'.trans hDrives, hMem, hSupplied'.trans hSupplied⟩

-- ---------------------------------------------------------------------------
-- Bursts
-- ---------------------------------------------------------------------------

/-- The transfer after `j` blocks. -/
def Transfer.after (t : Transfer) (j : Nat) : Transfer :=
  { t with lba := t.lba + j, left := t.left - j }

/-- The words that a controller supplied are the bytes of the block. -/
theorem copyIn_supplied {k buffer lba : Nat}
    (h : ∀ i : Fin 256, inp.data (k + i) = S id lba i) :
    m.copyIn buffer 512 (dataByte inp k) = m.copyIn buffer 512 (bytesOf S id lba) := by
  funext i
  unfold copyIn
  by_cases hIn : buffer ≤ i ∧ i < buffer + 512
  · rw [if_pos hIn, if_pos hIn]
    have hWord := h ⟨(i - buffer) % 512 / 2, by omega⟩
    unfold dataByte bytesOf
    simp only at hWord ⊢
    rw [show (i - buffer) / 2 = (i - buffer) % 512 / 2 by omega, hWord,
      show lba + (i - buffer) / 512 = lba by omega]
  · rw [if_neg hIn, if_neg hIn]

/-- One block, and then `j` more. -/
theorem copyIn_bytesOf (buffer lba j : Nat) :
    (m.copyIn buffer 512 (bytesOf S id lba)).copyIn (buffer + 512) (512 * j)
      (bytesOf S id (lba + 1)) =
      m.copyIn buffer (512 * (j + 1)) (bytesOf S id lba) := by
  have hNext : ∀ i, bytesOf S id (lba + 1) i = bytesOf S id lba (512 + i) := by
    intro i
    unfold bytesOf
    simp only [show lba + (512 + i) / 512 = lba + 1 + i / 512 by omega,
      show (512 + i) % 512 = i % 512 by omega, show (512 + i) % 2 = i % 2 by omega]
  have hTotal : 512 * (j + 1) = 512 + 512 * j := by omega
  rw [hTotal]
  generalize 512 * j = rest
  funext i
  unfold copyIn
  by_cases hRest : buffer + 512 ≤ i ∧ i < buffer + 512 + rest
  · rw [if_pos hRest, if_pos (by omega), hNext,
      show 512 + (i - (buffer + 512)) = i - buffer by omega]
  · rw [if_neg hRest]
    by_cases hFirst : buffer ≤ i ∧ i < buffer + 512
    · rw [if_pos hFirst, if_pos (by omega)]
    · rw [if_neg hFirst, if_neg (by omega)]

theorem ataPioRead_run (buffer size : Nat) (s : AtaState) :
    ataPioRead inp id buffer size s =
      (some (), pioReadWords inp s buffer ((size + 1) / 2), [.pioRead id buffer size]) := rfl

/-- What a burst of a read does. -/
theorem ataPioRead_serves {t : Transfer} (hRead : t.write = false) (hDrive : t.drive = id)
    (hLeft : 0 < t.left) (buffer : Nat) :
    Triple (diskMonitor inp) (DiskServes id S m t) (ataPioRead inp id buffer 512)
      fun _ => DiskServes id S (m.copyIn buffer 512 (bytesOf S id t.lba)) (t.after 1) := by
  intro p s h
  cases p with
  | none => exact ⟨none, rfl, fun c hc => by cases hc⟩
  | some c =>
    obtain ⟨hDrives, hMem, hSupplied, hTransfer⟩ := h c rfl
    have hRun := ataPioRead_run inp id buffer 512 s
    rw [show (512 + 1) / 2 = 256 by omega] at hRun
    have hBurst : diskMonitor inp (some c) (.pioRead id buffer 512) =
        if ∀ k : Fin 256, inp.data (c.supplied + k) = c.drives t.drive t.lba k then
          some (some { c.advance (ataBase id) t with supplied := c.supplied + 256 })
        else some none := by
      unfold diskMonitor
      simp only [hTransfer]
      exact if_pos ⟨hRead, hLeft, trivial⟩
    rw [hRun]
    show ∃ p', (diskMonitor inp (some c) (.pioRead id buffer 512)).bind some = some p' ∧ _
    rw [hBurst]
    by_cases hData : ∀ k : Fin 256, inp.data (c.supplied + k) = c.drives t.drive t.lba k
    · rw [if_pos hData]
      refine ⟨_, rfl, fun c' hc' => ?_⟩
      obtain rfl := Option.some.inj hc'
      rw [hDrives, hDrive, hSupplied] at hData
      rw [pioReadWords_eq]
      refine ⟨hDrives, ?_, congrArg (fun k => k + 256) hSupplied, Function.update_self _ _ _⟩
      simp only [hMem]
      exact copyIn_supplied inp id S m hData
    · rw [if_neg hData]
      exact ⟨none, rfl, fun c hc => by cases hc⟩

/-- **Blocks in.** The induction is on the blocks, for every memory, buffer and command. -/
theorem readBlocks_serves (n : Nat) {t : Transfer} (hRead : t.write = false) (hDrive : t.drive = id)
    (hLeft : n ≤ t.left) (buffer : Nat) :
    Triple (diskMonitor inp) (DiskServes id S m t) (readBlocks inp fuel id 512 n buffer)
      fun r p s =>
      ∃ j ≤ n, DisksHold S (m.copyIn buffer (512 * j) (bytesOf S id t.lba)) p s ∧
        (r = some true → j = n) := by
  have hNothing : ∀ p s, DisksHold S m p s →
      DisksHold S (m.copyIn buffer (512 * 0) (bytesOf S id t.lba)) p s := by
    intro p s h
    have hNone : m.copyIn buffer (512 * 0) (bytesOf S id t.lba) = m := by
      funext i
      exact if_neg (by omega)
    rwa [hNone]
  induction n generalizing m t buffer with
  | zero =>
    exact Triple.pure fun p s h => ⟨0, Nat.le_refl 0, hNothing p s h.holds, fun _ => rfl⟩
  | succ n ih =>
    have hStop : ∀ (r : Option Bool) p s, r ≠ some true → DisksHold S m p s →
        ∃ j ≤ n + 1, DisksHold S (m.copyIn buffer (512 * j) (bytesOf S id t.lba)) p s ∧
          (r = some true → j = n + 1) :=
      fun r p s hr h => ⟨0, Nat.zero_le _, hNothing p s h, fun hc => absurd hc hr⟩
    refine Triple.bind (ataWait_serves inp fuel id S m t _ _) ?_ fun p s h =>
      hStop _ p s (by simp) h.1
    intro requested
    cases requested with
    | false => exact Triple.pure fun p s h => hStop _ p s (by simp) h.1
    | true =>
      rw [if_neg (by decide)]
      refine Triple.strengthen (P := DiskServes id S m t) ?_ fun p s h => h.2 rfl
      have hBurst := ataPioRead_serves inp id S m hRead hDrive (by omega) buffer
      refine Triple.bind (R := fun r p s => r = some () ∧
        DiskServes id S (m.copyIn buffer 512 (bytesOf S id t.lba)) (t.after 1) p s) ?_ ?_ ?_
      · intro p s h
        obtain ⟨p', hLog, hServes⟩ := hBurst p s h
        exact ⟨p', hLog, rfl, hServes⟩
      · intro _ p s h
        have hRest := ih (m.copyIn buffer 512 (bytesOf S id t.lba)) (t := t.after 1) hRead hDrive
          (show n ≤ t.left - 1 by omega) (buffer + 512) ?_ p s h.2
        · obtain ⟨p', hLog, j, hj, hHold, hAll⟩ := hRest
          refine ⟨p', hLog, j + 1, by omega, ?_, fun hr => by rw [hAll hr]⟩
          rw [← copyIn_bytesOf]
          exact hHold
        · intro p s h
          have hNone : ∀ m' : Mem,
              m'.copyIn (buffer + 512) (512 * 0) (bytesOf S id (t.after 1).lba) = m' := by
            intro m'
            funext i
            exact if_neg (by omega)
          rwa [hNone]
      · intro p s h
        cases h.1

/-- The words of a block that is written. -/
theorem wordsAt_block (buffer : Nat) : (wordsAt m buffer 512).length = 256 ∧
    (fun k : Fin 256 => BitVec.ofNat 16 ((wordsAt m buffer 512).getD k 0)) =
    blockAt m buffer 0 := by
  unfold wordsAt
  rw [show (512 + 1) / 2 = 256 by omega]
  refine ⟨by rw [List.length_map, List.length_range], ?_⟩
  funext k
  unfold blockAt
  rw [List.getD_eq_getElem?_getD, List.getElem?_map, List.getElem?_range k.isLt]
  simp

/-- What a burst of a write does. -/
theorem ataPioWrite_serves {t : Transfer} (hWrite : t.write = true) (hDrive : t.drive = id)
    (hLeft : 0 < t.left) {words : List Nat} {block : Block} (hLength : words.length = 256)
    (hBlock : (fun k : Fin 256 => BitVec.ofNat 16 (words.getD k 0)) = block) :
    Triple (diskMonitor inp) (DiskServes id S m t) (ataPioWrite id words)
      fun _ => DiskServes id (S.put id t.lba 1 fun _ => block) m (t.after 1) := by
  refine Triple.emit fun p s h => ?_
  cases p with
  | none => exact ⟨none, rfl, fun c hc => by cases hc⟩
  | some c =>
    obtain ⟨hDrives, hMem, hSupplied, hTransfer⟩ := h c rfl
    unfold diskMonitor
    simp only [hTransfer]
    refine ⟨_, if_pos ⟨hWrite, hLeft, hLength⟩, fun c' hc' => ?_⟩
    obtain rfl := Option.some.inj hc'
    refine ⟨?_, hMem, hSupplied, Function.update_self _ _ _⟩
    simp only [hDrives, hDrive]
    exact congrArg (fun block => S.put id t.lba 1 fun _ => block) hBlock

/-- **Blocks out.** The induction is on the blocks, for every store, buffer and command. -/
theorem writeBlocks_serves (n : Nat) {t : Transfer} (hWrite : t.write = true)
    (hDrive : t.drive = id) (hLeft : n ≤ t.left) (buffer : Nat) :
    Triple (diskMonitor inp) (DiskServes id S m t) (writeBlocks inp fuel id 512 n buffer)
      fun r p s =>
      ∃ j ≤ n, DisksHold (S.put id t.lba j (blockAt m buffer)) m p s ∧
        (r = some true → j = n) := by
  induction n generalizing S t buffer with
  | zero =>
    refine Triple.pure fun p s h => ⟨0, Nat.le_refl 0, ?_, fun _ => rfl⟩
    rw [put_zero]
    exact h.holds
  | succ n ih =>
    have hStop : ∀ (r : Option Bool) p s, r ≠ some true → DisksHold S m p s →
        ∃ j ≤ n + 1, DisksHold (S.put id t.lba j (blockAt m buffer)) m p s ∧
        (r = some true → j = n + 1) := by
      intro r p s hr h
      refine ⟨0, Nat.zero_le _, ?_, fun hc => absurd hc hr⟩
      rw [put_zero]
      exact h
    refine Triple.bind (ataWait_serves inp fuel id S m t _ _) ?_ fun p s h =>
      hStop _ p s (by simp) h.1
    intro requested
    cases requested with
    | false => exact Triple.pure fun p s h => hStop _ p s (by simp) h.1
    | true =>
      rw [if_neg (by decide)]
      refine Triple.strengthen (P := DiskServes id S m t) ?_ fun p s h => h.2 rfl
      -- the words are read from the memory, which is `m` unless a controller gave up on its drive
      refine Triple.bind_update (R := fun words p s => DiskServes id S m t p s ∧
        (p.isSome → words = wordsAt m buffer 512)) ?_ ?_
      · intro p s h
        refine ⟨h, fun hSome => ?_⟩
        obtain ⟨c, rfl⟩ := Option.isSome_iff_exists.mp hSome
        simp only [(h c rfl).2.1]
      intro words
      refine Triple.bind (R := fun r p s => r = some () ∧
        DiskServes id (S.put id t.lba 1 fun _ => blockAt m buffer 0) m (t.after 1) p s) ?_ ?_ ?_
      · rintro p s ⟨h, hWords⟩
        cases p with
        | none => exact ⟨none, rfl, rfl, fun c hc => by cases hc⟩
        | some c =>
          obtain rfl := hWords rfl
          obtain ⟨hLength, hBlock⟩ := wordsAt_block m buffer
          obtain ⟨p', hLog, hServes⟩ :=
            ataPioWrite_serves inp id S m hWrite hDrive (by omega) hLength hBlock (some c) s h
          exact ⟨p', hLog, rfl, hServes⟩
      · intro _ p s h
        have hRest :=
          ih (S.put id t.lba 1 fun _ => blockAt m buffer 0) (t := t.after 1) hWrite hDrive
          (show n ≤ t.left - 1 by omega) (buffer + 512) p s h.2
        obtain ⟨p', hLog, j, hj, hHold, hAll⟩ := hRest
        refine ⟨p', hLog, j + 1, by omega, ?_, fun hr => by rw [hAll hr]⟩
        have hNext : blockAt m (buffer + 512) = fun i => blockAt m buffer (i + 1) := by
          funext i k
          unfold blockAt
          rw [show buffer + 512 + 512 * i = buffer + 512 * (i + 1) by omega]
        rw [hNext] at hHold
        rw [← put_put]
        exact hHold
      · intro p s h
        cases h.1

-- ---------------------------------------------------------------------------
-- One call
-- ---------------------------------------------------------------------------

/-- A request that one command can express: a drive, 1 to 256 blocks, and a 28-bit address. -/
structure Addressable (id : Nat) (nblocks : Int) (offset : Nat) : Prop where
  drive : id < 4
  least : 1 ≤ nblocks
  most  : nblocks ≤ 256
  high  : offset < 2 ^ 28

theorem Addressable.commandOf {id : Nat} {nblocks : Int} {offset : Nat}
    (h : Addressable id nblocks offset) (write : Bool) :
    commandOf id write nblocks offset = ⟨write, id, offset, nblocks.toNat⟩ := by
  have hLeast := h.least
  have hMost := h.most
  have hCount : (if nblocks % 256 = 0 then 256 else (nblocks % 256).toNat) = nblocks.toNat := by
    split <;> omega
  unfold Hexos.commandOf
  rw [Nat.mod_eq_of_lt h.high, hCount]

/-- The last wait of a call, after which all blocks have been moved. -/
theorem lastWait_holds {n : Nat} {nblocks : Int}
    {Q : Nat → Option Controllers → AtaState → Prop}
    (hQ : ∀ p s, DisksHold S m p s → Q n p s) :
    Triple (diskMonitor inp) (DisksHold S m)
      (do
        let calm ← ataWait inp fuel id statusBsy 0
        if calm = false then pure 0 else pure nblocks)
      fun r p s => ∃ j ≤ n, Q j p s ∧ ∀ v, r = some v → v ≠ 0 → j = n := by
  have hEnd : ∀ (r : Option Int) p s, DisksHold S m p s → ∃ j ≤ n, Q j p s ∧
      ∀ v, r = some v → v ≠ 0 → j = n :=
    fun r p s h => ⟨n, Nat.le_refl n, hQ p s h, fun _ _ _ => rfl⟩
  exact checked ((quiet_disk inp S m).ataWait inp fuel id _ _) (Triple.pure (hEnd _))
    (hEnd _) (hEnd _)

/-- **`ata_read_unlocked`.** Some first blocks are in the buffer, and all of them if the call
returns something other than 0. -/
theorem ataRead_effect {nblocks : Int} {offset : Nat} (hAddr : Addressable id nblocks offset)
    (buffer : Nat) :
    Triple (diskMonitor inp) (DisksHold S m) (ataRead inp fuel id buffer nblocks offset)
      fun r p s =>
      ∃ j ≤ nblocks.toNat, DisksHold S (m.copyIn buffer (512 * j) (bytesOf S id offset)) p s ∧
        ∀ v, r = some v → v ≠ 0 → j = nblocks.toNat := by
  have hNone : m.copyIn buffer (512 * 0) (bytesOf S id offset) = m := by
    funext i
    exact if_neg (by omega)
  have hStop : ∀ r : Option Int, (∀ v, r = some v → v = 0) → ∀ p s, DisksHold S m p s →
      ∃ j ≤ nblocks.toNat, DisksHold S (m.copyIn buffer (512 * j) (bytesOf S id offset)) p s ∧
        ∀ v, r = some v → v ≠ 0 → j = nblocks.toNat := by
    intro r hr p s h
    refine ⟨0, Nat.zero_le _, ?_, fun v hv hne => absurd (hr v hv) hne⟩
    rwa [hNone]
  refine Triple.bind (ataBegin_serves inp fuel S m hAddr.drive false nblocks offset) ?_
    fun p s h => hStop _ (by simp) p s h.1
  intro begun
  cases begun with
  | false => exact Triple.pure fun p s h => hStop _ (by simp) p s h.1
  | true =>
    rw [if_neg (by decide), hAddr.commandOf]
    refine Triple.strengthen (P := DiskServes id S m ⟨false, id, offset, nblocks.toNat⟩) ?_
      fun p s h => h.2 rfl
    refine Triple.bind (waitQueue_keeps inp) ?_ fun p s h => hStop _ (by simp) p s h.holds
    intro _
    refine Triple.bind
      (readBlocks_serves inp fuel id S m nblocks.toNat rfl rfl (Nat.le_refl _) buffer) ?_ ?_
    · intro moved
      cases moved with
      | false =>
        refine Triple.pure ?_
        rintro p s ⟨j, hj, hHold, -⟩
        exact ⟨j, hj, hHold, fun v hv hne => absurd (Option.some.inj hv).symm hne⟩
      | true =>
        rw [if_neg (by decide)]
        refine (lastWait_holds inp fuel id S
          (m.copyIn buffer (512 * nblocks.toNat) (bytesOf S id offset))
          fun p s h => h).strengthen ?_
        rintro p s ⟨j, -, hHold, hAll⟩
        rw [← hAll rfl]
        exact hHold
    · rintro p s ⟨j, hj, hHold, -⟩
      exact ⟨j, hj, hHold, fun v hv => by cases hv⟩

/-- **`ata_write_unlocked`.** Some first blocks are on the drive, and all of them if the call
returns something other than 0. -/
theorem ataWrite_effect {nblocks : Int} {offset : Nat} (hAddr : Addressable id nblocks offset)
    (buffer : Nat) :
    Triple (diskMonitor inp) (DisksHold S m) (ataWrite inp fuel id buffer nblocks offset)
      fun r p s =>
      ∃ j ≤ nblocks.toNat, DisksHold (S.put id offset j (blockAt m buffer)) m p s ∧
        ∀ v, r = some v → v ≠ 0 → j = nblocks.toNat := by
  have hStop : ∀ r : Option Int, (∀ v, r = some v → v = 0) → ∀ p s, DisksHold S m p s →
      ∃ j ≤ nblocks.toNat, DisksHold (S.put id offset j (blockAt m buffer)) m p s ∧
        ∀ v, r = some v → v ≠ 0 → j = nblocks.toNat := by
    intro r hr p s h
    refine ⟨0, Nat.zero_le _, ?_, fun v hv hne => absurd (hr v hv) hne⟩
    rwa [put_zero]
  refine Triple.bind (ataBegin_serves inp fuel S m hAddr.drive true nblocks offset) ?_
    fun p s h => hStop _ (by simp) p s h.1
  intro begun
  cases begun with
  | false => exact Triple.pure fun p s h => hStop _ (by simp) p s h.1
  | true =>
    rw [if_neg (by decide), hAddr.commandOf]
    refine Triple.strengthen (P := DiskServes id S m ⟨true, id, offset, nblocks.toNat⟩) ?_
      fun p s h => h.2 rfl
    refine Triple.bind
      (writeBlocks_serves inp fuel id S m nblocks.toNat rfl rfl (Nat.le_refl _) buffer) ?_ ?_
    · intro moved
      cases moved with
      | false =>
        refine Triple.pure ?_
        rintro p s ⟨j, hj, hHold, -⟩
        exact ⟨j, hj, hHold, fun v hv hne => absurd (Option.some.inj hv).symm hne⟩
      | true =>
        rw [if_neg (by decide)]
        refine Triple.strengthen
          (P := DisksHold (S.put id offset nblocks.toNat (blockAt m buffer)) m) ?_ ?_
        · refine Triple.bind (waitQueue_keeps inp) ?_ ?_
          · intro _
            exact lastWait_holds inp fuel id _ m fun p s h => h
          · exact fun p s h => ⟨_, Nat.le_refl _, h, fun _ _ _ => rfl⟩
        · rintro p s ⟨j, -, hHold, hAll⟩
          rw [← hAll rfl]
          exact hHold
    · rintro p s ⟨j, hj, hHold, -⟩
      exact ⟨j, hj, hHold, fun v hv => by cases hv⟩

-- ---------------------------------------------------------------------------
-- Any sequence of calls
-- ---------------------------------------------------------------------------

/-- What the kernel does with its disks: the two calls, in the order in which they get
`ata_mutex`, and whatever else only changes the memory. -/
inductive DiskCall
  | read (id buffer : Nat) (nblocks : Int) (offset : Nat)
  | write (id buffer : Nat) (nblocks : Int) (offset : Nat)
  | other (f : Mem → Mem)

namespace DiskCall

/-- The code of a call. -/
def run (inp : AtaInputs) (fuel : Nat) : DiskCall → Driver Int
  | .read id buffer nblocks offset => ataRead inp fuel id buffer nblocks offset
  | .write id buffer nblocks offset => ataWrite inp fuel id buffer nblocks offset
  | .other f => update fun s => (1, { s with mem := f s.mem })

/-- The calls that a single command can express. -/
def Valid : DiskCall → Prop
  | .read id _ nblocks offset => Addressable id nblocks offset
  | .write id _ nblocks offset => Addressable id nblocks offset
  | .other _ => True

/-- The call may write block `b` of drive `d`. -/
def Writes (d b : Nat) : DiskCall → Prop
  | .write id _ nblocks offset => id = d ∧ offset ≤ b ∧ b < offset + nblocks.toNat
  | _ => False

/-- What a call that reports `v` does to the store and the memory: it moves some first blocks of
those it was asked for, and all of them unless `v` is 0. -/
def Does (v : Int) (S : Drives) (m : Mem) (S' : Drives) (m' : Mem) : DiskCall → Prop
  | .read id buffer nblocks offset =>
    S' = S ∧ ∃ j ≤ nblocks.toNat, m' = m.copyIn buffer (512 * j) (bytesOf S id offset) ∧
      (v ≠ 0 → j = nblocks.toNat)
  | .write id buffer nblocks offset =>
    m' = m ∧ ∃ j ≤ nblocks.toNat, S' = S.put id offset j (blockAt m buffer) ∧
      (v ≠ 0 → j = nblocks.toNat)
  | .other f => S' = S ∧ m' = f m

/-- The call as a request to the store. -/
def request (m : Mem) : DiskCall → Request Nat Block
  | .read id _ nblocks offset => ⟨id, offset, nblocks.toNat, none⟩
  | .write id buffer nblocks offset => ⟨id, offset, nblocks.toNat, some (blockAt m buffer)⟩
  | .other _ => ⟨0, 0, 0, none⟩

theorem Does.request {v : Int} {S S' : Drives} {m m' : Mem} {call : DiskCall}
    (h : call.Does v S m S' m') :
    (call.request m).Does (decide (v ≠ 0)) S S' := by
  cases call with
  | read id buffer nblocks offset => exact h.1
  | write id buffer nblocks offset =>
    obtain ⟨-, j, hj, hPut, hAll⟩ := h
    exact ⟨j, hj, hPut, fun hv => hAll (of_decide_eq_true hv)⟩
  | other f => exact h.1

theorem request_writes {m : Mem} {call : DiskCall} {d b : Nat} (h : (call.request m).Writes d b) :
    call.Writes d b := by
  cases call with
  | read id buffer nblocks offset => exact absurd h.1 (by simp [DiskCall.request])
  | write id buffer nblocks offset => exact h.2
  | other f => exact absurd h.1 (by simp [DiskCall.request])

end DiskCall

/-- One call after another, with what each of them returned. -/
def runCalls (inp : AtaInputs) (fuel : Nat) : List DiskCall → Driver (List Int)
  | [] => pure []
  | call :: calls => do
    let v ← call.run inp fuel
    let vs ← runCalls inp fuel calls
    pure (v :: vs)

/-- A run of calls with their reports, on the store and the memory. -/
inductive DiskRun : Drives → Mem → List (DiskCall × Int) → Drives → Mem → Prop
  | nil (S : Drives) (m : Mem) : DiskRun S m [] S m
  | cons {S S' S'' : Drives} {m m' m'' : Mem} {call : DiskCall} {v : Int}
      {done : List (DiskCall × Int)}
      (hFirst : call.Does v S m S' m') (hRest : DiskRun S' m' done S'' m'') :
      DiskRun S m ((call, v) :: done) S'' m''

/-- **Step lemma.** A call that has not returned reports 0. -/
theorem DiskCall.run_does {call : DiskCall} (hValid : call.Valid) :
    Triple (diskMonitor inp) (DisksHold S m) (call.run inp fuel) fun r p s =>
      ∃ S' m', DisksHold S' m' p s ∧ call.Does (r.getD 0) S m S' m' := by
  have hReport : ∀ {r : Option Int} {j n : Nat},
      (∀ v, r = some v → v ≠ 0 → j = n) → r.getD 0 ≠ 0 → j = n := by
    intro r j n hAll hr
    cases r with
    | none => exact absurd rfl hr
    | some v => exact hAll v rfl hr
  cases call with
  | read id buffer nblocks offset =>
    intro p s h
    obtain ⟨p', hLog, j, hj, hHold, hAll⟩ := ataRead_effect inp fuel id S m hValid buffer p s h
    exact ⟨p', hLog, _, _, hHold, rfl, j, hj, rfl, hReport hAll⟩
  | write id buffer nblocks offset =>
    intro p s h
    obtain ⟨p', hLog, j, hj, hHold, hAll⟩ := ataWrite_effect inp fuel id S m hValid buffer p s h
    exact ⟨p', hLog, _, _, hHold, rfl, j, hj, rfl, hReport hAll⟩
  | other f =>
    refine Triple.update fun p s h => ⟨S, f m, fun c hc => ?_, rfl, rfl⟩
    obtain ⟨hDrives, hMem, hSupplied⟩ := h c hc
    exact ⟨hDrives, congrArg f hMem, hSupplied⟩

/-- **Run lemma.** The calls that were made, the last of which may not have returned. -/
theorem runCalls_run {calls : List DiskCall} (hValid : ∀ call ∈ calls, call.Valid) :
    Triple (diskMonitor inp) (DisksHold S m) (runCalls inp fuel calls) fun r p s =>
      ∃ done S' m', DisksHold S' m' p s ∧ DiskRun S m done S' m' ∧
        done.map Prod.fst <+: calls ∧
        ∀ vs, r = some vs → done.map Prod.fst = calls ∧ done.map Prod.snd = vs := by
  induction calls generalizing S m with
  | nil =>
    refine Triple.pure fun p s h =>
      ⟨[], S, m, h, .nil S m, List.nil_prefix, fun vs hvs => ⟨rfl, ?_⟩⟩
    exact Option.some.inj hvs
  | cons call calls ih =>
    have hFirst := DiskCall.run_does inp fuel S m (hValid call List.mem_cons_self)
    refine Triple.bind hFirst ?_ ?_
    · intro v
      refine Triple.of_forall ?_
      rintro p s ⟨S', m', hHold, hDoes⟩
      have hHere : ∀ p' s', p' = p ∧ s' = s → DisksHold S' m' p' s' := by
        rintro _ _ ⟨rfl, rfl⟩
        exact hHold
      have hRest := (ih S' m' fun call hMem => hValid call (List.mem_cons_of_mem _ hMem)).strengthen
        hHere
      refine Triple.bind hRest ?_ ?_
      · intro vs
        refine Triple.pure ?_
        rintro p' s' ⟨done, S'', m'', hHold', hRun, hPrefix, hReturned⟩
        obtain ⟨hCalls, hReports⟩ := hReturned vs rfl
        refine ⟨(call, v) :: done, S'', m'', hHold', .cons hDoes hRun, ?_,
          fun vs' hvs' => ⟨?_, ?_⟩⟩
        · exact List.cons_prefix_cons.mpr ⟨rfl, hPrefix⟩
        · rw [List.map_cons, hCalls]
        · rw [List.map_cons, hReports]
          exact Option.some.inj hvs'
      · rintro p' s' ⟨done, S'', m'', hHold', hRun, hPrefix, -⟩
        exact ⟨(call, v) :: done, S'', m'', hHold', .cons hDoes hRun,
          List.cons_prefix_cons.mpr ⟨rfl, hPrefix⟩, fun vs hvs => by cases hvs⟩
    · rintro p s ⟨S', m', hHold, hDoes⟩
      exact ⟨[(call, 0)], S', m', hHold, .cons hDoes (.nil S' m'),
        List.cons_prefix_cons.mpr ⟨rfl, List.nil_prefix⟩, fun vs hvs => by cases hvs⟩

/-- The requests of a run, made to the store. -/
theorem DiskRun.requests {S S' : Drives} {m m' : Mem} {done : List (DiskCall × Int)}
    (h : DiskRun S m done S' m') :
    ∃ rs, Run S rs S' ∧ ∀ d b, (∀ cv ∈ done, ¬ cv.1.Writes d b) →
      ∀ p ∈ rs, ¬ p.1.Writes d b := by
  induction h with
  | nil S m => exact ⟨[], .nil S, fun d b _ p hp => absurd hp List.not_mem_nil⟩
  | @cons S S' S'' m m' m'' call v done hFirst _ ih =>
    obtain ⟨rs, hRun, hWrites⟩ := ih
    refine ⟨_, .cons hFirst.request hRun, fun d b hNone p hp => ?_⟩
    rcases List.mem_cons.mp hp with rfl | hp
    · exact fun hc => hNone (call, v) List.mem_cons_self (DiskCall.request_writes hc)
    · exact hWrites d b (fun cv hcv => hNone cv (List.mem_cons_of_mem _ hcv)) p hp

theorem DiskRun.append {S S' : Drives} {m m' : Mem} {done done' : List (DiskCall × Int)}
    (h : DiskRun S m (done ++ done') S' m') :
    ∃ S₁ m₁, DiskRun S m done S₁ m₁ ∧ DiskRun S₁ m₁ done' S' m' := by
  induction done generalizing S m with
  | nil => exact ⟨S, m, .nil S m, h⟩
  | cons cv done ih =>
    cases h with
    | cons hFirst hRest =>
      obtain ⟨S₁, m₁, hRun, hRun'⟩ := ih hRest
      exact ⟨S₁, m₁, .cons hFirst hRun, hRun'⟩

/-- The bytes of a block that was filled from memory. -/
theorem bytesOf_blockAt {S : Drives} {d lba buffer i : Nat} {m : Mem}
    (h : S d (lba + i / 512) = blockAt m buffer (i / 512)) :
    bytesOf S d lba i = m (buffer + i) := by
  have hWord : (S d (lba + i / 512) ⟨i % 512 / 2, by omega⟩).toNat =
      (m (buffer + 512 * (i / 512) + 2 * (i % 512 / 2))).toNat +
        256 * (m (buffer + 512 * (i / 512) + 2 * (i % 512 / 2) + 1)).toNat := by
    have hLow := (m (buffer + 512 * (i / 512) + 2 * (i % 512 / 2))).toNat_lt
    have hHigh := (m (buffer + 512 * (i / 512) + 2 * (i % 512 / 2) + 1)).toNat_lt
    rw [h]
    refine (BitVec.toNat_ofNat _ _).trans (Nat.mod_eq_of_lt ?_)
    unfold load16
    dsimp only
    omega
  have hLow := (m (buffer + 512 * (i / 512) + 2 * (i % 512 / 2))).toNat_lt
  unfold bytesOf
  simp only [hWord]
  by_cases hEven : i % 2 = 0
  · have hAddr : buffer + i = buffer + 512 * (i / 512) + 2 * (i % 512 / 2) := by omega
    rw [if_pos hEven, hAddr]
    refine UInt8.toNat_inj.mp ?_
    rw [UInt8.toNat_ofNat']
    omega
  · have hAddr : buffer + i = buffer + 512 * (i / 512) + 2 * (i % 512 / 2) + 1 := by omega
    have hHigh := (m (buffer + i)).toNat_lt
    rw [if_neg hEven, ← hAddr]
    refine UInt8.toNat_inj.mp ?_
    rw [UInt8.toNat_ofNat']
    omega

-- ---------------------------------------------------------------------------
-- Results
-- ---------------------------------------------------------------------------

/-- The controllers supply what their drives hold, in every burst of the log: a drive that has
been given a block supplies it from then on. One that takes the data of the last block and
then fails it, with ERR set and BSY clear, may not; `ata_wait` tests its mask before ERR,
and the driver takes the block for written. -/
def SuppliesItsBlocks (inp : AtaInputs) (c : Controllers) (log : List AtaEvent) : Prop :=
  monitor (diskMonitor inp) (some c) log ≠ some none

/-- **Refinement.** Whatever the registers, the clock and the drives say, the driver moves blocks
only as the commands ask that it has given, and as long as the controllers supply
what the drives hold, any sequence of calls is a run of requests on the store of blocks. -/
theorem disk_refines_store {calls : List DiskCall} (hValid : ∀ call ∈ calls, call.Valid)
    (ports : Ports) (transfer : Nat → Option Transfer) (s : AtaState) :
    ∃ p, monitor (diskMonitor inp) (some ⟨ports, transfer, S, s.dataReads⟩)
      (runCalls inp fuel calls s).2.2 = some p ∧
      ∀ c, p = some c → ∃ done, done.map Prod.fst <+: calls ∧
        (∀ vs, (runCalls inp fuel calls s).1 = some vs → done.map Prod.fst = calls ∧
          done.map Prod.snd = vs) ∧
        DiskRun S s.mem done c.drives (runCalls inp fuel calls s).2.1.mem ∧
        ∃ rs, Run S rs c.drives ∧ ∀ d b, (∀ cv ∈ done, ¬ cv.1.Writes d b) →
          ∀ r ∈ rs, ¬ r.1.Writes d b := by
  have hStart : DisksHold S s.mem (some ⟨ports, transfer, S, s.dataReads⟩) s := by
    intro c hc
    obtain rfl := Option.some.inj hc
    exact ⟨rfl, rfl, rfl⟩
  obtain ⟨p, hLog, done, S', m', hHold, hRun, hPrefix, hReturned⟩ :=
    runCalls_run inp fuel S s.mem hValid _ s hStart
  refine ⟨p, hLog, fun c hc => ⟨done, hPrefix, hReturned, ?_⟩⟩
  obtain ⟨rfl, rfl, -⟩ := hHold c hc
  exact ⟨hRun, hRun.requests⟩

/-- A drive that is always ready and asks for data, and supplies the word 0x4241. -/
def readyDrive : AtaInputs := { steadyDrive 0x48 with data := fun _ => 0x4241 }

/-- Memory that is filled with this word. -/
def filledState : AtaState := { freshState with mem := fun a => if a % 2 = 0 then 0x41 else 0x42 }

/-- Blocks 7 and 8 of drive 1 written, the buffer of the write cleared, and block 8 read. -/
def writeThenRead : List DiskCall :=
  .write 1 4096 2 7 :: [.other fun m => m.store8 4608 0] ++ [.read 1 8192 1 8]

theorem disk_refines_store_write_then_read :
    ∃ p,
      monitor (diskMonitor readyDrive) (some ⟨fun _ => 0, fun _ => none, fun _ _ _ => 0, 0⟩)
        (runCalls readyDrive 1 writeThenRead filledState).2.2 = some p ∧
      ∀ c, p = some c → ∃ done, done.map Prod.fst <+: writeThenRead ∧
        DiskRun (fun _ _ _ => 0) filledState.mem done c.drives
          (runCalls readyDrive 1 writeThenRead filledState).2.1.mem := by
  have hValid : ∀ call ∈ writeThenRead, call.Valid := by
    intro call hCall
    simp only [writeThenRead, List.cons_append, List.nil_append, List.mem_cons, List.not_mem_nil,
      or_false] at hCall
    rcases hCall with rfl | rfl | rfl
    · exact ⟨by decide, by decide, by decide, by decide⟩
    · trivial
    · exact ⟨by decide, by decide, by decide, by decide⟩
  obtain ⟨p, hLog, hRun⟩ :=
    disk_refines_store readyDrive 1 (fun _ _ _ => 0) hValid (fun _ => 0) (fun _ => none)
    filledState
  refine ⟨p, hLog, fun c hc => ?_⟩
  obtain ⟨done, hPrefix, -, hDone, -⟩ := hRun c hc
  exact ⟨done, hPrefix, hDone⟩

/-- The first and the last of a list of pairs. -/
theorem first_and_last {α β : Type} {done : List (α × β)} {a a' : α} {b b' : β}
    {as : List α} {bs : List β} (hFst : done.map Prod.fst = a :: as ++ [a'])
    (hSnd : done.map Prod.snd = b :: bs ++ [b']) :
    ∃ between, done = (a, b) :: between ++ [(a', b')] ∧ between.map Prod.fst = as := by
  rw [List.cons_append] at hFst hSnd
  obtain ⟨⟨x, y⟩, rest, rfl, rfl, hRest⟩ := List.map_eq_cons_iff.mp hFst
  obtain ⟨between, last, rfl, hBetween, hLast⟩ := List.map_eq_append_iff.mp hRest
  obtain ⟨⟨x', y'⟩, tail, rfl, rfl, hTail⟩ := List.map_eq_cons_iff.mp hLast
  obtain rfl := List.map_eq_nil_iff.mp hTail
  simp only [List.map_cons, List.map_append, List.map_nil, List.cons.injEq] at hSnd
  obtain ⟨rfl, hSnd⟩ := hSnd
  obtain rfl := (List.cons.inj (List.append_inj_right' hSnd rfl)).1
  exact ⟨between, rfl, hBetween⟩

/-- **A block read back.** As long as the controllers supply what their drives hold: after a
write that was reported as done, and any calls that do not write the blocks in question, a
read of some of the blocks that is reported as done puts the bytes into its buffer that were
in the buffer of the write. -/
theorem read_after_write {id buffer offset buffer' offset' : Nat} {nblocks nblocks' v v' : Int}
    {calls : List DiskCall} {vs : List Int} (hWrite : Addressable id nblocks offset)
    (hRead : Addressable id nblocks' offset') (hLow : offset ≤ offset')
    (hHigh : offset' + nblocks'.toNat ≤ offset + nblocks.toNat)
    (hValid : ∀ call ∈ calls, call.Valid)
    (hOther : ∀ call ∈ calls, ∀ b, offset' ≤ b → b < offset' + nblocks'.toNat →
      ¬ call.Writes id b)
    (ports : Ports) (transfer : Nat → Option Transfer) (s : AtaState)
    (hReturned : (runCalls inp fuel
      (.write id buffer nblocks offset :: calls ++ [.read id buffer' nblocks' offset']) s).1 =
        some (v :: vs ++ [v']))
    (hWritten : v ≠ 0) (hRead' : v' ≠ 0)
    (hSupplies : SuppliesItsBlocks inp ⟨ports, transfer, S, s.dataReads⟩ (runCalls inp fuel
      (.write id buffer nblocks offset :: calls ++ [.read id buffer' nblocks' offset']) s).2.2)
    {i : Nat} (hi : i < 512 * nblocks'.toNat) :
    (runCalls inp fuel
      (.write id buffer nblocks offset :: calls ++ [.read id buffer' nblocks' offset']) s).2.1.mem
      (buffer' + i) = s.mem (buffer + 512 * (offset' - offset) + i) := by
  have hAll : ∀ call ∈ .write id buffer nblocks offset :: calls ++
      [.read id buffer' nblocks' offset'], call.Valid := by
    intro call hMem
    rcases List.mem_append.mp hMem with hMem | hMem
    · rcases List.mem_cons.mp hMem with rfl | hMem
      · exact hWrite
      · exact hValid call hMem
    · obtain rfl := List.mem_singleton.mp hMem
      exact hRead
  have hStart : DisksHold S s.mem (some ⟨ports, transfer, S, s.dataReads⟩) s := by
    intro c hc
    obtain rfl := Option.some.inj hc
    exact ⟨rfl, rfl, rfl⟩
  obtain ⟨p, hLog, done, S', m', hHold, hRun, -, hReports⟩ :=
    runCalls_run inp fuel S s.mem hAll _ s hStart
  generalize
    runCalls inp fuel
      (.write id buffer nblocks offset :: calls ++ [.read id buffer' nblocks' offset']) s =
    result at *
  cases p with
  | none => exact absurd hLog hSupplies
  | some c =>
    obtain ⟨-, hMem, -⟩ := hHold c rfl
    obtain ⟨hCalls, hValues⟩ := hReports _ hReturned
    -- the run is the write, the calls between, and the read
    obtain ⟨between, rfl, hBetween⟩ := first_and_last hCalls hValues
    obtain ⟨S₂, m₂, hBefore, hLastRun⟩ := hRun.append
    cases hBefore with
    | @cons _ S₁ _ _ m₁ _ _ _ _ hFirst hBetweenRun =>
      obtain ⟨-, j, -, rfl, hAllWritten⟩ := hFirst
      obtain rfl := hAllWritten hWritten
      cases hLastRun with
      | cons hLast hEnd =>
        cases hEnd
        obtain ⟨-, k, -, rfl, hAllRead⟩ := hLast
        obtain rfl := hAllRead hRead'
        -- the blocks between the two calls
        have hKept : ∀ b, offset' ≤ b → b < offset' + nblocks'.toNat →
            S₂ id b = (S.put id offset nblocks.toNat (blockAt s.mem buffer)) id b := by
          intro b hb hb'
          obtain ⟨rs, hStore, hWrites⟩ := hBetweenRun.requests
          refine hStore.untouched (hWrites id b fun cv hcv => ?_)
          exact hOther cv.1 (hBetween ▸ List.mem_map_of_mem hcv) b hb hb'
        rw [hMem, copyIn, if_pos ⟨by omega, by omega⟩, Nat.add_sub_cancel_left, Nat.add_assoc]
        have hBlock : S₂ id (offset' + i / 512) =
            blockAt s.mem (buffer + 512 * (offset' - offset)) (i / 512) := by
          rw [hKept _ (by omega) (by omega)]
          rw [show offset' + i / 512 =
            offset + (offset' - offset + i / 512) by omega, put_get (by omega)]
          funext k
          unfold blockAt
          rw [show buffer + 512 * (offset' - offset + i / 512) =
            buffer + 512 * (offset' - offset) + 512 * (i / 512) by omega]
        rw [bytesOf_blockAt hBlock, Nat.add_assoc]

theorem read_after_write_second_block :
    SuppliesItsBlocks readyDrive ⟨fun _ => 0, fun _ => none, fun _ _ _ => 0, 0⟩
        (runCalls readyDrive 1 writeThenRead filledState).2.2 ∧
      (runCalls readyDrive 1 writeThenRead filledState).2.1.mem 8192 = 0x41 := by
  have hSupplies : SuppliesItsBlocks readyDrive
      ⟨fun _ => 0, fun _ => none, fun _ _ _ => 0, filledState.dataReads⟩
      (runCalls readyDrive 1 writeThenRead filledState).2.2 := by
    have hEnd :
        (monitor (diskMonitor readyDrive) (some ⟨fun _ => 0, fun _ => none, fun _ _ _ => 0, 0⟩)
        (runCalls readyDrive 1 writeThenRead filledState).2.2).map Option.isSome = some true := by
      decide +kernel
    intro hc
    rw [show filledState.dataReads = 0 from rfl] at hc
    rw [hc] at hEnd
    cases hEnd
  refine ⟨hSupplies, ?_⟩
  have hReturned : (runCalls readyDrive 1 writeThenRead filledState).1 =
      some (2 :: [1] ++ [1]) := by
    decide +kernel
  exact read_after_write readyDrive 1 (fun _ _ _ => 0)
    ⟨by decide, by decide, by decide, by decide⟩
    ⟨by decide, by decide, by decide, by decide⟩ (by decide) (by decide)
    (fun call hCall => by rw [List.mem_singleton.mp hCall]; trivial)
    (fun call hCall => by rw [List.mem_singleton.mp hCall]; exact fun _ _ _ => id)
    (fun _ => 0) (fun _ => none) filledState hReturned (by decide) (by decide) hSupplies (i := 0)
      (by decide)

end Hexos
