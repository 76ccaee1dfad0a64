import Hexos.Io.Blocks

/-!
# HexOS — the blocks that a request asks for

`ata_begin` slices the block number into three bytes and four bits of the drive
register, and writes the number of blocks to an 8-bit register;
`atapi_read_unlocked` puts the number of blocks into two bytes of its packet.
Neither checks that the numbers fit. The drive takes the registers as a 28-bit
block number and a count with 0 for 256, and the packet as a SCSI READ(10).

## Results

* `ataBegin_ports`, `atapiRead_packets` — what the drive is told, whatever the
  status register and the clock say.
* `ataBegin_returns`, `atapiRead_returns` — calls that go through.
* `right_blocks_requested_iff` — the requests for which the drive is told what the
  caller asked for.
-/

namespace Hexos

open Mem Traced

-- ---------------------------------------------------------------------------
-- What the drive sees
-- ---------------------------------------------------------------------------

/-- The values last written to the ports. -/
abbrev Ports := Nat → Nat

/-- The ports after an event. -/
def portWrite (p : Ports) : AtaEvent → Ports
  | .outb port value => Function.update p port value
  | _ => p

/-- The ports after a log. -/
def portsAfter (p : Ports) (log : List AtaEvent) : Ports := log.foldl portWrite p

/-- The block number and the number of blocks that a drive is asked for. -/
structure BlockRequest where
  lba   : Nat
  count : Nat
deriving DecidableEq

/-- The command block registers at `base` under 28-bit linear addressing: the drive bit
and the request. A count of 0 is 256. -/
def decodeLba28 (base : Nat) (p : Ports) : Option (Nat × BlockRequest) :=
  let fdh := p (base + 6)
  if fdh / 2 ^ 6 % 2 = 1 then
    some (fdh / 2 ^ 4 % 2,
      ⟨p (base + 3) + 2 ^ 8 * p (base + 4) + 2 ^ 16 * p (base + 5) + 2 ^ 24 * (fdh % 2 ^ 4),
        if p (base + 2) = 0 then 256 else p (base + 2)⟩)
  else none

/-- The packets written to the data register. -/
def packetsOf (log : List AtaEvent) : List (List Nat) :=
  log.filterMap fun
    | .pioWrite _ words => some words
    | _ => none

/-- A packet as a SCSI READ(10): a 32-bit block number and a 16-bit count, the high
byte first. -/
def decodeRead10 (words : List Nat) : Option BlockRequest :=
  let byte (i : Nat) : Nat := (words.flatMap fun w => [w % 2 ^ 8, w / 2 ^ 8]).getD i 0
  if byte 0 = 0x28 then
    some ⟨2 ^ 24 * byte 2 + 2 ^ 16 * byte 3 + 2 ^ 8 * byte 4 + byte 5, 2 ^ 8 * byte 7 + byte 8⟩
  else none

/-- `ata_begin` asks for exactly these blocks: whenever it does not return 0, the
registers decode to the request, with the drive bit of `id`. -/
def BeginsExactly (id command : Nat) (nblocks : Int) (offset : Nat) : Prop :=
  ∀ inp fuel s ports, (ataBegin inp fuel id command nblocks offset s).1 = some true →
    decodeLba28 (ataBase id)
    (portsAfter ports (ataBegin inp fuel id command nblocks offset s).2.2) =
      some (id % 2, ⟨offset, nblocks.toNat⟩)

/-- `atapi_read` asks for exactly these blocks: whenever it does not return 0, it has
written one packet, which decodes to the request. -/
def ReadsExactly (id : Nat) (nblocks : Int) (offset : Nat) : Prop :=
  ∀ inp fuel buffer s v, (atapiRead inp fuel id buffer nblocks offset s).1 = some v → v ≠ 0 →
    (packetsOf (atapiRead inp fuel id buffer nblocks offset s).2.2).map decodeRead10 =
      [some ⟨offset, nblocks.toNat⟩]

-- ---------------------------------------------------------------------------
-- Registers
-- ---------------------------------------------------------------------------

/-- The monitor whose phase is the ports. -/
def portMonitor (p : Ports) (e : AtaEvent) : Option Ports := some (portWrite p e)

theorem monitor_portMonitor (p : Ports) (log : List AtaEvent) :
    monitor portMonitor p log = some (portsAfter p log) := by
  induction log generalizing p with
  | nil => rfl
  | cons e log ih => exact ih (portWrite p e)

theorem quiet_ports : Quiet portMonitor fun _ _ => True where
  outb _ _ _ _ _ := ⟨_, rfl, trivial⟩
  wait _ _ _ _ _ _ _ := ⟨_, rfl, trivial⟩
  counters _ _ _ _ _ := trivial

/-- A sequence of `outb` calls. -/
theorem outbs_ports (l : List (Nat × Nat)) (p₀ : Ports) :
    Triple portMonitor (fun p _ => p = p₀) (outbs l) fun _ p _ =>
      p = l.foldl (fun p pv => Function.update p pv.1 (pv.2 % 256)) p₀ := by
  induction l generalizing p₀ with
  | nil => exact Triple.pure fun _ _ h => h
  | cons pv l ih =>
    refine Triple.bind_emit (R := fun p _ => p = Function.update p₀ pv.1 (pv.2 % 256)) ?_ (ih _)
    rintro p s rfl
    exact ⟨_, rfl, rfl⟩

/-- The fields of the drive register. -/
theorem driveFlags_or (id : Nat) {h : Nat} (hh : h < 16) :
    (driveFlags id ||| h) % 256 / 2 ^ 6 % 2 = 1 ∧
    (driveFlags id ||| h) % 256 / 2 ^ 4 % 2 = id % 2 ∧
      (driveFlags id ||| h) % 256 % 2 ^ 4 = h := by
  rcases Nat.mod_two_eq_zero_or_one id with hEven | hOdd
  · have hFlags : driveFlags id = 0xE0 := by simp [driveFlags, hEven]
    rw [hFlags, hEven]
    revert h
    decide
  · have hFlags : driveFlags id = 0xF0 := by simp [driveFlags, hOdd]
    rw [hFlags, hOdd]
    revert h
    decide

/-- What the registers decode to after the arguments have been sent. -/
theorem decodeLba28_sent (base id command offset : Nat) (nblocks : Int) (p : Ports) :
    decodeLba28 base
      ([(base + 0x206, 0), (base + 2, (nblocks % 256).toNat), (base + 3, offset &&& 0xFF),
        (base + 4, offset / 2 ^ 8 &&& 0xFF), (base + 5, offset / 2 ^ 16 &&& 0xFF),
        (base + 6, driveFlags id ||| (offset / 2 ^ 24 &&& 0x0F)), (base + 7, command)].foldl
        (fun p pv => Function.update p pv.1 (pv.2 % 256)) p) =
      some (id % 2,
        ⟨offset % 2 ^ 28, if nblocks % 256 = 0 then 256 else (nblocks % 256).toNat⟩) := by
  have hByte : ∀ n, n &&& 0xFF = n % 2 ^ 8 := fun n => Nat.and_two_pow_sub_one_eq_mod n 8
  have hNibble : offset / 2 ^ 24 &&& 0x0F = offset / 2 ^ 24 % 2 ^ 4 :=
    Nat.and_two_pow_sub_one_eq_mod _ 4
  have hLow : offset / 2 ^ 24 % 2 ^ 4 < 16 := Nat.mod_lt _ (by omega)
  obtain ⟨hLba, hDrive, hHead⟩ := driveFlags_or id hLow
  unfold decodeLba28
  simp only [List.foldl_cons, List.foldl_nil, Function.update_apply, hByte, hNibble]
  simp only [Nat.add_left_cancel_iff, reduceIte, Nat.reduceEqDiff, hLba, hDrive, hHead]
  have hCount : (nblocks % 256).toNat % 256 = (nblocks % 256).toNat := Nat.mod_eq_of_lt (by omega)
  have hZero : (nblocks % 256).toNat = 0 ↔ nblocks % 256 = 0 := by omega
  rw [hCount]
  simp only [hZero, Option.some.injEq, Prod.mk.injEq, BlockRequest.mk.injEq, true_and, and_true]
  omega

/-- **`ata_begin`.** The registers after a call that returns 1. -/
theorem ataBegin_ports (inp : AtaInputs) (fuel id command : Nat) (nblocks : Int) (offset : Nat) :
    Triple portMonitor (fun _ _ => True) (ataBegin inp fuel id command nblocks offset) fun r p _ =>
      r = some true → decodeLba28 (ataBase id) p =
        some (id % 2,
          ⟨offset % 2 ^ 28, if nblocks % 256 = 0 then 256 else (nblocks % 256).toNat⟩) := by
  refine checked (quiet_ports.ataWait inp fuel id _ _) ?_ (fun _ _ _ hc => by cases hc)
    fun _ _ _ hc => by cases hc
  refine Triple.bind (quiet_ports.outbs _) ?_ fun _ _ _ hc => by cases hc
  intro _
  refine checked (quiet_ports.waitReady inp fuel id command) ?_ (fun _ _ _ hc => by cases hc)
    fun _ _ _ hc => by cases hc
  -- the arguments are the last thing that is written
  refine Triple.of_forall ?_
  intro p s _
  refine Triple.bind (Triple.strengthen (outbs_ports _ p) fun _ _ h => h.1) ?_
    fun _ _ _ hc => by cases hc
  intro _
  refine Triple.pure ?_
  intro p' _ hp _
  rw [hp]
  exact decodeLba28_sent (ataBase id) id command offset nblocks p

-- ---------------------------------------------------------------------------
-- Packets
-- ---------------------------------------------------------------------------

/-- The monitor whose phase is the packets. -/
def packetMonitor (ps : List (List Nat)) (e : AtaEvent) : Option (List (List Nat)) :=
  some (ps ++ packetsOf [e])

theorem monitor_packetMonitor (ps : List (List Nat)) (log : List AtaEvent) :
    monitor packetMonitor ps log = some (ps ++ packetsOf log) := by
  induction log generalizing ps with
  | nil => simp [monitor, packetsOf]
  | cons e log ih =>
    rw [monitor, packetMonitor, Option.bind_some, ih, List.append_assoc]
    unfold packetsOf
    rw [← List.filterMap_append, List.singleton_append]

/-- The packets written so far. -/
def PacketsAre (ps₀ : List (List Nat)) (ps : List (List Nat)) (_ : AtaState) : Prop := ps = ps₀

theorem quiet_packets (ps₀ : List (List Nat)) : Quiet packetMonitor (PacketsAre ps₀) where
  outb ps _ _ _ h := ⟨ps, by simp [packetMonitor, packetsOf], h⟩
  wait ps _ _ _ _ _ h := ⟨ps, by simp [packetMonitor, packetsOf], h⟩
  counters _ _ _ _ h := h

/-- The loop over the blocks writes no packet. -/
theorem readBlocks_packets (inp : AtaInputs) (fuel id size n buffer : Nat)
    (ps₀ : List (List Nat)) :
    Triple packetMonitor (PacketsAre ps₀) (readBlocks inp fuel id size n buffer)
      fun _ => PacketsAre ps₀ := by
  induction n generalizing buffer with
  | zero => exact Triple.pure fun _ _ h => h
  | succ n ih =>
    refine checked ((quiet_packets ps₀).ataWait inp fuel id _ _) ?_ (fun _ _ h => h) fun _ _ h =>
      h
    have hRead : Triple packetMonitor (PacketsAre ps₀) (ataPioRead inp id buffer size)
        fun _ => PacketsAre ps₀ := by
      refine Triple.bind_emit (R := PacketsAre ps₀) (fun ps s h => ⟨ps, ?_, h⟩)
        (Triple.update fun _ _ h => h)
      simp [packetMonitor, packetsOf]
    exact Triple.bind hRead (fun _ => ih _) fun _ _ h => h

/-- The words of the packet. -/
def packetWords (nblocks : Int) (offset : Nat) : List Nat :=
  wordsAt (fun i => (readPacket nblocks offset).getD i 0) 0 12

/-- **`atapi_read`.** The packets of a call that returns something other than 0. -/
theorem atapiRead_packets (inp : AtaInputs) (fuel id buffer : Nat) (nblocks : Int) (offset : Nat) :
    Triple packetMonitor (PacketsAre []) (atapiRead inp fuel id buffer nblocks offset) fun r ps _ =>
      ∀ v, r = some v → v ≠ 0 → ps = [packetWords nblocks offset] := by
  have hBegin : Triple packetMonitor (PacketsAre [])
      (atapiBegin inp fuel id (fun i => (readPacket nblocks offset).getD i 0) 12) fun r ps _ =>
        r = some true → ps = [packetWords nblocks offset] := by
    have hQuiet := quiet_packets []
    refine checked (hQuiet.ataWait inp fuel id _ _) ?_ (fun _ _ _ hc => by cases hc)
      fun _ _ _ hc => by cases hc
    refine Triple.bind (hQuiet.outbs _) ?_ fun _ _ _ hc => by cases hc
    intro _
    refine checked (hQuiet.ataWait inp fuel id _ _) ?_ (fun _ _ _ hc => by cases hc)
      fun _ _ _ hc => by cases hc
    refine Triple.bind (hQuiet.outbs _) ?_ fun _ _ _ hc => by cases hc
    intro _
    refine Triple.bind (hQuiet.ataWait inp fuel id _ _) ?_ fun _ _ _ hc => by cases hc
    intro _
    refine Triple.bind_emit (R := PacketsAre [packetWords nblocks offset]) ?_
      (Triple.pure fun _ _ h _ => h)
    rintro ps s rfl
    exact ⟨_, rfl, rfl⟩
  refine Triple.bind hBegin ?_ fun _ _ _ v hv => by cases hv
  intro begun
  split
  · exact Triple.pure fun _ _ _ v hv hne => absurd (Option.some.inj hv).symm hne
  · next hBegun =>
    refine Triple.strengthen (P := PacketsAre [packetWords nblocks offset]) ?_ fun _ _ h =>
      h (by simpa using hBegun)
    refine Triple.bind (waitQueue_keeps inp) ?_ fun _ _ _ v hv => by cases hv
    intro _
    exact checked (readBlocks_packets inp fuel id _ _ _ _) (Triple.pure fun _ _ h _ _ _ => h)
      (fun _ _ _ v hv hne => absurd (Option.some.inj hv).symm hne) fun _ _ _ v hv => by cases hv

/-- The packet as the drive reads it. -/
theorem decodeRead10_packetWords {nblocks : Int} {offset : Nat} (h : offset < 2 ^ 32) :
    decodeRead10 (packetWords nblocks offset) = some ⟨offset, (nblocks % 2 ^ 16).toNat⟩ := by
  have hWords : packetWords nblocks offset =
      [0x28, (offset / 2 ^ 24) % 256 + 256 * (offset / 2 ^ 16 % 256),
        offset / 2 ^ 8 % 256 + 256 * (offset % 256),
        256 * ((nblocks / 2 ^ 8 % 256).toNat % 256), (nblocks % 256).toNat % 256, 0] := by
    simp [packetWords, wordsAt, readPacket, load16, List.range_succ]
  have hByte : ∀ a b : Nat, (a % 256 + 256 * (b % 256)) % 2 ^ 8 = a % 256 ∧
      (a % 256 + 256 * (b % 256)) / 2 ^ 8 = b % 256 := by omega
  rw [hWords]
  simp only [decodeRead10, List.flatMap_cons, List.flatMap_nil, List.cons_append, List.nil_append,
    List.getD_cons_zero, List.getD_cons_succ, hByte]
  rw [if_pos (by omega)]
  simp only [Option.some.injEq, BlockRequest.mk.injEq]
  omega

-- ---------------------------------------------------------------------------
-- Calls that go through
-- ---------------------------------------------------------------------------

/-- A drive that always reports the same status, without interrupts. -/
def steadyDrive (status : BitVec 8) : AtaInputs where
  status := fun _ => status
  clock := fun _ => ⟨0, 0⟩
  data := fun _ => 0
  interruptActive := false
  woken := false

theorem outbs_returns (l : List (Nat × Nat)) : Returns (outbs l) () := by
  induction l with
  | nil => exact Returns.pure ()
  | cons pv l ih => exact Returns.bind (Returns.emit _) ih

/-- A wait for the status that the drive reports. -/
theorem ataWait_returns {status mask state : BitVec 8} (h : status &&& mask = state) (id : Nat) :
    Returns (ataWait (steadyDrive status) 1 id mask state) true := by
  refine Returns.bind (a := ⟨0, 0⟩) (fun _ => rfl) ?_
  refine Returns.bind (a := status) (fun _ => rfl) ?_
  rw [if_pos h]
  exact Returns.bind (Returns.emit _) (Returns.pure true)

/-- A part whose result is checked and is 1. -/
theorem checked_returns {α : Type} {f : Driver Bool} {g : Driver α} {z a : α}
    (hf : Returns f true) (hg : Returns g a) :
    Returns (do let ok ← f; if ok = false then pure z else g) a := by
  refine Returns.bind hf ?_
  rw [if_neg (by decide)]
  exact hg

/-- A drive that is ready lets a command through. -/
theorem ataBegin_returns {command : Nat} (hCommand : command ≠ 0xA1) (id : Nat) (nblocks : Int)
    (offset : Nat) : Returns (ataBegin (steadyDrive 0x40) 1 id command nblocks offset) true := by
  have hReady : Returns (waitReady (steadyDrive 0x40) 1 id command) true := by
    unfold waitReady
    rw [if_neg hCommand]
    exact ataWait_returns (by decide) id
  refine checked_returns (ataWait_returns (by decide) id) ?_
  refine Returns.bind (outbs_returns _) ?_
  refine checked_returns hReady ?_
  exact Returns.bind (outbs_returns _) (Returns.pure true)

/-- A drive that always requests data lets a packet and any number of blocks through. -/
theorem atapiRead_returns (id buffer : Nat) (nblocks : Int) (offset : Nat) :
    Returns (atapiRead (steadyDrive 0x08) 1 id buffer nblocks offset) 1 := by
  have hBegin : ∀ data length, Returns (atapiBegin (steadyDrive 0x08) 1 id data length) true := by
    intro data length
    refine checked_returns (ataWait_returns (by decide) id) ?_
    refine Returns.bind (outbs_returns _) ?_
    refine checked_returns (ataWait_returns (by decide) id) ?_
    refine Returns.bind (outbs_returns _) ?_
    refine Returns.bind (ataWait_returns (by decide) id) ?_
    exact Returns.bind (Returns.emit _) (Returns.pure true)
  have hBlocks : ∀ size n buffer,
      Returns (readBlocks (steadyDrive 0x08) 1 id size n buffer) true := by
    intro size n
    induction n with
    | zero =>
      intro buffer
      exact Returns.pure true
    | succ n ih =>
      intro buffer
      refine checked_returns (ataWait_returns (by decide) id) ?_
      exact Returns.bind (a := ()) (fun _ => rfl) (ih (buffer + size))
  refine checked_returns (hBegin _ _) ?_
  exact Returns.bind (a := ()) (fun _ => rfl) (checked_returns (hBlocks _ _ _) (Returns.pure 1))

-- ---------------------------------------------------------------------------
-- Requests
-- ---------------------------------------------------------------------------

/-- A machine before its first access to the disk. -/
def freshState : AtaState := ⟨0, 0, 0, fun _ => 0⟩

theorem beginsExactly_iff {id command offset : Nat} {nblocks : Int} (hCommand : command ≠ 0xA1)
    (hBlocks : 1 ≤ nblocks) :
    BeginsExactly id command nblocks offset ↔ offset < 2 ^ 28 ∧ nblocks ≤ 256 := by
  -- what the registers decode to does not depend on the run
  have hDecode : ∀ inp fuel s ports,
      (ataBegin inp fuel id command nblocks offset s).1 = some true →
      decodeLba28 (ataBase id)
          (portsAfter ports (ataBegin inp fuel id command nblocks offset s).2.2) =
        some (id % 2,
          ⟨offset % 2 ^ 28, if nblocks % 256 = 0 then 256 else (nblocks % 256).toNat⟩) := by
    intro inp fuel s ports hTrue
    obtain ⟨p, hLog, hPorts⟩ :=
      ataBegin_ports inp fuel id command nblocks offset ports s trivial
    rw [monitor_portMonitor] at hLog
    rw [Option.some.inj hLog]
    exact hPorts hTrue
  have hCount : (if nblocks % 256 = 0 then 256 else (nblocks % 256).toNat) = nblocks.toNat ↔
      nblocks ≤ 256 := by
    split <;> omega
  have hSame : (some (id % 2, (⟨offset % 2 ^ 28, if nblocks % 256 = 0 then 256 else
      (nblocks % 256).toNat⟩ : BlockRequest)) = some (id % 2, ⟨offset, nblocks.toNat⟩)) ↔
      offset < 2 ^ 28 ∧ nblocks ≤ 256 := by
    simp only [Option.some.injEq, Prod.mk.injEq, BlockRequest.mk.injEq, true_and, hCount]
    omega
  constructor
  · intro h
    have hReturns := ataBegin_returns hCommand id nblocks offset freshState
    have hExact := h _ _ _ (fun _ => 0) hReturns
    rw [hDecode _ _ _ _ hReturns] at hExact
    exact hSame.mp hExact
  · intro hFits inp fuel s ports hTrue
    rw [hDecode inp fuel s ports hTrue]
    exact hSame.mpr hFits

theorem readsExactly_iff {id offset : Nat} {nblocks : Int} (hOffset : offset < 2 ^ 32)
    (hBlocks : 1 ≤ nblocks) : ReadsExactly id nblocks offset ↔ nblocks ≤ 65535 := by
  have hDecode : ∀ inp fuel buffer s v,
      (atapiRead inp fuel id buffer nblocks offset s).1 = some v →
      v ≠ 0 → (packetsOf (atapiRead inp fuel id buffer nblocks offset s).2.2).map decodeRead10 =
        [some ⟨offset, (nblocks % 2 ^ 16).toNat⟩] := by
    intro inp fuel buffer s v hv hne
    obtain ⟨ps, hLog, hPackets⟩ := atapiRead_packets inp fuel id buffer nblocks offset [] s rfl
    rw [monitor_packetMonitor, List.nil_append] at hLog
    rw [Option.some.inj hLog, hPackets v hv hne, List.map_singleton,
      decodeRead10_packetWords hOffset]
  have hSame : ([some (⟨offset, (nblocks % 2 ^ 16).toNat⟩ : BlockRequest)] =
      [some ⟨offset, nblocks.toNat⟩]) ↔ nblocks ≤ 65535 := by
    simp only [List.cons.injEq, Option.some.injEq, BlockRequest.mk.injEq, true_and, and_true]
    omega
  constructor
  · intro h
    have hReturns := atapiRead_returns id 0 nblocks offset freshState
    have hExact := h _ _ _ _ 1 hReturns (by omega)
    rw [hDecode _ _ _ _ 1 hReturns (by omega)] at hExact
    exact hSame.mp hExact
  · intro hFits inp fuel buffer s v hv hne
    rw [hDecode inp fuel buffer s v hv hne]
    exact hSame.mpr hFits

/-- **Requests.** For every drive, block number and number of blocks, `ata_begin` for a
read or a write asks for exactly the blocks whenever it does not return 0 if and only
if the block number has 28 bits and there are at most 256 blocks; `atapi_read`, if and
only if there are at most 65535. -/
theorem right_blocks_requested_iff (id offset : Nat) (nblocks : Int) (hOffset : offset < 2 ^ 31)
    (hBlocks : 1 ≤ nblocks) :
    (BeginsExactly id 0x20 nblocks offset ∧ BeginsExactly id 0x30 nblocks offset ↔
      offset < 2 ^ 28 ∧ nblocks ≤ 256) ∧
    (ReadsExactly id nblocks offset ↔ nblocks ≤ 65535) := by
  refine ⟨?_, readsExactly_iff (by omega) hBlocks⟩
  rw [beginsExactly_iff (by omega) hBlocks, beginsExactly_iff (by omega) hBlocks]
  exact and_self_iff

/-- Block 16 of the second drive: the volume descriptor of a disc. -/
theorem right_block_requested_descriptor :
    BeginsExactly 1 0x20 1 16 ∧ BeginsExactly 1 0x30 1 16 ∧ ReadsExactly 1 1 16 := by
  obtain ⟨hAta, hAtapi⟩ := right_blocks_requested_iff 1 16 1 (by omega) (by omega)
  obtain ⟨hRead, hWrite⟩ := hAta.mpr ⟨by omega, by omega⟩
  exact ⟨hRead, hWrite, hAtapi.mpr (by omega)⟩

/-- A read of 257 blocks asks for one block, a read of 65536 blocks of a disc for none,
and block 2^28 is taken for block 0. -/
theorem wrong_blocks_requested :
    ¬ BeginsExactly 0 0x20 257 0 ∧ ¬ BeginsExactly 0 0x20 1 (2 ^ 28) ∧
    ¬ ReadsExactly 2 65536 0 := by
  refine ⟨?_, ?_, ?_⟩
  · intro h
    exact absurd ((beginsExactly_iff (by omega) (by omega)).mp h).2 (by omega)
  · intro h
    exact absurd ((beginsExactly_iff (by omega) (by omega)).mp h).1 (by omega)
  · intro h
    exact absurd ((readsExactly_iff (by omega) (by omega)).mp h) (by omega)

end Hexos
