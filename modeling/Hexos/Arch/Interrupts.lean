import Hexos.Io.Pic
import Hexos.Lib.Order
import Hexos.Lib.Transition
import Mathlib.Data.Finset.Basic
import Mathlib.Data.Fintype.Basic
import Mathlib.Data.List.FinRange

/-!
# HexOS — the two interrupt controllers at work

The port writes of `kernel/arch/i386/isr.c`: `irq_remap`, `pic_init`, `irq_enable`,
`pic_disable`, `pic_acknowledge` and the end of interrupt of `irq_handler`, against
the two 8259 chips. The chips are those of the data sheet in the mode that the
kernel sets: edges, fully nested priorities, the second one at input 2 of the first.

The lines may be raised and dropped and the masks changed at any time, and the
handlers may let other interrupts in: the state of the system has the frames of all
handlers that have been entered and not left. A request that is gone when the
processor takes the interrupt makes a chip give the number of its input 7 with no
in-service bit; `irq_handler` does not look at the bit and ends an interrupt all the
same.

## Results

* `masks_irqEnable`, `masks_picDisable` — the masks are those of `Hexos.Io.Pic`.
* `kernelBoot_idle` — the state of the chips after `kernel_early`, from any state.
* `interrupts_nested` — the in-service bits over any run, and what a spurious
  interrupt does to them.
-/

namespace Hexos

open Nesting Transition

-- ---------------------------------------------------------------------------
-- The chips
-- ---------------------------------------------------------------------------

/-- An 8259. `expects` is the number of the initialisation word it waits for, 0 if none. -/
structure I8259 where
  irr     : Finset (Fin 8)
  isr     : Finset (Fin 8)
  imr     : BitVec 8
  icw1    : BitVec 8
  icw2    : BitVec 8
  icw3    : BitVec 8
  icw4    : BitVec 8
  expects : Nat

namespace I8259

/-- The level in the low bits of a command. -/
def level (v : BitVec 8) : Fin 8 := ⟨v.toNat % 8, Nat.mod_lt _ (by omega)⟩

/-- A write to the control port: the first initialisation word, an end of interrupt for the
highest priority in service, or one for a given level. No other command is used. -/
def control (c : I8259) (v : BitVec 8) : I8259 :=
  if v.getLsbD 4 then { c with irr := ∅, imr := 0, icw1 := v, expects := 2 }
  else if v.extractLsb' 3 5 = 0b00100 then { c with isr := dropMin c.isr }
  else if v.extractLsb' 3 5 = 0b01100 then { c with isr := c.isr.erase (level v) }
  else c

/-- A write to the data port: the initialisation words in their order, then the mask. -/
def data (c : I8259) (v : BitVec 8) : I8259 :=
  match c.expects with
  | 2 => { c with
      icw2 := v
      expects := if c.icw1.getLsbD 1 then (if c.icw1.getLsbD 0 then 4 else 0) else 3 }
  | 3 => { c with icw3 := v, expects := if c.icw1.getLsbD 0 then 4 else 0 }
  | 4 => { c with icw4 := v, expects := 0 }
  | _ => { c with imr := v }

/-- The request that the chip passes on: the first that is not masked and that has no level
of its own or a higher priority in service. -/
def pick (c : I8259) (requests : Finset (Fin 8)) : Option (Fin 8) :=
  if c.expects = 0 then
    (List.finRange 8).find? fun i => i ∈ requests ∧ c.imr.getLsbD i = false ∧
      ∀ j ≤ i, j ∉ c.isr
  else none

/-- The processor takes the request `i`. -/
def serve (c : I8259) (i : Fin 8) : I8259 :=
  { c with irr := c.irr.erase i, isr := if c.icw4.getLsbD 1 then c.isr else insert i c.isr }

/-- The interrupt number of the request `i`. -/
def vector (c : I8259) (i : Fin 8) : Nat := c.icw2.toNat / 8 * 8 + i

end I8259

/-- The two chips. -/
structure I8259Pair where
  master : I8259
  slave  : I8259

namespace I8259Pair

variable (p : I8259Pair)

/-- `outb` to one of their ports. -/
def outb (port : Nat) (v : BitVec 8) : I8259Pair :=
  if port = 0x20 then { p with master := p.master.control v }
  else if port = 0x21 then { p with master := p.master.data v }
  else if port = 0xA0 then { p with slave := p.slave.control v }
  else if port = 0xA1 then { p with slave := p.slave.data v }
  else p

/-- `inb` from one of the two data ports. -/
def inb (port : Nat) : BitVec 8 := if port = 0x21 then p.master.imr else p.slave.imr

/-- The masks. -/
def masks : Pic := ⟨p.master.imr, p.slave.imr⟩

/-- The chips with other masks. -/
def withMasks (m : Pic) : I8259Pair :=
  ⟨{ p.master with imr := m.master }, { p.slave with imr := m.slave }⟩

/-- The requests at the inputs of the first chip: the second one is wired to input 2. -/
def requests : Finset (Fin 8) :=
  if (p.slave.pick p.slave.irr).isSome then insert (I8259.level 2) p.master.irr else p.master.irr

/-- The processor takes an interrupt whose request at the first chip is gone: the number of
input 7, and no in-service bit. -/
def acceptSpurious : Option (Nat × I8259Pair) :=
  if (p.master.pick p.requests).isSome then none else some (p.master.vector (I8259.level 7), p)

/-- The same at the second chip: the first one has the bit of input 2, the second none. -/
def acceptSpuriousSlave : Option (Nat × I8259Pair) :=
  if p.slave.pick p.slave.irr = none ∧
      p.master.pick (insert (I8259.level 2) p.master.irr) = some (I8259.level 2) then
    some (p.slave.vector (I8259.level 7), { p with master := p.master.serve (I8259.level 2) })
  else none

/-- The processor takes an interrupt: its number, and the chips afterwards. -/
def accept : Option (Nat × I8259Pair) :=
  match p.master.pick p.requests with
  | none => none
  | some i =>
      if p.master.icw3.getLsbD i then
        match p.slave.pick p.slave.irr with
        | none => none
        | some k =>
            if p.slave.icw3.toNat = i.val then
              some (p.slave.vector k, ⟨p.master.serve i, p.slave.serve k⟩)
            else none
      else some (p.master.vector i, { p with master := p.master.serve i })

-- ---------------------------------------------------------------------------
-- The functions of the kernel
-- ---------------------------------------------------------------------------

/-- `irq_remap`. -/
def irqRemap : I8259Pair :=
  let p := p.outb 0x20 0x11
  let p := p.outb 0xA0 0x11
  let p := p.outb 0x21 0x20
  let p := p.outb 0xA1 0x28
  let p := p.outb 0x21 0x04
  let p := p.outb 0xA1 0x02
  let p := p.outb 0x21 0x01
  let p := p.outb 0xA1 0x01
  let p := p.outb 0x21 0x0
  p.outb 0xA1 0x0

/-- `pic_init`. -/
def picInit (pic0base pic1base : Nat) : I8259Pair :=
  let p := p.outb 0x20 0x11
  let p := p.outb 0x21 (BitVec.ofNat 8 pic0base)
  let p := p.outb 0x21 (1 <<< 2)
  let p := p.outb 0x21 0x01
  let p := p.outb 0x21 (~~~(1 <<< 2))
  let p := p.outb 0xA0 0x11
  let p := p.outb 0xA1 (BitVec.ofNat 8 pic1base)
  let p := p.outb 0xA1 2
  let p := p.outb 0xA1 0x05
  p.outb 0xA1 (~~~0)

/-- `irq_enable`. -/
def irqEnable (irq : Nat) : I8259Pair :=
  if irq < 8 then p.outb 0x21 (unmaskBit (p.inb 0x21) irq)
  else
    let p := p.outb 0xA1 (unmaskBit (p.inb 0xA1) irq)
    p.outb 0x21 (unmaskBit (p.inb 0x21) 2)

/-- `pic_disable`. -/
def picDisable (irq : Nat) : I8259Pair :=
  if irq < 8 then p.outb 0x21 (maskBit (p.inb 0x21) irq)
  else p.outb 0xA1 (maskBit (p.inb 0xA1) irq)

/-- `pic_acknowledge`. -/
def picAcknowledge (irq : Nat) : I8259Pair :=
  if 8 ≤ irq then
    let p := p.outb 0xA0 (BitVec.ofNat 8 (0x60 + (irq - 8)))
    p.outb 0x20 (0x60 + 2)
  else p.outb 0x20 (BitVec.ofNat 8 (0x60 + irq))

/-- The first `k` rounds of the loop of `kernel_early` over the lines. -/
def bootLoop (k : Nat) : I8259Pair :=
  (List.range k).foldl (fun p i => (p.picDisable i).picAcknowledge i) p

/-- The calls of `kernel_early`: `irq_remap` through `irq_install`, `pic_init`, and the loop. -/
def kernelBoot : I8259Pair := (p.irqRemap.picInit 32 40).bootLoop 16

end I8259Pair

/-- The port writes of `irq_handler` once the routine of the line has returned. -/
def irqHandlerWrites (int_no : Nat) : List (Nat × BitVec 8) :=
  (if 40 ≤ int_no then [(0xA0, 0x20)] else []) ++ [(0x20, 0x20)]

-- ---------------------------------------------------------------------------
-- The system
-- ---------------------------------------------------------------------------

/-- A handler that has been entered and not left: the number of its interrupt, whether the
request was gone, the interrupt flag of what it interrupted, and the writes that are
still to come. -/
structure IrqFrame where
  int_no   : Nat
  spurious : Bool
  saved    : Bool
  todo     : List (Nat × BitVec 8)

/-- The chips, the handlers from the innermost one on, and the interrupt flag. -/
structure IrqSystem where
  pair    : I8259Pair
  frames  : List IrqFrame
  enabled : Bool

/-- What can happen next. -/
inductive IrqStep : IrqSystem → IrqSystem → Prop
  /-- A device raises a line. Nothing is wired to input 2 but the second chip. -/
  | raiseMaster (s : IrqSystem) (i : Fin 8) (hCascade : i ≠ 2) :
      IrqStep s { s with pair :=
        { s.pair with master := { s.pair.master with irr := insert i s.pair.master.irr } } }
  | raiseSlave (s : IrqSystem) (i : Fin 8) :
      IrqStep s { s with pair :=
        { s.pair with slave := { s.pair.slave with irr := insert i s.pair.slave.irr } } }
  /-- The line is dropped before the interrupt was taken. -/
  | dropMaster (s : IrqSystem) (i : Fin 8) :
      IrqStep s { s with pair :=
        { s.pair with master := { s.pair.master with irr := s.pair.master.irr.erase i } } }
  | dropSlave (s : IrqSystem) (i : Fin 8) :
      IrqStep s { s with pair :=
        { s.pair with slave := { s.pair.slave with irr := s.pair.slave.irr.erase i } } }
  /-- `irq_enable`, `pic_disable`, from the program or from a routine. -/
  | enable (s : IrqSystem) (irq : Nat) : IrqStep s { s with pair := s.pair.irqEnable irq }
  | disable (s : IrqSystem) (irq : Nat) : IrqStep s { s with pair := s.pair.picDisable irq }
  /-- `enable_interrupts`, `disable_interrupts`, from the program or from a routine. -/
  | sti (s : IrqSystem) : IrqStep s { s with enabled := true }
  | cli (s : IrqSystem) : IrqStep s { s with enabled := false }
  /-- The processor takes an interrupt. -/
  | accept (s : IrqSystem) (int_no : Nat) (pair : I8259Pair) (hOn : s.enabled = true)
      (hAccept : s.pair.accept = some (int_no, pair)) :
      IrqStep s
        ⟨pair, ⟨int_no, false, s.enabled, irqHandlerWrites int_no⟩ :: s.frames, false⟩
  /-- The processor takes an interrupt whose request is gone. -/
  | spurious (s : IrqSystem) (int_no : Nat) (pair : I8259Pair) (hOn : s.enabled = true)
      (hAccept : s.pair.acceptSpurious = some (int_no, pair) ∨
        s.pair.acceptSpuriousSlave = some (int_no, pair)) :
      IrqStep s
        ⟨pair, ⟨int_no, true, s.enabled, irqHandlerWrites int_no⟩ :: s.frames, false⟩
  /-- The routine of the innermost handler has returned: a write of its end of interrupt. -/
  | eoi (s : IrqSystem) (f : IrqFrame) (rest : List IrqFrame) (port : Nat) (v : BitVec 8)
      (todo : List (Nat × BitVec 8)) (hFrames : s.frames = f :: rest)
      (hTodo : f.todo = (port, v) :: todo) :
      IrqStep s ⟨s.pair.outb port v, { f with todo := todo } :: rest, s.enabled⟩
  /-- The innermost handler is done. -/
  | iret (s : IrqSystem) (f : IrqFrame) (rest : List IrqFrame) (hFrames : s.frames = f :: rest)
      (hTodo : f.todo = []) : IrqStep s ⟨s.pair, rest, f.saved⟩
  /-- `pic_acknowledge`, from the program. -/
  | acknowledge (s : IrqSystem) (irq : Fin 16) (hProgram : s.frames = []) :
      IrqStep s { s with pair := s.pair.picAcknowledge irq }

/-- The step enters a handler for a request of the first chip that is gone. -/
def EntersSpurious (s s' : IrqSystem) : Prop :=
  ∃ f, s'.frames = f :: s.frames ∧ f.spurious = true ∧ f.int_no < 40

/-- The kernel from the end of `kernel_early` on, after any state of the chips, as long as the
first chip has nothing in service when it makes a spurious interrupt. -/
def irqSystem : System IrqSystem where
  init := fun s => (∃ p : I8259Pair, s.pair = p.kernelBoot) ∧ s.frames = []
  step := fun s s' => IrqStep s s' ∧ (EntersSpurious s s' → s.pair.master.isr = ∅)

-- ---------------------------------------------------------------------------
-- Port writes
-- ---------------------------------------------------------------------------

namespace I8259Pair

variable {p : I8259Pair}

/-- The chips as the kernel sets them up: numbers 32 to 47, the second chip at input 2 of the
first, and every end of interrupt sent by the handler. -/
structure Configured (p : I8259Pair) : Prop where
  masterReady : p.master.expects = 0
  slaveReady : p.slave.expects = 0
  masterBase : p.master.icw2 = 0x20
  slaveBase : p.slave.icw2 = 0x28
  masterCascade : p.master.icw3 = 0x04
  slaveCascade : p.slave.icw3 = 0x02
  masterEoi : p.master.icw4.getLsbD 1 = false
  slaveEoi : p.slave.icw4.getLsbD 1 = false

/-- Only the mask of the first chip is new. -/
theorem outb_masterMask (h : p.master.expects = 0) (v : BitVec 8) :
    p.outb 0x21 v = ⟨{ p.master with imr := v }, p.slave⟩ := by
  obtain ⟨⟨irr, isr, imr, icw1, icw2, icw3, icw4, expects⟩, slave⟩ := p
  obtain rfl : expects = 0 := h
  rfl

/-- Only the mask of the second chip is new. -/
theorem outb_slaveMask (h : p.slave.expects = 0) (v : BitVec 8) :
    p.outb 0xA1 v = ⟨p.master, { p.slave with imr := v }⟩ := by
  obtain ⟨master, ⟨irr, isr, imr, icw1, icw2, icw3, icw4, expects⟩⟩ := p
  obtain rfl : expects = 0 := h
  rfl

/-- The end of interrupt, first chip. -/
theorem outb_masterEoi (p : I8259Pair) :
    p.outb 0x20 0x20 = ⟨{ p.master with isr := dropMin p.master.isr }, p.slave⟩ := rfl

/-- The end of interrupt, second chip. -/
theorem outb_slaveEoi (p : I8259Pair) :
    p.outb 0xA0 0x20 = ⟨p.master, { p.slave with isr := dropMin p.slave.isr }⟩ := rfl

/-- A specific end of interrupt, whatever the chip. -/
theorem control_specific (c : I8259) {i : Nat} (hi : i < 8) :
    c.control (BitVec.ofNat 8 (0x60 + i)) = { c with isr := c.isr.erase ⟨i, hi⟩ } := by
  have hLevel : ∀ i : Fin 8, (BitVec.ofNat 8 (0x60 + i.val)).getLsbD 4 = false ∧
      (BitVec.ofNat 8 (0x60 + i.val)).extractLsb' 3 5 = 0b01100 ∧
      I8259.level (BitVec.ofNat 8 (0x60 + i.val)) = i := by decide
  obtain ⟨hNotFirst, hCommand, hWhich⟩ := hLevel ⟨i, hi⟩
  simp only at hNotFirst hCommand hWhich
  unfold I8259.control
  rw [hNotFirst, hCommand, hWhich]
  rfl

/-- **Masks.** `irq_enable` at the ports is the one of the model of the masks. -/
theorem irqEnable_eq (hMaster : p.master.expects = 0) (hSlave : p.slave.expects = 0) (irq : Nat) :
    p.irqEnable irq = p.withMasks (p.masks.irqEnable irq) := by
  unfold irqEnable Pic.irqEnable
  by_cases hFirst : irq < 8
  · rw [if_pos hFirst, if_pos hFirst, outb_masterMask hMaster]
    rfl
  · rw [if_neg hFirst, if_neg hFirst, outb_slaveMask hSlave]
    exact outb_masterMask
      (p := ⟨p.master, { p.slave with imr := unmaskBit p.slave.imr irq }⟩) hMaster
      (unmaskBit p.master.imr 2)

/-- **Masks.** Likewise for `pic_disable`. -/
theorem picDisable_eq (hMaster : p.master.expects = 0) (hSlave : p.slave.expects = 0) (irq : Nat) :
    p.picDisable irq = p.withMasks (p.masks.picDisable irq) := by
  unfold picDisable Pic.picDisable
  by_cases hFirst : irq < 8
  · rw [if_pos hFirst, if_pos hFirst, outb_masterMask hMaster]
    rfl
  · rw [if_neg hFirst, if_neg hFirst, outb_slaveMask hSlave]
    rfl

theorem Configured.withMasks (h : p.Configured) (m : Pic) : (p.withMasks m).Configured :=
  ⟨h.masterReady, h.slaveReady, h.masterBase, h.slaveBase, h.masterCascade, h.slaveCascade,
    h.masterEoi, h.slaveEoi⟩

/-- `pic_acknowledge` ends the level of its line, and for a line of the second chip the level
of input 2. -/
theorem picAcknowledge_eq (p : I8259Pair) {irq : Nat} (hIrq : irq < 16) :
    p.picAcknowledge irq =
      if h : irq < 8 then
        { p with master := { p.master with isr := p.master.isr.erase ⟨irq, h⟩ } }
      else ⟨{ p.master with isr := p.master.isr.erase 2 },
        { p.slave with isr := p.slave.isr.erase ⟨irq - 8, by omega⟩ }⟩ := by
  unfold picAcknowledge
  by_cases hFirst : irq < 8
  · rw [if_neg (by omega), dif_pos hFirst]
    show (⟨p.master.control _, p.slave⟩ : I8259Pair) = _
    rw [control_specific _ hFirst]
  · rw [if_pos (by omega), dif_neg hFirst]
    show (⟨p.master.control (BitVec.ofNat 8 (0x60 + 2)), p.slave.control _⟩ : I8259Pair) = _
    rw [control_specific _ (show irq - 8 < 8 by omega), control_specific _ (show 2 < 8 by omega)]
    rfl

-- ---------------------------------------------------------------------------
-- The boot
-- ---------------------------------------------------------------------------

/-- The four initialisation words of a chip and its mask, from any state: what was in
service stays so. -/
theorem init_words (c : I8259) (base cascade mode mask : BitVec 8) :
    ((((c.control 0x11).data base).data cascade).data mode).data mask =
      ⟨∅, c.isr, mask, 0x11, base, cascade, mode, 0⟩ := by
  have hCascade : (0x11 : BitVec 8).getLsbD 1 = false := by decide
  have hMode : (0x11 : BitVec 8).getLsbD 0 = true := by decide
  have hFirst : c.control 0x11 = ⟨∅, c.isr, 0, 0x11, c.icw2, c.icw3, c.icw4, 2⟩ := rfl
  rw [hFirst]
  simp only [I8259.data, hCascade, hMode, if_true, Bool.false_eq_true, if_false]

/-- `pic_init`, from any state. -/
theorem picInit_eq (p : I8259Pair) (pic0base pic1base : Nat) :
    p.picInit pic0base pic1base =
      ⟨⟨∅, p.master.isr, 0xFB, 0x11, BitVec.ofNat 8 pic0base, 0x04, 0x01, 0⟩,
        ⟨∅, p.slave.isr, 0xFF, 0x11, BitVec.ofNat 8 pic1base, 0x02, 0x05, 0⟩⟩ := by
  have hMaster := init_words p.master (BitVec.ofNat 8 pic0base) 0x04 0x01 0xFB
  have hSlave := init_words p.slave (BitVec.ofNat 8 pic1base) 0x02 0x05 0xFF
  rw [← hMaster, ← hSlave]
  rfl

theorem picInit_configured (p : I8259Pair) : (p.picInit 32 40).Configured := by
  rw [picInit_eq]
  have hMaster : (0x01 : BitVec 8).getLsbD 1 = false := by decide
  have hSlave : (0x05 : BitVec 8).getLsbD 1 = false := by decide
  exact ⟨rfl, rfl, rfl, rfl, rfl, rfl, hMaster, hSlave⟩

/-- The masks that the loop of `kernel_early` leaves. -/
theorem masks_disabled :
    (List.range 16).foldl (fun m i => m.picDisable i) (⟨0xFB, 0xFF⟩ : Pic) =
      ⟨0xFF, 0xFF⟩ := by
  have hMaster :
      ((List.range 16).foldl (fun m i => m.picDisable i) (⟨0xFB, 0xFF⟩ : Pic)).master = 0xFF := by
    decide +kernel
  have hSlave :
      ((List.range 16).foldl (fun m i => m.picDisable i) (⟨0xFB, 0xFF⟩ : Pic)).slave = 0xFF := by
    decide +kernel
  exact congrArg₂ Pic.mk hMaster hSlave

/-- A round of the loop of `kernel_early`. -/
theorem loop_round (h : p.Configured) {i : Nat} (hi : i < 16) :
    ((p.picDisable i).picAcknowledge i).Configured ∧
    ((p.picDisable i).picAcknowledge i).masks = p.masks.picDisable i ∧
    ((p.picDisable i).picAcknowledge i).master.irr = p.master.irr ∧
    ((p.picDisable i).picAcknowledge i).slave.irr = p.slave.irr ∧
    ((p.picDisable i).picAcknowledge i).master.isr =
      p.master.isr.erase (if h : i < 8 then ⟨i, h⟩ else 2) ∧
    ((p.picDisable i).picAcknowledge i).slave.isr =
      if h : i < 8 then p.slave.isr else p.slave.isr.erase ⟨i - 8, by omega⟩ := by
  have hConfigured := h.withMasks (p.masks.picDisable i)
  rw [picDisable_eq h.masterReady h.slaveReady, picAcknowledge_eq _ hi]
  obtain ⟨h0, h1, h2, h3, h4, h5, h6, h7⟩ := hConfigured
  by_cases hFirst : i < 8
  · simp only [dif_pos hFirst]
    exact ⟨⟨h0, h1, h2, h3, h4, h5, h6, h7⟩, rfl, rfl, rfl, rfl, rfl⟩
  · simp only [dif_neg hFirst]
    exact ⟨⟨h0, h1, h2, h3, h4, h5, h6, h7⟩, rfl, rfl, rfl, rfl, rfl⟩

/-- **Run lemma.** The loop: what is left in service are the lines still to come. -/
theorem bootLoop_spec (p : I8259Pair) {k : Nat} (hk : k ≤ 16) :
    ((p.picInit 32 40).bootLoop k).Configured ∧
    ((p.picInit 32 40).bootLoop k).masks =
      (List.range k).foldl (fun m i => m.picDisable i) ⟨0xFB, 0xFF⟩ ∧
    ((p.picInit 32 40).bootLoop k).master.irr = ∅ ∧
    ((p.picInit 32 40).bootLoop k).slave.irr = ∅ ∧
    (∀ j ∈ ((p.picInit 32 40).bootLoop k).master.isr, k ≤ j.val) ∧
    ∀ j ∈ ((p.picInit 32 40).bootLoop k).slave.isr, k ≤ 8 + j.val := by
  induction k with
  | zero =>
    have hConfigured := picInit_configured p
    rw [show (p.picInit 32 40).bootLoop 0 = p.picInit 32 40 from rfl]
    rw [picInit_eq] at hConfigured ⊢
    exact ⟨hConfigured, rfl, rfl, rfl, fun j _ => Nat.zero_le _, fun j _ => Nat.zero_le _⟩
  | succ k ih =>
    obtain ⟨hConfigured, hMasks, hMasterIrr, hSlaveIrr, hMasterIsr, hSlaveIsr⟩ := ih (by omega)
    have hRound : (p.picInit 32 40).bootLoop (k + 1) =
        (((p.picInit 32 40).bootLoop k).picDisable k).picAcknowledge k := by
      unfold bootLoop
      rw [List.range_succ, List.foldl_append]
      rfl
    obtain ⟨hC, hM, hR, hS, hI, hJ⟩ := loop_round hConfigured (show k < 16 by omega)
    rw [hRound, List.range_succ, List.foldl_append]
    refine ⟨hC, hM.trans (congrArg (fun m => m.picDisable k) hMasks), hR.trans hMasterIrr,
      hS.trans hSlaveIrr, ?_, ?_⟩
    · intro j hj
      rw [hI, Finset.mem_erase] at hj
      have hAbove := hMasterIsr j hj.2
      by_cases hFirst : k < 8
      · rw [dif_pos hFirst] at hj
        have hNe : j.val ≠ k := fun hc => hj.1 (Fin.ext hc)
        omega
      · have hSmall := j.isLt
        omega
    · intro j hj
      rw [hJ] at hj
      by_cases hFirst : k < 8
      · omega
      · rw [dif_neg hFirst, Finset.mem_erase] at hj
        have hAbove := hSlaveIsr j hj.2
        have hNe : j.val ≠ k - 8 := fun hc => hj.1 (Fin.ext hc)
        omega

/-- **Boot.** Whatever the chips were doing before, after the calls of `kernel_early` they are
set up, every line is masked, nothing is requested and nothing is in service. -/
theorem kernelBoot_idle (p : I8259Pair) :
    p.kernelBoot.Configured ∧ p.kernelBoot.masks = ⟨0xFF, 0xFF⟩ ∧
      p.kernelBoot.master.irr = ∅ ∧ p.kernelBoot.slave.irr = ∅ ∧
      p.kernelBoot.master.isr = ∅ ∧ p.kernelBoot.slave.isr = ∅ := by
  obtain ⟨hConfigured, hMasks, hMasterIrr, hSlaveIrr, hMasterIsr, hSlaveIsr⟩ :=
    bootLoop_spec p.irqRemap (Nat.le_refl 16)
  rw [masks_disabled] at hMasks
  unfold kernelBoot
  generalize (p.irqRemap.picInit 32 40).bootLoop 16 = q at *
  refine ⟨hConfigured, hMasks, hMasterIrr, hSlaveIrr, ?_, ?_⟩
  · refine Finset.eq_empty_of_forall_notMem fun j hj => ?_
    have hAbove := hMasterIsr j hj
    omega
  · refine Finset.eq_empty_of_forall_notMem fun j hj => ?_
    have hAbove := hSlaveIsr j hj
    omega

end I8259Pair

-- ---------------------------------------------------------------------------
-- Taking an interrupt
-- ---------------------------------------------------------------------------

/-- What a chip passes on. -/
theorem I8259.pick_some {c : I8259} {requests : Finset (Fin 8)} {i : Fin 8}
    (h : c.pick requests = some i) :
    i ∈ requests ∧ c.imr.getLsbD i = false ∧ ∀ j ∈ c.isr, i < j := by
  unfold I8259.pick at h
  split at h
  · have hFound := List.find?_some h
    simp only [decide_eq_true_eq] at hFound
    refine ⟨hFound.1, hFound.2.1, fun j hj => ?_⟩
    by_contra hNot
    exact hFound.2.2 j (not_lt.mp hNot) hj
  · cases h

/-- A request that nothing holds up is passed on, or another one. -/
theorem I8259.pick_isSome {c : I8259} {requests : Finset (Fin 8)} {i : Fin 8}
    (hReady : c.expects = 0) (hIsr : c.isr = ∅) (hRequest : i ∈ requests)
    (hMask : c.imr.getLsbD i = false) :
    ∃ k, c.pick requests = some k := by
  unfold I8259.pick
  rw [if_pos hReady, ← Option.isSome_iff_exists, List.find?_isSome]
  refine ⟨i, List.mem_finRange i, ?_⟩
  simp only [decide_eq_true_eq]
  refine ⟨hRequest, hMask, fun j _ hj => ?_⟩
  rw [hIsr] at hj
  cases hj

namespace I8259Pair

variable {p p' : I8259Pair} {n : Nat}

/-- The number and the chips, when the processor takes an interrupt. -/
theorem accept_some (h : p.Configured) (hAccept : p.accept = some (n, p')) :
    (∃ i : Fin 8, i ≠ 2 ∧ (∀ j ∈ p.master.isr, i < j) ∧ n = 32 + i ∧
      p' = ⟨{ p.master with irr := p.master.irr.erase i, isr := insert i p.master.isr },
        p.slave⟩) ∨
    ∃ k : Fin 8, (∀ j ∈ p.master.isr, 2 < j) ∧ (∀ j ∈ p.slave.isr, k < j) ∧
      n = 40 + k ∧
      p' = ⟨{ p.master with irr := p.master.irr.erase 2, isr := insert 2 p.master.isr },
        { p.slave with irr := p.slave.irr.erase k, isr := insert k p.slave.isr }⟩ := by
  have hCascade : ∀ i : Fin 8, (0x04 : BitVec 8).getLsbD i = true ↔ i = 2 := by decide
  unfold accept at hAccept
  cases hMaster : p.master.pick p.requests with
  | none =>
    rw [hMaster] at hAccept
    cases hAccept
  | some i =>
    obtain ⟨-, -, hLeast⟩ := I8259.pick_some hMaster
    rw [hMaster] at hAccept
    simp only [h.masterCascade, hCascade] at hAccept
    by_cases hTwo : i = 2
    · rw [if_pos hTwo] at hAccept
      subst hTwo
      cases hSlave : p.slave.pick p.slave.irr with
      | none =>
        rw [hSlave] at hAccept
        cases hAccept
      | some k =>
        obtain ⟨-, -, hLeastSlave⟩ := I8259.pick_some hSlave
        rw [hSlave] at hAccept
        simp only [h.slaveCascade] at hAccept
        rw [if_pos (by decide)] at hAccept
        obtain ⟨rfl, rfl⟩ := Prod.mk.inj (Option.some.inj hAccept)
        refine Or.inr ⟨k, hLeast, hLeastSlave, ?_, ?_⟩
        · rw [I8259.vector, h.slaveBase]
          rfl
        · rw [I8259.serve, I8259.serve, h.masterEoi, h.slaveEoi]
          rfl
    · rw [if_neg hTwo] at hAccept
      obtain ⟨rfl, rfl⟩ := Prod.mk.inj (Option.some.inj hAccept)
      refine Or.inl ⟨i, hTwo, hLeast, ?_, ?_⟩
      · rw [I8259.vector, h.masterBase]
        rfl
      · rw [I8259.serve, h.masterEoi]
        rfl

/-- The number and the chips, when the request at the first chip is gone. -/
theorem acceptSpurious_some (h : p.Configured) (hAccept : p.acceptSpurious = some (n, p')) :
    n = 39 ∧ p' = p := by
  unfold acceptSpurious at hAccept
  split at hAccept
  · cases hAccept
  · obtain ⟨rfl, rfl⟩ := Prod.mk.inj (Option.some.inj hAccept)
    refine ⟨?_, rfl⟩
    rw [I8259.vector, h.masterBase]
    rfl

/-- The number and the chips, when the request at the second chip is gone. -/
theorem acceptSpuriousSlave_some (h : p.Configured)
    (hAccept : p.acceptSpuriousSlave = some (n, p')) :
    n = 47 ∧ (∀ j ∈ p.master.isr, 2 < j) ∧
      p' = ⟨{ p.master with irr := p.master.irr.erase 2, isr := insert 2 p.master.isr },
        p.slave⟩ := by
  unfold acceptSpuriousSlave at hAccept
  split at hAccept
  · next hGone =>
    obtain ⟨rfl, rfl⟩ := Prod.mk.inj (Option.some.inj hAccept)
    obtain ⟨-, -, hLeast⟩ := I8259.pick_some hGone.2
    refine ⟨?_, hLeast, ?_⟩
    · rw [I8259.vector, h.slaveBase]
      rfl
    · rw [I8259.serve, h.masterEoi]
      rfl
  · cases hAccept

/-- With nothing in service, every request that is not masked makes the processor take an
interrupt. -/
theorem accept_isSome (h : p.Configured) (hMasterIsr : p.master.isr = ∅)
    (hSlaveIsr : p.slave.isr = ∅) (hCascade : 2 ∉ p.master.irr)
    (hRequest : (∃ i ∈ p.master.irr, p.master.imr.getLsbD i = false) ∨
      (∃ k ∈ p.slave.irr, p.slave.imr.getLsbD k = false) ∧ p.master.imr.getLsbD 2 = false) :
    p.accept.isSome := by
  have hBit : ∀ i : Fin 8, (0x04 : BitVec 8).getLsbD i = true ↔ i = 2 := by decide
  -- something reaches the processor
  obtain ⟨i, hi⟩ : ∃ i, p.master.pick p.requests = some i := by
    rcases hRequest with ⟨i, hIn, hMask⟩ | ⟨⟨k, hIn, hMask⟩, hTwo⟩
    · refine I8259.pick_isSome h.masterReady hMasterIsr (i := i) ?_ hMask
      unfold requests
      split
      · exact Finset.mem_insert_of_mem hIn
      · exact hIn
    · obtain ⟨k', hk'⟩ := I8259.pick_isSome h.slaveReady hSlaveIsr hIn hMask
      refine I8259.pick_isSome h.masterReady hMasterIsr (i := 2) ?_ hTwo
      rw [requests, hk', Option.isSome_some, if_pos rfl]
      exact Finset.mem_insert_self 2 _
  obtain ⟨hIn, -, -⟩ := I8259.pick_some hi
  unfold accept
  rw [hi]
  simp only [h.masterCascade, hBit]
  by_cases hTwo : i = 2
  · rw [if_pos hTwo]
    subst hTwo
    -- input 2 is the second chip
    cases hSlave : p.slave.pick p.slave.irr with
    | none =>
      rw [requests, hSlave, Option.isSome_none, if_neg Bool.false_ne_true] at hIn
      exact absurd hIn hCascade
    | some k =>
      simp only [h.slaveCascade]
      rw [if_pos (by decide)]
      rfl
  · rw [if_neg hTwo]
    rfl

end I8259Pair

-- ---------------------------------------------------------------------------
-- The invariant
-- ---------------------------------------------------------------------------

namespace IrqFrame

/-- The level of the handler at the first chip. -/
def level (f : IrqFrame) : Fin 8 :=
  if f.int_no < 40 then ⟨(f.int_no - 32) % 8, Nat.mod_lt _ (by omega)⟩ else I8259.level 2

/-- The level of a handler of the second chip there. -/
def slaveLevel (f : IrqFrame) : Fin 8 := ⟨(f.int_no - 40) % 8, Nat.mod_lt _ (by omega)⟩

end IrqFrame

/-- The first chip still waits for the end of interrupt of the handler. -/
def IrqFrame.OwesMaster (f : IrqFrame) : Prop :=
  1 ≤ f.todo.length ∧ (f.spurious = true → 40 ≤ f.int_no)

/-- The second chip does. -/
def IrqFrame.OwesSlave (f : IrqFrame) : Prop := 2 ≤ f.todo.length ∧ f.spurious = false

instance (f : IrqFrame) : Decidable f.OwesMaster := inferInstanceAs (Decidable (_ ∧ _))

instance (f : IrqFrame) : Decidable f.OwesSlave := inferInstanceAs (Decidable (_ ∧ _))

/-- The levels for which the first chip still waits for the end of interrupt. -/
def masterOwed (frames : List IrqFrame) : List (Fin 8) :=
  (frames.filter fun f => f.OwesMaster).map IrqFrame.level

/-- The levels for which the second chip does. -/
def slaveOwed (frames : List IrqFrame) : List (Fin 8) :=
  (frames.filter fun f => f.OwesSlave).map IrqFrame.slaveLevel

/-- Below a handler that has still to end an interrupt that a chip has no bit for, nothing
waits at that chip. -/
def SpuriousAlone : List IrqFrame → Prop
  | [] => True
  | f :: rest =>
    (f.spurious = true → (f.int_no < 40 → 1 ≤ f.todo.length → masterOwed rest = []) ∧
      (40 ≤ f.int_no → 2 ≤ f.todo.length → slaveOwed rest = [])) ∧ SpuriousAlone rest

/-- The in-service bits are those of the handlers that have not yet ended their interrupt, and
these are nested. -/
structure IrqInv (s : IrqSystem) : Prop where
  configured : s.pair.Configured
  cascade : 2 ∉ s.pair.master.irr
  numbers : ∀ f ∈ s.frames, 32 ≤ f.int_no ∧ f.int_no < 48 ∧
      f.todo <:+ irqHandlerWrites f.int_no
  master : Nested (masterOwed s.frames) s.pair.master.isr
  slave : Nested (slaveOwed s.frames) s.pair.slave.isr
  alone : SpuriousAlone s.frames

/-- When no handler is active nothing is in service. -/
theorem IrqInv.idle {s : IrqSystem} (h : IrqInv s) (hFrames : s.frames = []) :
    s.pair.master.isr = ∅ ∧ s.pair.slave.isr = ∅ := by
  have hMaster := h.master.levels
  have hSlave := h.slave.levels
  rw [hFrames] at hMaster hSlave
  exact ⟨hMaster, hSlave⟩

section Owed

variable {f : IrqFrame} {frames : List IrqFrame}

theorem masterOwed_cons (h : f.OwesMaster) :
    masterOwed (f :: frames) = f.level :: masterOwed frames := by
  unfold masterOwed
  rw [List.filter_cons_of_pos (by simpa using h), List.map_cons]

theorem masterOwed_done (h : ¬ f.OwesMaster) : masterOwed (f :: frames) = masterOwed frames := by
  unfold masterOwed
  rw [List.filter_cons_of_neg (by simpa using h)]

theorem slaveOwed_cons (h : f.OwesSlave) :
    slaveOwed (f :: frames) = f.slaveLevel :: slaveOwed frames := by
  unfold slaveOwed
  rw [List.filter_cons_of_pos (by simpa using h), List.map_cons]

theorem slaveOwed_done (h : ¬ f.OwesSlave) : slaveOwed (f :: frames) = slaveOwed frames := by
  unfold slaveOwed
  rw [List.filter_cons_of_neg (by simpa using h)]

/-- A level that is owed is that of a handler. -/
theorem mem_masterOwed {i : Fin 8} (h : i ∈ masterOwed frames) :
    ∃ f ∈ frames, f.level = i := by
  obtain ⟨f, hf, hLevel⟩ := List.mem_map.mp h
  exact ⟨f, (List.mem_filter.mp hf).1, hLevel⟩

/-- What the second chip waits for, the first one waits for at input 2. -/
theorem slaveOwed_nil (hNumbers : ∀ f ∈ frames, f.todo <:+ irqHandlerWrites f.int_no)
    (h : I8259.level 2 ∉ masterOwed frames) : slaveOwed frames = [] := by
  refine List.map_eq_nil_iff.mpr (List.filter_eq_nil_iff.mpr ?_)
  intro f hf hOwes
  obtain ⟨hTwo, hReal⟩ : f.OwesSlave := by simpa using hOwes
  have hSecond : 40 ≤ f.int_no := by
    have hLength := (hNumbers f hf).length_le
    unfold irqHandlerWrites at hLength
    split at hLength
    · assumption
    · simp only [List.nil_append, List.length_singleton] at hLength
      omega
  refine h (List.mem_map.mpr ⟨f, List.mem_filter.mpr ⟨hf, ?_⟩, ?_⟩)
  · simpa using (show f.OwesMaster from ⟨by omega, fun _ => hSecond⟩)
  · rw [IrqFrame.level, if_neg (by omega)]

end Owed

/-- What is left to write of an end of interrupt. -/
theorem todo_cases {n : Nat} {port : Nat} {v : BitVec 8} {todo : List (Nat × BitVec 8)}
    (h : (port, v) :: todo <:+ irqHandlerWrites n) :
    (port = 0x20 ∧ v = 0x20 ∧ todo = []) ∨
    (40 ≤ n ∧ port = 0xA0 ∧ v = 0x20 ∧ todo = [(0x20, 0x20)]) := by
  unfold irqHandlerWrites at h
  have hLast : (port, v) :: todo <:+ [(0x20, 0x20)] → port = 0x20 ∧ v = 0x20 ∧ todo = [] := by
    intro hSuffix
    rcases List.suffix_cons_iff.mp hSuffix with hEq | hNil
    · obtain ⟨hHead, rfl⟩ := List.cons.inj hEq
      obtain ⟨rfl, rfl⟩ := Prod.mk.inj hHead
      exact ⟨rfl, rfl, rfl⟩
    · cases List.suffix_nil.mp hNil
  by_cases hSecond : 40 ≤ n
  · rw [if_pos hSecond, List.singleton_append] at h
    rcases List.suffix_cons_iff.mp h with hEq | hRest
    · obtain ⟨hHead, rfl⟩ := List.cons.inj hEq
      obtain ⟨rfl, rfl⟩ := Prod.mk.inj hHead
      exact Or.inr ⟨hSecond, rfl, rfl, rfl⟩
    · exact Or.inl (hLast hRest)
  · rw [if_neg hSecond, List.nil_append] at h
    exact Or.inl (hLast h)

-- ---------------------------------------------------------------------------
-- The steps
-- ---------------------------------------------------------------------------

section Steps

variable {s s' : IrqSystem}

/-- The invariant is about the frames, the in-service bits and the way the chips are set up. -/
theorem IrqInv.of_pair (h : IrqInv s) {pair : I8259Pair} (enabled : Bool)
    (hConfigured : pair.Configured) (hCascade : 2 ∉ pair.master.irr)
    (hMaster : pair.master.isr = s.pair.master.isr) (hSlave : pair.slave.isr = s.pair.slave.isr) :
    IrqInv ⟨pair, s.frames, enabled⟩ := by
  refine ⟨hConfigured, hCascade, h.numbers, ?_, ?_, h.alone⟩
  · rw [hMaster]
    exact h.master
  · rw [hSlave]
    exact h.slave

/-- A handler is entered. -/
theorem IrqInv.enter (h : IrqInv s) {n : Nat} {spurious : Bool} {pair : I8259Pair}
    (hConfigured : pair.Configured) (hCascade : 2 ∉ pair.master.irr)
    (hNumber : 32 ≤ n ∧ n < 48)
    (hMaster : Nested (masterOwed (⟨n, spurious, s.enabled, irqHandlerWrites n⟩ :: s.frames))
      pair.master.isr)
    (hSlave : Nested (slaveOwed (⟨n, spurious, s.enabled, irqHandlerWrites n⟩ :: s.frames))
      pair.slave.isr)
    (hAlone : spurious = true → (n < 40 → masterOwed s.frames = []) ∧
      (40 ≤ n → slaveOwed s.frames = [])) :
    IrqInv ⟨pair, ⟨n, spurious, s.enabled, irqHandlerWrites n⟩ :: s.frames, false⟩ := by
  refine ⟨hConfigured, hCascade, ?_, hMaster, hSlave, ?_, h.alone⟩
  · intro f hf
    rcases List.mem_cons.mp hf with rfl | hf
    · exact ⟨hNumber.1, hNumber.2, List.suffix_refl _⟩
    · exact h.numbers f hf
  · intro hSpurious
    exact ⟨fun hFirst _ => (hAlone hSpurious).1 hFirst,
      fun hSecond _ => (hAlone hSpurious).2 hSecond⟩

theorem irqHandlerWrites_first {n : Nat} (h : n < 40) : irqHandlerWrites n = [(0x20, 0x20)] := by
  rw [irqHandlerWrites, if_neg (by omega)]
  rfl

theorem irqHandlerWrites_second {n : Nat} (h : 40 ≤ n) :
    irqHandlerWrites n = [(0xA0, 0x20), (0x20, 0x20)] := by
  rw [irqHandlerWrites, if_pos h]
  rfl

/-- A handler of a line of the second chip, at the first one. -/
theorem masterOwed_second {n : Nat} (h : 40 ≤ n) (spurious saved : Bool)
    (frames : List IrqFrame) :
    masterOwed (⟨n, spurious, saved, irqHandlerWrites n⟩ :: frames) =
      2 :: masterOwed frames := by
  have hLevel : IrqFrame.level ⟨n, spurious, saved, irqHandlerWrites n⟩ = 2 := by
    unfold IrqFrame.level
    rw [if_neg (by simp only; omega)]
    rfl
  rw [masterOwed_cons ⟨by simp [irqHandlerWrites_second h], fun _ => h⟩, hLevel]

/-- **Step lemma.** An interrupt is taken. -/
theorem irqInv_accept {n : Nat} {pair : I8259Pair} (h : IrqInv s)
    (hAccept : s.pair.accept = some (n, pair)) :
    IrqInv ⟨pair, ⟨n, false, s.enabled, irqHandlerWrites n⟩ :: s.frames, false⟩ := by
  obtain ⟨h0, h1, h2, h3, h4, h5, h6, h7⟩ := h.configured
  have hReal : false = true → (n < 40 → masterOwed s.frames = []) ∧
      (40 ≤ n → slaveOwed s.frames = []) :=
    fun hc => Bool.noConfusion hc
  rcases I8259Pair.accept_some h.configured hAccept with
    ⟨i, hTwo, hLeast, rfl, rfl⟩ | ⟨k, hLeast, hLeastSlave, rfl, rfl⟩
  · -- a line of the first chip
    have hSmall := i.isLt
    have hWrites := irqHandlerWrites_first (show 32 + i.val < 40 by omega)
    refine h.enter ⟨h0, h1, h2, h3, h4, h5, h6, h7⟩
      (fun hc => h.cascade (Finset.mem_of_mem_erase hc)) (by omega) ?_ ?_ hReal
    · have hLevel :
          IrqFrame.level ⟨32 + i, false, s.enabled, irqHandlerWrites (32 + i)⟩ = i := by
        unfold IrqFrame.level
        simp only
        rw [if_pos (by omega)]
        exact Fin.ext (show (32 + i.val - 32) % 8 = i.val by omega)
      rw [masterOwed_cons ⟨by simp [hWrites], fun hc => Bool.noConfusion hc⟩, hLevel]
      exact h.master.push hLeast
    · rw [slaveOwed_done fun hc => by simp [IrqFrame.OwesSlave, hWrites] at hc]
      exact h.slave
  · -- a line of the second chip
    have hSmall := k.isLt
    have hWrites := irqHandlerWrites_second (show 40 ≤ 40 + k.val by omega)
    refine h.enter ⟨h0, h1, h2, h3, h4, h5, h6, h7⟩
      (fun hc => h.cascade (Finset.mem_of_mem_erase hc)) (by omega) ?_ ?_ hReal
    · rw [masterOwed_second (by omega)]
      exact h.master.push hLeast
    · have hLevel :
          IrqFrame.slaveLevel ⟨40 + k, false, s.enabled, irqHandlerWrites (40 + k)⟩ = k := by
        unfold IrqFrame.slaveLevel
        exact Fin.ext (show (40 + k.val - 40) % 8 = k.val by omega)
      rw [slaveOwed_cons ⟨by simp [hWrites], rfl⟩, hLevel]
      exact h.slave.push hLeastSlave

/-- **Step lemma.** An interrupt is taken whose request at the first chip is gone. -/
theorem irqInv_spurious {n : Nat} {pair : I8259Pair} (h : IrqInv s)
    (hAccept : s.pair.acceptSpurious = some (n, pair)) (hIsr : s.pair.master.isr = ∅) :
    IrqInv ⟨pair, ⟨n, true, s.enabled, irqHandlerWrites n⟩ :: s.frames, false⟩ := by
  obtain ⟨rfl, rfl⟩ := I8259Pair.acceptSpurious_some h.configured hAccept
  have hNone : masterOwed s.frames = [] := by
    refine List.eq_nil_iff_forall_not_mem.mpr fun i hi => ?_
    have hIn := h.master.mem_iff.mpr hi
    rw [hIsr] at hIn
    exact Finset.notMem_empty i hIn
  refine h.enter h.configured h.cascade (by omega) ?_ ?_ fun _ =>
    ⟨fun _ => hNone, fun hc => by omega⟩
  · rw [masterOwed_done fun hc => absurd (hc.2 rfl) (show ¬ 40 ≤ 39 by omega)]
    exact h.master
  · rw [slaveOwed_done fun hc => Bool.noConfusion hc.2]
    exact h.slave

/-- **Step lemma.** An interrupt is taken whose request at the second chip is gone: that chip
has nothing in service, since input 2 has not. -/
theorem irqInv_spuriousSlave {n : Nat} {pair : I8259Pair} (h : IrqInv s)
    (hAccept : s.pair.acceptSpuriousSlave = some (n, pair)) :
    IrqInv ⟨pair, ⟨n, true, s.enabled, irqHandlerWrites n⟩ :: s.frames, false⟩ := by
  obtain ⟨h0, h1, h2, h3, h4, h5, h6, h7⟩ := h.configured
  obtain ⟨rfl, hLeast, rfl⟩ := I8259Pair.acceptSpuriousSlave_some h.configured hAccept
  have hNone : slaveOwed s.frames = [] := by
    refine slaveOwed_nil (fun f hf => (h.numbers f hf).2.2) fun hc => ?_
    exact lt_irrefl _ (hLeast 2 (h.master.mem_iff.mpr hc))
  refine h.enter ⟨h0, h1, h2, h3, h4, h5, h6, h7⟩
    (fun hc => h.cascade (Finset.mem_of_mem_erase hc)) (by omega) ?_ ?_
    fun _ => ⟨fun hc => by omega, fun _ => hNone⟩
  · rw [masterOwed_second (by omega)]
    exact h.master.push hLeast
  · rw [slaveOwed_done fun hc => Bool.noConfusion hc.2]
    exact h.slave

/-- The end of interrupt at the first chip, the last write of a handler: the level of the
handler ends, or, if the request was gone, nothing was in service and nothing ends. -/
theorem IrqInv.masterEoi (h : IrqInv s) {f : IrqFrame} {rest : List IrqFrame}
    (hFrames : s.frames = f :: rest) (hTodo : f.todo = [(0x20, 0x20)]) :
    ∃ isr, s.pair.outb 0x20 0x20 = ⟨{ s.pair.master with isr := isr }, s.pair.slave⟩ ∧
      Nested (masterOwed rest) isr ∧
      (f.level ∈ s.pair.master.isr ∧ isr = s.pair.master.isr.erase f.level ∨
        f.spurious = true ∧ isr = s.pair.master.isr) := by
  refine ⟨dropMin s.pair.master.isr, I8259Pair.outb_masterEoi s.pair, ?_⟩
  have hMaster := h.master
  have hAlone := h.alone
  rw [hFrames] at hMaster hAlone
  by_cases hOwes : f.OwesMaster
  · rw [masterOwed_cons hOwes] at hMaster
    obtain ⟨hDrop, hRest⟩ := hMaster.pop
    rw [hDrop]
    exact ⟨hRest, Or.inl ⟨hMaster.mem_iff.mpr List.mem_cons_self, rfl⟩⟩
  · have hGone : f.spurious = true ∧ f.int_no < 40 := by
      simpa [IrqFrame.OwesMaster, hTodo] using hOwes
    have hNone := (hAlone.1 hGone.1).1 hGone.2 (by simp [hTodo])
    rw [masterOwed_done hOwes, hNone] at hMaster
    have hEmpty : s.pair.master.isr = ∅ := hMaster.levels
    rw [hEmpty, dropMin_empty, hNone]
    exact ⟨Nested.nil, Or.inr ⟨hGone.1, rfl⟩⟩

/-- The same at the second chip. -/
theorem IrqInv.slaveEoi (h : IrqInv s) {f : IrqFrame} {rest : List IrqFrame}
    (hFrames : s.frames = f :: rest) (hTodo : f.todo = [(0xA0, 0x20), (0x20, 0x20)])
    (hSecond : 40 ≤ f.int_no) :
    ∃ isr, s.pair.outb 0xA0 0x20 = ⟨s.pair.master, { s.pair.slave with isr := isr }⟩ ∧
      Nested (slaveOwed rest) isr ∧
      (f.slaveLevel ∈ s.pair.slave.isr ∧ isr = s.pair.slave.isr.erase f.slaveLevel ∨
        f.spurious = true ∧ isr = s.pair.slave.isr) := by
  refine ⟨dropMin s.pair.slave.isr, I8259Pair.outb_slaveEoi s.pair, ?_⟩
  have hSlave := h.slave
  have hAlone := h.alone
  rw [hFrames] at hSlave hAlone
  by_cases hOwes : f.OwesSlave
  · rw [slaveOwed_cons hOwes] at hSlave
    obtain ⟨hDrop, hRest⟩ := hSlave.pop
    rw [hDrop]
    exact ⟨hRest, Or.inl ⟨hSlave.mem_iff.mpr List.mem_cons_self, rfl⟩⟩
  · have hGone : f.spurious = true := by
      simpa [IrqFrame.OwesSlave, hTodo] using hOwes
    have hNone := (hAlone.1 hGone).2 hSecond (by simp [hTodo])
    rw [slaveOwed_done hOwes, hNone] at hSlave
    have hEmpty : s.pair.slave.isr = ∅ := hSlave.levels
    rw [hEmpty, dropMin_empty, hNone]
    exact ⟨Nested.nil, Or.inr ⟨hGone, rfl⟩⟩

/-- The write ends the level of the handler that makes it and nothing else. -/
def EndsOwn (p : I8259Pair) (f : IrqFrame) (port : Nat) (v : BitVec 8) : Prop :=
  (port = 0x20 ∧ f.level ∈ p.master.isr ∧ p.outb port v =
      ⟨{ p.master with isr := p.master.isr.erase f.level }, p.slave⟩) ∨
    (port = 0xA0 ∧ f.slaveLevel ∈ p.slave.isr ∧ p.outb port v =
      ⟨p.master, { p.slave with isr := p.slave.isr.erase f.slaveLevel }⟩)

/-- **Step lemma.** A write of an end of interrupt ends the level of its own handler and no
other; where the request was gone, it changes nothing. -/
theorem irqInv_eoi {f : IrqFrame} {rest : List IrqFrame} {port : Nat} {v : BitVec 8}
    {todo : List (Nat × BitVec 8)} (h : IrqInv s) (hFrames : s.frames = f :: rest)
    (hTodo : f.todo = (port, v) :: todo) :
    IrqInv ⟨s.pair.outb port v, { f with todo := todo } :: rest, s.enabled⟩ ∧
      (EndsOwn s.pair f port v ∨ f.spurious = true ∧ s.pair.outb port v = s.pair) := by
  obtain ⟨h0, h1, h2, h3, h4, h5, h6, h7⟩ := h.configured
  obtain ⟨hLow, hHigh, hSuffix⟩ := h.numbers f (hFrames ▸ List.mem_cons_self)
  have hMaster := h.master
  have hSlave := h.slave
  have hAlone := h.alone
  rw [hFrames] at hMaster hSlave hAlone
  rw [hTodo] at hSuffix
  have hNumbers : ∀ f' ∈ ({ f with todo := todo } : IrqFrame) :: rest,
      32 ≤ f'.int_no ∧ f'.int_no < 48 ∧ f'.todo <:+ irqHandlerWrites f'.int_no := by
    intro f' hf'
    rcases List.mem_cons.mp hf' with rfl | hf'
    · exact ⟨hLow, hHigh, (List.suffix_cons _ _).trans hSuffix⟩
    · exact h.numbers f' (hFrames ▸ List.mem_cons_of_mem f hf')
  -- the handlers below are as they were
  have hStill : SpuriousAlone ({ f with todo := todo } :: rest) := by
    refine ⟨fun hc => ⟨fun hFirst hLength => ?_, fun hSecond hLength => ?_⟩, hAlone.2⟩
    · exact (hAlone.1 hc).1 hFirst (by rw [hTodo, List.length_cons]; omega)
    · have hTwo : 2 ≤ todo.length := hLength
      exact (hAlone.1 hc).2 hSecond (by rw [hTodo, List.length_cons]; omega)
  rcases todo_cases hSuffix with ⟨rfl, rfl, rfl⟩ | ⟨hSecond, rfl, rfl, rfl⟩
  · -- the first chip: its end of interrupt is the last write
    obtain ⟨isr, hWrite, hRest, hOwn⟩ := h.masterEoi hFrames hTodo
    rw [slaveOwed_done fun hc => by simp [IrqFrame.OwesSlave, hTodo] at hc] at hSlave
    refine ⟨?_, ?_⟩
    · rw [hWrite]
      refine ⟨⟨h0, h1, h2, h3, h4, h5, h6, h7⟩, h.cascade, hNumbers, ?_, ?_, hStill⟩
      · rw [masterOwed_done fun hc => by simp [IrqFrame.OwesMaster] at hc]
        exact hRest
      · rw [slaveOwed_done fun hc => by simp [IrqFrame.OwesSlave] at hc]
        exact hSlave
    · rcases hOwn with ⟨hIn, rfl⟩ | ⟨hGone, rfl⟩
      · exact Or.inl (Or.inl ⟨rfl, hIn, hWrite⟩)
      · exact Or.inr ⟨hGone, hWrite⟩
  · -- the second chip: the write for the first one remains
    obtain ⟨isr, hWrite, hRest, hOwn⟩ := h.slaveEoi hFrames hTodo hSecond
    rw [masterOwed_cons ⟨by simp [hTodo], fun _ => hSecond⟩] at hMaster
    refine ⟨?_, ?_⟩
    · rw [hWrite]
      refine ⟨⟨h0, h1, h2, h3, h4, h5, h6, h7⟩, h.cascade, hNumbers, ?_, ?_, hStill⟩
      · rw [masterOwed_cons (f := { f with todo := [(0x20, 0x20)] })
          ⟨by simp, fun _ => hSecond⟩]
        exact hMaster
      · rw [slaveOwed_done fun hc => by simp [IrqFrame.OwesSlave] at hc]
        exact hRest
    · rcases hOwn with ⟨hIn, rfl⟩ | ⟨hGone, rfl⟩
      · exact Or.inl (Or.inr ⟨rfl, hIn, hWrite⟩)
      · exact Or.inr ⟨hGone, hWrite⟩

/-- **Step lemma.** -/
theorem irqInv_step (h : IrqInv s) (hStep : IrqStep s s')
    (hQuiet : EntersSpurious s s' → s.pair.master.isr = ∅) : IrqInv s' := by
  have hConfigured := h.configured
  obtain ⟨h0, h1, h2, h3, h4, h5, h6, h7⟩ := h.configured
  cases hStep with
  | raiseMaster i hCascade =>
    refine h.of_pair _ ⟨h0, h1, h2, h3, h4, h5, h6, h7⟩ ?_ rfl rfl
    intro hc
    rcases Finset.mem_insert.mp hc with hEq | hIn
    · exact hCascade hEq.symm
    · exact h.cascade hIn
  | raiseSlave i => exact h.of_pair _ ⟨h0, h1, h2, h3, h4, h5, h6, h7⟩ h.cascade rfl rfl
  | dropMaster i =>
    exact h.of_pair _ ⟨h0, h1, h2, h3, h4, h5, h6, h7⟩
      (fun hc => h.cascade (Finset.mem_of_mem_erase hc)) rfl rfl
  | dropSlave i => exact h.of_pair _ ⟨h0, h1, h2, h3, h4, h5, h6, h7⟩ h.cascade rfl rfl
  | enable irq =>
    rw [I8259Pair.irqEnable_eq hConfigured.masterReady hConfigured.slaveReady irq]
    exact h.of_pair _ (hConfigured.withMasks _) h.cascade rfl rfl
  | disable irq =>
    rw [I8259Pair.picDisable_eq hConfigured.masterReady hConfigured.slaveReady irq]
    exact h.of_pair _ (hConfigured.withMasks _) h.cascade rfl rfl
  | sti => exact h.of_pair true hConfigured h.cascade rfl rfl
  | cli => exact h.of_pair false hConfigured h.cascade rfl rfl
  | accept int_no pair hOn hAccept => exact irqInv_accept h hAccept
  | spurious int_no pair hOn hAccept =>
    rcases hAccept with hFirst | hSecond
    · obtain ⟨rfl, -⟩ := I8259Pair.acceptSpurious_some hConfigured hFirst
      exact irqInv_spurious h hFirst (hQuiet ⟨_, rfl, rfl, show 39 < 40 by omega⟩)
    · exact irqInv_spuriousSlave h hSecond
  | eoi f rest port v todo hFrames hTodo => exact (irqInv_eoi h hFrames hTodo).1
  | iret f rest hFrames hTodo =>
    have hMaster := h.master
    have hSlave := h.slave
    have hAlone := h.alone
    rw [hFrames] at hMaster hSlave hAlone
    rw [masterOwed_done fun hc => by simp [IrqFrame.OwesMaster, hTodo] at hc] at hMaster
    rw [slaveOwed_done fun hc => by simp [IrqFrame.OwesSlave, hTodo] at hc] at hSlave
    exact ⟨hConfigured, h.cascade,
      fun f' hf' => h.numbers f' (hFrames ▸ List.mem_cons_of_mem f hf'),
      hMaster, hSlave, hAlone.2⟩
  | acknowledge irq hProgram =>
    obtain ⟨hMasterIsr, hSlaveIsr⟩ := h.idle hProgram
    rw [I8259Pair.picAcknowledge_eq s.pair irq.isLt]
    by_cases hFirst : irq.val < 8
    · rw [dif_pos hFirst]
      exact h.of_pair _ ⟨h0, h1, h2, h3, h4, h5, h6, h7⟩ h.cascade (by simp [hMasterIsr]) rfl
    · rw [dif_neg hFirst]
      exact h.of_pair _ ⟨h0, h1, h2, h3, h4, h5, h6, h7⟩ h.cascade (by simp [hMasterIsr])
        (by simp [hSlaveIsr])

/-- **Run lemma.** -/
theorem irqInv_reachable (h : Reachable irqSystem s) : IrqInv s := by
  have hStep : ∀ s s', Reachable irqSystem s → IrqInv s → irqSystem.step s s' → IrqInv s' :=
    fun s s' _ hInv hStep => irqInv_step hInv hStep.1 hStep.2
  refine Reachable.invariant ?_ hStep h
  rintro s ⟨⟨p, hPair⟩, hFrames⟩
  obtain ⟨hConfigured, -, hMasterIrr, -, hMasterIsr, hSlaveIsr⟩ := p.kernelBoot_idle
  refine ⟨hPair ▸ hConfigured, ?_, ?_, ?_, ?_, ?_⟩
  · rw [hPair, hMasterIrr]
    exact Finset.notMem_empty 2
  · intro f hf
    rw [hFrames] at hf
    cases hf
  · rw [hPair, hFrames, hMasterIsr]
    exact Nested.nil
  · rw [hPair, hFrames, hSlaveIsr]
    exact Nested.nil
  · rw [hFrames]
    trivial

/-- What a step does that enters a handler for a request of the first chip that is gone. -/
theorem entersSpurious_step (h : s.pair.Configured) (hStep : IrqStep s s')
    (hEnters : EntersSpurious s s') :
    s' = ⟨s.pair, ⟨39, true, s.enabled, [(0x20, 0x20)]⟩ :: s.frames, false⟩ := by
  obtain ⟨g, hg, hSpurious, hFirst⟩ := hEnters
  have hLength := congrArg List.length hg
  rw [List.length_cons] at hLength
  cases hStep with
  | spurious int_no pair hOn hAccept =>
    obtain ⟨rfl, -⟩ := List.cons.inj hg
    rcases hAccept with hGone | hGone
    · obtain ⟨rfl, rfl⟩ := I8259Pair.acceptSpurious_some h hGone
      rfl
    · obtain ⟨rfl, -⟩ := I8259Pair.acceptSpuriousSlave_some h hGone
      exact absurd hFirst (show ¬ 47 < 40 by omega)
  | accept int_no pair hOn hAccept =>
    obtain ⟨rfl, -⟩ := List.cons.inj hg
    cases hSpurious
  | eoi f rest port v todo hFrames hTodo =>
    rw [hFrames] at hLength
    simp only [List.length_cons] at hLength
    omega
  | iret f rest hFrames hTodo =>
    rw [hFrames] at hLength
    simp only [List.length_cons] at hLength
    omega
  | _ =>
    simp only at hLength
    omega

end Steps

/-- **Interrupts.** In every state that the kernel reaches, with interrupts at any moment and
inside of other handlers, spurious ones too as long as the first chip has nothing in
service when it makes one: the number of each handler is an index of the table of
routines; each write of an end of interrupt ends the level of the handler that makes it
and nothing else, or nothing at all if the request was gone; and when no handler is
active nothing is in service, so that any request that is not masked comes through.
A spurious interrupt of the first chip while something is in service there ends the
level of another handler. -/
theorem interrupts_nested {s : IrqSystem} (h : Reachable irqSystem s) :
    (∀ f ∈ s.frames, f.int_no - 32 < 16) ∧
    (∀ f rest port v todo, s.frames = f :: rest → f.todo = (port, v) :: todo →
      EndsOwn s.pair f port v ∨ f.spurious = true ∧ s.pair.outb port v = s.pair) ∧
    (s.frames = [] → s.pair.master.isr = ∅ ∧ s.pair.slave.isr = ∅ ∧
      ((∃ i ∈ s.pair.master.irr, s.pair.master.imr.getLsbD i = false) ∨
        (∃ k ∈ s.pair.slave.irr, s.pair.slave.imr.getLsbD k = false) ∧
          s.pair.master.imr.getLsbD 2 = false → s.pair.accept.isSome)) ∧
    ∀ s', IrqStep s s' → EntersSpurious s s' → s.pair.master.isr ≠ ∅ →
      ∃ g f, s'.frames = g :: s.frames ∧ g.todo = [(0x20, 0x20)] ∧ f ∈ s.frames ∧
        f.level ∈ s'.pair.master.isr ∧ s'.pair.outb 0x20 0x20 =
          ⟨{ s'.pair.master with isr := s'.pair.master.isr.erase f.level }, s'.pair.slave⟩ := by
  have hInv := irqInv_reachable h
  refine ⟨fun f hf => ?_, fun f rest port v todo hFrames hTodo =>
    (irqInv_eoi hInv hFrames hTodo).2,
    fun hFrames => ?_, fun s' hStep hEnters hBusy => ?_⟩
  · have hNumber := hInv.numbers f hf
    omega
  · obtain ⟨hMasterIsr, hSlaveIsr⟩ := hInv.idle hFrames
    exact ⟨hMasterIsr, hSlaveIsr, fun hRequest =>
      I8259Pair.accept_isSome hInv.configured hMasterIsr hSlaveIsr hInv.cascade hRequest⟩
  · obtain rfl := entersSpurious_step hInv.configured hStep hEnters
    have hMaster := hInv.master
    cases hOwed : masterOwed s.frames with
    | nil =>
      rw [hOwed] at hMaster
      exact absurd hMaster.levels hBusy
    | cons i rest =>
      -- the least level in service is that of the innermost handler that waits
      obtain ⟨f, hf, rfl⟩ := mem_masterOwed (hOwed ▸ List.mem_cons_self)
      rw [hOwed] at hMaster
      refine ⟨_, f, rfl, rfl, hf, hMaster.mem_iff.mpr List.mem_cons_self, ?_⟩
      rw [I8259Pair.outb_masterEoi, hMaster.pop.1]

/-- A step that leaves the handlers as they are is no spurious interrupt. -/
theorem not_entersSpurious {s s' : IrqSystem} (h : s'.frames = s.frames) :
    ¬ EntersSpurious s s' := by
  rintro ⟨f, hf, -⟩
  have hLength := congrArg List.length (h.symm.trans hf)
  rw [List.length_cons] at hLength
  omega

/-- Chips in the middle of their initialisation, with everything in service. -/
def busyChips : I8259Pair :=
  let busy : I8259 := ⟨Finset.univ, Finset.univ, 0, 0, 0, 0, 0, 3⟩
  ⟨busy, busy⟩

/-- After the boot on them, with the lines of the clock and of the serial port enabled. -/
def twoLines : I8259Pair := (busyChips.kernelBoot.irqEnable 0).irqEnable 4

/-- A spurious interrupt with nothing in service, the serial port inside of its handler, and
the clock inside of that one's. The end of interrupt of the clock leaves the serial port
in service. -/
theorem interrupts_nested_three_deep :
    ∃ s, Reachable irqSystem s ∧ s.frames.map IrqFrame.int_no = [32, 36, 39] ∧
      s.pair.master.isr = {0, 4} ∧ (s.pair.outb 0x20 0x20).master.isr = {4} := by
  have hEval : (twoLines.acceptSpurious.bind fun (n₁, p₁) =>
      (I8259Pair.accept
        { p₁ with master := { p₁.master with irr := insert 4 p₁.master.irr } }).bind
        fun (n₂, p₂) =>
      (I8259Pair.accept
        { p₂ with master := { p₂.master with irr := insert 0 p₂.master.irr } }).map
        fun (n₃, p₃) => (n₁, n₂, n₃, twoLines.master.isr, p₃.master.isr)) =
      some (39, 36, 32, ∅, {0, 4}) := by decide +kernel
  obtain ⟨⟨n₁, p₁⟩, hSpurious, hEval⟩ := Option.bind_eq_some_iff.mp hEval
  obtain ⟨⟨n₂, p₂⟩, hSerial, hEval⟩ := Option.bind_eq_some_iff.mp hEval
  obtain ⟨⟨n₃, p₃⟩, hClock, hEval⟩ := Option.map_eq_some_iff.mp hEval
  simp only [Prod.mk.injEq] at hEval
  obtain ⟨rfl, rfl, rfl, hIdle, hIsr⟩ := hEval
  -- all steps but the spurious interrupt
  have hStep : ∀ {s s' : IrqSystem}, Reachable irqSystem s → IrqStep s s' →
      ¬ EntersSpurious s s' → Reachable irqSystem s' :=
    fun hr hStep hNot => .step hr ⟨hStep, fun hc => absurd hc hNot⟩
  have hTake : ∀ {s s' : IrqSystem} {f : IrqFrame}, s'.frames = f :: s.frames →
      f.spurious = false → ¬ EntersSpurious s s' := by
    rintro s s' f hf hReal ⟨g, hg, hTrue, -⟩
    obtain ⟨rfl, -⟩ := List.cons.inj (hf.symm.trans hg)
    rw [hReal] at hTrue
    cases hTrue
  have hBoot : Reachable irqSystem ⟨busyChips.kernelBoot, [], true⟩ :=
    .init ⟨⟨_, rfl⟩, rfl⟩
  have hLine0 := hStep hBoot (.enable _ 0) (not_entersSpurious rfl)
  have hLine4 : Reachable irqSystem ⟨twoLines, [], true⟩ :=
    hStep hLine0 (.enable _ 4) (not_entersSpurious rfl)
  have h₁ :=
    Reachable.step hLine4 ⟨.spurious _ 39 p₁ rfl (Or.inl hSpurious), fun _ => hIdle⟩
  have h₁' := hStep (hStep h₁ (.sti _) (not_entersSpurious rfl)) (.raiseMaster _ 4 (by decide))
    (not_entersSpurious rfl)
  have h₂ := hStep h₁' (.accept _ 36 p₂ rfl hSerial) (hTake rfl rfl)
  have h₂' := hStep (hStep h₂ (.sti _) (not_entersSpurious rfl)) (.raiseMaster _ 0 (by decide))
    (not_entersSpurious rfl)
  have h₃ := hStep h₂' (.accept _ 32 p₃ rfl hClock) (hTake rfl rfl)
  refine ⟨_, h₃, rfl, hIsr, ?_⟩
  rcases (interrupts_nested h₃).2.1 _ _ _ _ _ rfl rfl with hOwn | ⟨hGone, -⟩
  · rcases hOwn with ⟨-, -, hWrite⟩ | ⟨hPort, -⟩
    · rw [hWrite]
      show p₃.master.isr.erase 0 = {4}
      rw [hIsr]
      decide
    · cases hPort
  · cases hGone

end Hexos
