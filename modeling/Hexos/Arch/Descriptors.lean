import Hexos.Lib.Memory
import Hexos.Libc.Strings
import Mathlib.Algebra.Group.Nat.Defs
import Mathlib.Data.List.Pairwise

/-!
# HexOS — the descriptor tables of the processor

`kernel/arch/i386/gdt.c` and `idt.c`, the gates that `isrs_install` and
`irq_install` of `isr.c` make, and `gdt_flush` of `boot.s`. The tables are
bytes of the memory, written field by field; the processor reads them as the two
words of a descriptor, and marks a segment that it loads as accessed.

## Results

* `readSegment_gdtSetGate`, `readGate_idtSetGate` — a descriptor read back.
* `keepsSegments_gdtFlush` — what `gdt_flush` does to the table.
* `gdt_segments` — which selectors the processor accepts once the table is
  installed, and for which segment.
* `idt_vectors` — which interrupts reach a stub, and which one.
-/

namespace Hexos

open Mem

-- ---------------------------------------------------------------------------
-- The tables in memory
-- ---------------------------------------------------------------------------

/-- Where the linker puts the tables and the two pointers to them. -/
structure DescriptorLayout where
  gdt  : Nat
  gp   : Nat
  idt  : Nat
  idtp : Nat
  /-- The four objects with their sizes do not overlap. -/
  apart : [(gdt, 24), (gp, 6), (idt, 2048), (idtp, 6)].Pairwise fun r s =>
    r.1 + r.2 ≤ s.1 ∨ s.1 + s.2 ≤ r.1
  /-- They lie in the address space. -/
  bound : gdt < 2 ^ 32 ∧ idt < 2 ^ 32

/-- `gdt_set_gate`. The fields of `struct gdt_entry` are `limit_low`, `base_low`,
`base_middle`, `access`, `granularity` and `base_high`. -/
def gdtSetGate (gdt : Nat) (m : Mem) (num base limit : Nat) (access gran : UInt8) : Mem :=
  let entry := gdt + 8 * num
  let m := m.store16 (entry + 2) (base &&& 0xFFFF)
  let m := m.store8 (entry + 4) (UInt8.ofNat ((base >>> 16) &&& 0xFF))
  let m := m.store8 (entry + 7) (UInt8.ofNat ((base >>> 24) &&& 0xFF))
  let m := m.store16 entry (limit &&& 0xFFFF)
  let m := m.store8 (entry + 6) (UInt8.ofNat ((limit >>> 16) &&& 0x0F))
  let m := m.store8 (entry + 6) (m (entry + 6) ||| (gran &&& 0xF0))
  m.store8 (entry + 5) access

/-- `idt_set_gate`. The fields of `struct idt_entry` are `base_lo`, `sel`, `always0`,
`flags` and `base_hi`. -/
def idtSetGate (idt : Nat) (m : Mem) (num base sel : Nat) (flags : UInt8) : Mem :=
  let entry := idt + 8 * num
  let m := m.store16 entry (base &&& 0xFFFF)
  let m := m.store16 (entry + 6) ((base >>> 16) &&& 0xFFFF)
  let m := m.store16 (entry + 2) sel
  let m := m.store8 (entry + 4) 0
  m.store8 (entry + 5) flags

namespace DescriptorLayout

variable (t : DescriptorLayout)

/-- `gdt_install`, without the flush. -/
def gdtInstall (m : Mem) : Mem :=
  let m := m.store16 t.gp (8 * 3 - 1)
  let m := m.store32 (t.gp + 2) t.gdt
  let m := gdtSetGate t.gdt m 0 0 0 0 0
  let m := gdtSetGate t.gdt m 1 0 0xFFFFFFFF 0x9A 0xCF
  gdtSetGate t.gdt m 2 0 0xFFFFFFFF 0x92 0xCF

/-- `idt_install`, without the load. -/
def idtInstall (m : Mem) : Mem :=
  let m := m.store16 t.idtp (8 * 256 - 1)
  let m := m.store32 (t.idtp + 2) t.idt
  memset m t.idt 0 (8 * 256)

/-- Calls of `idt_set_gate` for the numbers from `first` on, each with its stub. -/
def setGates (stub : Nat → UInt32) (first : Nat) (m : Mem) (count : Nat) : Mem :=
  (List.range count).foldl
    (fun m k => idtSetGate t.idt m (first + k) (stub k).toNat 0x08 0x8E) m

/-- `isrs_install`. -/
def isrsInstall (isr : Nat → UInt32) (m : Mem) : Mem := t.setGates isr 0 m 32

/-- The gates of `irq_install`. -/
def irqInstall (irq : Nat → UInt32) (m : Mem) : Mem := t.setGates irq 32 m 16

end DescriptorLayout

-- ---------------------------------------------------------------------------
-- What the processor reads
-- ---------------------------------------------------------------------------

/-- A segment descriptor as the processor takes it apart. -/
structure Segment where
  base   : Nat
  limit  : Nat
  access : Nat
  flags  : Nat
  deriving DecidableEq, Repr

namespace Segment

/-- The descriptor in the two words at `a`. -/
def read (m : Mem) (a : Nat) : Segment where
  base := m.load32 a / 2 ^ 16 + 2 ^ 16 * (m.load32 (a + 4) % 2 ^ 8) +
    2 ^ 24 * (m.load32 (a + 4) / 2 ^ 24)
  limit := m.load32 a % 2 ^ 16 + 2 ^ 16 * (m.load32 (a + 4) / 2 ^ 16 % 2 ^ 4)
  access := m.load32 (a + 4) / 2 ^ 8 % 2 ^ 8
  flags := m.load32 (a + 4) / 2 ^ 20 % 2 ^ 4

variable (s : Segment)

/-- The segment is in memory. -/
def Present : Prop := s.access / 2 ^ 7 % 2 = 1

/-- The privilege level of the segment. -/
def dpl : Nat := s.access / 2 ^ 5 % 4

/-- A segment with code, not conforming. -/
def Code : Prop := s.access / 2 ^ 2 % 8 = 6

/-- A segment with data, or one with code that can be read. -/
def Readable : Prop := s.access / 2 ^ 3 % 4 = 2 ∨
    (s.access / 2 ^ 3 % 4 = 3 ∧ s.access / 2 % 2 = 1)

/-- A segment with data that can be written. -/
def Writable : Prop := s.access / 2 ^ 3 % 4 = 2 ∧ s.access / 2 % 2 = 1

/-- The last offset in the segment: the limit counts bytes or pages. -/
def last : Nat := if s.flags / 8 % 2 = 1 then s.limit * 4096 + 4095 else s.limit

/-- The segment with the accessed bit, the lowest one of the access byte, set or not. -/
def withAccessed (bit : Nat) : Segment := { s with access := s.access + bit }

/-- All addresses, each at its own offset, with 32-bit operands. -/
def Flat : Prop := s.base = 0 ∧ s.last = 2 ^ 32 - 1 ∧ s.flags / 4 % 2 = 1

instance : Decidable s.Present := inferInstanceAs (Decidable (_ = _))
instance : Decidable s.Code := inferInstanceAs (Decidable (_ = _))
instance : Decidable s.Readable := inferInstanceAs (Decidable (_ ∨ _))
instance : Decidable s.Writable := inferInstanceAs (Decidable (_ ∧ _))
instance : Decidable s.Flat := inferInstanceAs (Decidable (_ ∧ _))

end Segment

/-- A gate of the interrupt table. -/
structure Gate where
  offset   : Nat
  selector : Nat
  zero     : Nat
  flags    : Nat
  deriving DecidableEq, Repr

namespace Gate

/-- The gate in the two words at `a`. -/
def read (m : Mem) (a : Nat) : Gate where
  offset := m.load32 a % 2 ^ 16 + 2 ^ 16 * (m.load32 (a + 4) / 2 ^ 16)
  selector := m.load32 a / 2 ^ 16
  zero := m.load32 (a + 4) % 2 ^ 8
  flags := m.load32 (a + 4) / 2 ^ 8 % 2 ^ 8

/-- The gate can be used. -/
def Present (g : Gate) : Prop := g.flags / 2 ^ 7 % 2 = 1

/-- A 32-bit interrupt gate: the processor clears the interrupt flag. -/
def Interrupt (g : Gate) : Prop := g.flags % 2 ^ 5 = 14

instance (g : Gate) : Decidable g.Present := inferInstanceAs (Decidable (_ = _))
instance (g : Gate) : Decidable g.Interrupt := inferInstanceAs (Decidable (_ = _))

end Gate

/-- A register that holds the limit and the base of a table, as `lgdt` and `lidt`
load it from the six bytes at `a`. -/
structure TableRegister where
  limit : Nat
  base  : Nat
  deriving DecidableEq, Repr

/-- `lgdt [a]`, `lidt [a]`. -/
def TableRegister.load (m : Mem) (a : Nat) : TableRegister := ⟨m.load16 a, m.load32 (a + 2)⟩

/-- The descriptor a selector names. The null selector, the selectors of a local
table (none is ever loaded) and those beyond the limit name none. -/
def TableRegister.segment (r : TableRegister) (m : Mem) (selector : Nat) : Option Segment :=
  if selector / 8 = 0 ∨ selector / 4 % 2 = 1 ∨ r.limit < selector / 8 * 8 + 7 then none
  else some (Segment.read m (r.base + 8 * (selector / 8)))

/-- A far jump in ring 0, or the code selector of a gate: `none` is a fault. -/
def TableRegister.loadCode (r : TableRegister) (m : Mem) (selector : Nat) : Option Segment :=
  (r.segment m selector).filter fun s => s.Present ∧ s.Code ∧ s.dpl = 0 ∧ selector % 4 = 0

/-- A move to `ss` in ring 0. -/
def TableRegister.loadStack (r : TableRegister) (m : Mem) (selector : Nat) : Option Segment :=
  (r.segment m selector).filter fun s => s.Present ∧ s.Writable ∧ s.dpl = 0 ∧ selector % 4 = 0

/-- A move of a selector other than a null one to `ds`, `es`, `fs` or `gs` in ring 0. -/
def TableRegister.loadData (r : TableRegister) (m : Mem) (selector : Nat) : Option Segment :=
  (r.segment m selector).filter fun s => s.Present ∧ s.Readable ∧ selector % 4 ≤ s.dpl

/-- The processor marks the segment of a selector that it loads as accessed. -/
def TableRegister.mark (r : TableRegister) (m : Mem) (selector : Nat) : Mem :=
  m.store8 (r.base + 8 * (selector / 8) + 5) (m (r.base + 8 * (selector / 8) + 5) ||| 1)

/-- Where interrupt `n` goes in ring 0: the gate must be present and in the table,
and its selector must name a code segment. -/
def TableRegister.vector (r gdtr : TableRegister) (m : Mem) (n : Nat) : Option Nat :=
  if r.limit < 8 * n + 7 then none
  else
    let gate := Gate.read m (r.base + 8 * n)
    if gate.Present ∧ gate.Interrupt then
      (gdtr.loadCode m (gate.selector / 4 * 4)).map fun s => s.base + gate.offset
    else none

-- ---------------------------------------------------------------------------
-- One descriptor
-- ---------------------------------------------------------------------------

section Entry

variable (m : Mem) (table num : Nat)

/-- The granularity byte: the high bits of the limit below, the flags above. -/
theorem granularity_toNat (high : Nat) (gran : UInt8) :
    (UInt8.ofNat (high &&& 0x0F) ||| (gran &&& 0xF0)).toNat =
      high % 16 + 16 * (gran.toNat / 16) := by
  have hLow : high &&& 0x0F = high % 2 ^ 4 := Nat.and_two_pow_sub_one_eq_mod high 4
  have hHigh : ∀ g : Fin 256, g.val &&& 0xF0 = 2 ^ 4 * (g.val / 16) := by decide +kernel
  have hGran : gran.toNat &&& 0xF0 = 2 ^ 4 * (gran.toNat / 16) :=
    hHigh ⟨gran.toNat, gran.toNat_lt⟩
  rw [UInt8.toNat_or, UInt8.toNat_and, UInt8.toNat_ofNat', hLow]
  have hSmall : high % 2 ^ 4 % 2 ^ 8 = high % 2 ^ 4 := Nat.mod_eq_of_lt (by omega)
  rw [hSmall, show (0xF0 : UInt8).toNat = 0xF0 from rfl, hGran, Nat.or_comm,
    ← Nat.two_pow_add_eq_or_of_lt (by omega)]
  omega

/-- **Frame.** The other bytes. -/
theorem gdtSetGate_sameOff (base limit : Nat) (access gran : UInt8) :
    SameOff m (gdtSetGate table m num base limit access gran) (table + 8 * num) 8 := by
  intro i hi
  unfold gdtSetGate
  simp only [store8_other (show i ≠ table + 8 * num + 5 by omega),
    store8_other (show i ≠ table + 8 * num + 6 by omega),
    store8_other (show i ≠ table + 8 * num + 7 by omega),
    store8_other (show i ≠ table + 8 * num + 4 by omega),
    store16_other (show i < table + 8 * num ∨ table + 8 * num + 2 ≤ i by omega),
    store16_other (show i < table + 8 * num + 2 ∨ table + 8 * num + 2 + 2 ≤ i by omega)]

/-- **Frame.** The other bytes. -/
theorem idtSetGate_sameOff (base sel : Nat) (flags : UInt8) :
    SameOff m (idtSetGate table m num base sel flags) (table + 8 * num) 8 := by
  intro i hi
  unfold idtSetGate
  simp only [store8_other (show i ≠ table + 8 * num + 5 by omega),
    store8_other (show i ≠ table + 8 * num + 4 by omega),
    store16_other (show i < table + 8 * num ∨ table + 8 * num + 2 ≤ i by omega),
    store16_other (show i < table + 8 * num + 6 ∨ table + 8 * num + 6 + 2 ≤ i by omega),
    store16_other (show i < table + 8 * num + 2 ∨ table + 8 * num + 2 + 2 ≤ i by omega)]

/-- A descriptor from its fields. -/
theorem Segment.read_fields {a low flags : Nat} (hLow : low < 16) (hFlags : flags < 16)
    (h6 : (m (a + 6)).toNat = low + 16 * flags) :
    Segment.read m a =
      ⟨m.load16 (a + 2) + 2 ^ 16 * (m (a + 4)).toNat + 2 ^ 24 * (m (a + 7)).toNat,
      m.load16 a + 2 ^ 16 * low, (m (a + 5)).toNat, flags⟩ := by
  have hFirst := m.load32_halves a
  have hSecond : m.load32 (a + 4) = (m (a + 4)).toNat + 256 * (m (a + 5)).toNat +
      65536 * (m (a + 6)).toNat + 16777216 * (m (a + 7)).toNat := rfl
  have h0 : m.load16 a < 2 ^ 16 := by omega
  have h4 := (m (a + 4)).toNat_lt
  have h5 := (m (a + 5)).toNat_lt
  have h7 := (m (a + 7)).toNat_lt
  rw [Segment.read, hSecond, h6, hFirst.1, Segment.mk.injEq]
  refine ⟨?_, ?_, ?_, ?_⟩ <;> omega

/-- **Round trip.** The segment that the processor reads. -/
theorem readSegment_gdtSetGate (base limit : Nat) (access gran : UInt8) :
    Segment.read (gdtSetGate table m num base limit access gran) (table + 8 * num) =
      ⟨base % 2 ^ 32, limit % 2 ^ 20, access.toNat, gran.toNat / 16⟩ := by
  have hGran : (gdtSetGate table m num base limit access gran (table + 8 * num + 6)).toNat =
      (limit >>> 16) % 16 + 16 * (gran.toNat / 16) := by
    unfold gdtSetGate
    simp (disch := omega) only [store8_other, store8_self]
    exact granularity_toNat _ gran
  have hFlags := gran.toNat_lt
  rw [Segment.read_fields _ (Nat.mod_lt _ (by omega)) (by omega) hGran]
  unfold gdtSetGate
  simp (disch := omega) only [load16_store8_other, load16_store16_other, load16_store16,
    store16_other, store8_other, store8_self]
  have hBase : base &&& 0xFFFF = base % 2 ^ 16 := Nat.and_two_pow_sub_one_eq_mod base 16
  have hLimit : limit &&& 0xFFFF = limit % 2 ^ 16 := Nat.and_two_pow_sub_one_eq_mod limit 16
  have hMiddle : (base >>> 16) &&& 0xFF = (base >>> 16) % 2 ^ 8 :=
    Nat.and_two_pow_sub_one_eq_mod _ 8
  have hHigh : (base >>> 24) &&& 0xFF = (base >>> 24) % 2 ^ 8 :=
    Nat.and_two_pow_sub_one_eq_mod _ 8
  rw [hBase, hLimit, hMiddle, hHigh, UInt8.toNat_ofNat', UInt8.toNat_ofNat']
  simp only [Nat.shiftRight_eq_div_pow]
  rw [Segment.mk.injEq]
  refine ⟨?_, ?_, rfl, rfl⟩ <;> omega

/-- **Round trip.** The gate that the processor reads. -/
theorem readGate_idtSetGate (base sel : Nat) (flags : UInt8) :
    Gate.read (idtSetGate table m num base sel flags) (table + 8 * num) =
      ⟨base % 2 ^ 32, sel % 2 ^ 16, 0, flags.toNat⟩ := by
  unfold idtSetGate
  generalize table + 8 * num = a
  have hFirst : ∀ m' : Mem, m'.load32 a = m'.load16 a + 65536 * m'.load16 (a + 2) :=
    fun m' => (m'.load32_halves a).1
  have hSecond : ∀ m' : Mem, m'.load32 (a + 4) = (m' (a + 4)).toNat + 256 * (m' (a + 5)).toNat +
      65536 * m'.load16 (a + 6) := by
    intro m'
    unfold load32 load16
    rw [Nat.add_assoc a 4 1, Nat.add_assoc a 4 2, Nat.add_assoc a 4 3, Nat.add_assoc a 6 1]
    omega
  unfold Gate.read
  simp only [hFirst, hSecond]
  simp (disch := omega) only [load16_store8_other, load16_store16_other, load16_store16,
    store8_other, store8_self]
  have hLow : base &&& 0xFFFF = base % 2 ^ 16 := Nat.and_two_pow_sub_one_eq_mod base 16
  have hHigh : (base >>> 16) &&& 0xFFFF = base / 2 ^ 16 % 2 ^ 16 := by
    rw [Nat.shiftRight_eq_div_pow]
    exact Nat.and_two_pow_sub_one_eq_mod _ 16
  rw [hLow, hHigh, show (0 : UInt8).toNat = 0 from rfl]
  have hFlags := flags.toNat_lt
  rw [Gate.mk.injEq]
  refine ⟨?_, ?_, ?_, ?_⟩ <;> omega

end Entry

section Kept

variable {m m' : Mem} {a : Nat}

theorem Segment.read_kept (h : SameOn m m' a 8) : Segment.read m' a = Segment.read m a := by
  unfold Segment.read
  rw [(h.sub (Nat.le_refl a) (by omega)).load32, (h.sub (by omega) (by omega)).load32]

theorem Gate.read_kept (h : SameOn m m' a 8) : Gate.read m' a = Gate.read m a := by
  unfold Gate.read
  rw [(h.sub (Nat.le_refl a) (by omega)).load32, (h.sub (by omega) (by omega)).load32]

end Kept

-- ---------------------------------------------------------------------------
-- The segments
-- ---------------------------------------------------------------------------

namespace DescriptorLayout

variable (t : DescriptorLayout)

theorem gdt_gp_apart : t.gdt + 24 ≤ t.gp ∨ t.gp + 6 ≤ t.gdt := by
  simpa using (List.pairwise_cons.mp t.apart).1 (t.gp, 6) (by simp)

theorem idt_idtp_apart : t.idt + 2048 ≤ t.idtp ∨ t.idtp + 6 ≤ t.idt := by
  have hRest := (List.pairwise_cons.mp (List.pairwise_cons.mp t.apart).2).2
  simpa using (List.pairwise_cons.mp hRest).1 (t.idtp, 6) (by simp)

/-- The table of segments is apart from the other table and its pointer. -/
theorem gdt_idt_apart :
    (t.gdt + 24 ≤ t.idt ∨ t.idt + 2048 ≤ t.gdt) ∧
    (t.gdt + 24 ≤ t.idtp ∨ t.idtp + 6 ≤ t.gdt) := by
  have hFirst := (List.pairwise_cons.mp t.apart).1
  exact ⟨hFirst (t.idt, 2048) (by simp), hFirst (t.idtp, 6) (by simp)⟩

/-- The table of segments is as it was, but for accessed bits that have been set. -/
def KeepsSegments (m m' : Mem) : Prop :=
  ∀ num k, num < 3 → k < 8 → m' (t.gdt + 8 * num + k) = m (t.gdt + 8 * num + k) ∨
    k = 5 ∧ m' (t.gdt + 8 * num + k) = m (t.gdt + 8 * num + k) ||| 1

theorem KeepsSegments.of_sameOn {m m' : Mem} (h : SameOn m m' t.gdt 24) : t.KeepsSegments m m' :=
  fun num k hNum hk => Or.inl (h _ (by omega) (by omega))

theorem KeepsSegments.trans {m m' m'' : Mem} (h : t.KeepsSegments m m')
    (h' : t.KeepsSegments m' m'') :
    t.KeepsSegments m m'' := by
  have hTwice : ∀ x : UInt8, x ||| 1 ||| 1 = x ||| 1 := fun x => by
    rw [UInt8.or_assoc, show (1 : UInt8) ||| 1 = 1 from rfl]
  intro num k hNum hk
  rcases h' num k hNum hk with hSame | ⟨hAccess, hMarked⟩
  · rw [hSame]
    exact h num k hNum hk
  · rcases h num k hNum hk with hSame' | ⟨-, hMarked'⟩
    · exact Or.inr ⟨hAccess, by rw [hMarked, hSame']⟩
    · exact Or.inr ⟨hAccess, by rw [hMarked, hMarked', hTwice]⟩

/-- A segment is loaded. -/
theorem keepsSegments_mark (m : Mem) (limit selector : Nat) :
    t.KeepsSegments m (TableRegister.mark ⟨limit, t.gdt⟩ m selector) := by
  intro num k _ hk
  unfold TableRegister.mark
  simp only
  by_cases hByte : t.gdt + 8 * num + k = t.gdt + 8 * (selector / 8) + 5
  · rw [hByte, store8_self]
    exact Or.inr ⟨by omega, rfl⟩
  · rw [store8_other hByte]
    exact Or.inl rfl

/-- The loads of `gdt_flush`: `ds`, `es`, `fs`, `gs` and `ss` with the segment of data, and the
jump to the segment of code. -/
def gdtFlush (m : Mem) : Mem :=
  let gdtr := TableRegister.load m t.gp
  let m := [0x10, 0x10, 0x10, 0x10, 0x10].foldl gdtr.mark m
  gdtr.mark m 0x08

/-- What `lgdt [gp]` loads. -/
theorem load_gdtInstall (m : Mem) : TableRegister.load (t.gdtInstall m) t.gp = ⟨23, t.gdt⟩ := by
  have hApart := t.gdt_gp_apart
  have hGate : ∀ (m' : Mem) (num base limit : Nat) (access gran : UInt8), num < 3 →
      SameOn m' (gdtSetGate t.gdt m' num base limit access gran) t.gp 6 :=
    fun m' num base limit access gran hNum =>
      (gdtSetGate_sameOff m' t.gdt num base limit access gran).sameOn (by omega)
  have hKept : ∀ m' : Mem,
      SameOn m' (gdtSetGate t.gdt (gdtSetGate t.gdt (gdtSetGate t.gdt m' 0 0 0 0 0)
      1 0 0xFFFFFFFF 0x9A 0xCF) 2 0 0xFFFFFFFF 0x92 0xCF) t.gp 6 := fun m' =>
    ((hGate m' 0 0 0 0 0 (by omega)).trans (hGate _ 1 _ _ _ _ (by omega))).trans
      (hGate _ 2 _ _ _ _ (by omega))
  unfold TableRegister.load gdtInstall
  simp only
  rw [((hKept _).sub (Nat.le_refl _) (by omega)).load16,
    ((hKept _).sub (by omega) (by omega)).load32, load32_store32 t.bound.1,
    load16_store32_other (by omega), load16_store16]

/-- The segment of code in the table. -/
def codeSegment : Segment := ⟨0, 0xFFFFF, 0x9A, 0xC⟩

/-- The segment of data in the table. -/
def dataSegment : Segment := ⟨0, 0xFFFFF, 0x92, 0xC⟩

/-- The two descriptors in the table. -/
theorem read_gdtInstall (m : Mem) :
    Segment.read (t.gdtInstall m) (t.gdt + 8 * 1) = codeSegment ∧
      Segment.read (t.gdtInstall m) (t.gdt + 8 * 2) = dataSegment := by
  unfold gdtInstall
  simp only
  constructor
  · rw [Segment.read_kept ((gdtSetGate_sameOff _ t.gdt 2 _ _ _ _).sameOn (by omega)),
      readSegment_gdtSetGate]
    rfl
  · rw [readSegment_gdtSetGate]
    rfl

/-- **The flush.** It does nothing to the table but to mark the two segments. -/
theorem keepsSegments_gdtFlush (m : Mem) :
    t.KeepsSegments (t.gdtInstall m) (t.gdtFlush (t.gdtInstall m)) := by
  unfold gdtFlush
  rw [t.load_gdtInstall m]
  simp only [List.foldl_cons, List.foldl_nil]
  have hMark := t.keepsSegments_mark
  exact (((((hMark _ 23 0x10).trans t (hMark _ 23 0x10)).trans t (hMark _ 23 0x10)).trans t
    (hMark _ 23 0x10)).trans t (hMark _ 23 0x10)).trans t (hMark _ 23 0x08)

/-- The accessed bit of the descriptor `num`. -/
def accessed (m : Mem) (num : Nat) : Nat := (m (t.gdt + 8 * num + 5)).toNat % 2

/-- A descriptor whose accessed bit was clear, and what is read there later. -/
theorem read_keptSegments {m m' : Mem} (h : t.KeepsSegments m m') {num : Nat} (hNum : num < 3)
    (hClear : (Segment.read m (t.gdt + 8 * num)).access % 2 = 0) :
    Segment.read m' (t.gdt + 8 * num) =
      (Segment.read m (t.gdt + 8 * num)).withAccessed (t.accessed m' num) := by
  have hSame : ∀ k, k < 8 → k ≠ 5 → m' (t.gdt + 8 * num + k) = m (t.gdt + 8 * num + k) :=
    fun k hk hNot => (h num k hNum hk).resolve_right fun hc => hNot hc.1
  have hAccess := h num 5 hNum (by omega)
  unfold accessed
  generalize t.gdt + 8 * num = a at *
  have hFields : ∀ m : Mem, Segment.read m a =
      ⟨m.load16 (a + 2) + 2 ^ 16 * (m (a + 4)).toNat + 2 ^ 24 * (m (a + 7)).toNat,
        m.load16 a + 2 ^ 16 * ((m (a + 6)).toNat % 16), (m (a + 5)).toNat,
        (m (a + 6)).toNat / 16⟩ := fun m => by
    have hByte := (m (a + 6)).toNat_lt
    exact Segment.read_fields m (Nat.mod_lt _ (by omega)) (by omega) (by omega)
  have hOr : ∀ x : Fin 256, x.val % 2 = 0 → x.val ||| 1 = x.val + 1 := by decide +kernel
  rw [hFields] at hClear
  rw [hFields, hFields, Segment.withAccessed, Segment.mk.injEq]
  have hFirst : m' a = m a := hSame 0 (by omega) (by omega)
  unfold load16
  rw [Nat.add_assoc a 2 1, hFirst, hSame 1 (by omega) (by omega), hSame 2 (by omega) (by omega),
    hSame (2 + 1) (by omega) (by omega), hSame 4 (by omega) (by omega),
    hSame 6 (by omega) (by omega), hSame 7 (by omega) (by omega)]
  refine ⟨rfl, rfl, ?_, rfl⟩
  simp only at hClear ⊢
  rcases hAccess with hEq | ⟨-, hMarked⟩
  · rw [hEq]
    omega
  · have hNext := hOr ⟨(m (a + 5)).toNat, (m (a + 5)).toNat_lt⟩ hClear
    rw [hMarked, UInt8.toNat_or, show (1 : UInt8).toNat = 1 from rfl]
    simp only at hNext
    omega

/-- The segment of each selector, as long as nothing but the processor writes to the table. -/
theorem segment_kept {m m' : Mem} (hKept : t.KeepsSegments (t.gdtInstall m) m') (selector : Nat) :
    (TableRegister.mk 23 t.gdt).segment m' selector =
      if selector / 4 = 2 then some (codeSegment.withAccessed (t.accessed m' 1))
      else if selector / 4 = 4 then some (dataSegment.withAccessed (t.accessed m' 2))
        else none := by
  obtain ⟨hCode, hData⟩ := t.read_gdtInstall m
  have hCode' := t.read_keptSegments hKept (show 1 < 3 by omega) (by rw [hCode]; rfl)
  have hData' := t.read_keptSegments hKept (show 2 < 3 by omega) (by rw [hData]; rfl)
  rw [hCode] at hCode'
  rw [hData] at hData'
  unfold TableRegister.segment
  simp only
  by_cases hNone : selector / 8 = 0 ∨ selector / 4 % 2 = 1 ∨ 23 < selector / 8 * 8 + 7
  · rw [if_pos hNone, if_neg (by omega), if_neg (by omega)]
  · rw [if_neg hNone]
    rcases (by omega : selector / 4 = 2 ∨ selector / 4 = 4) with h | h
    · rw [if_pos h, show selector / 8 = 1 by omega, hCode']
    · rw [if_neg (by omega), if_pos h, show selector / 8 = 2 by omega, hData']

end DescriptorLayout

/-- The selectors that the table of `gdt_install` answers to. -/
theorem DescriptorLayout.segments_installed (t : DescriptorLayout) {m m' : Mem}
    (hKept : t.KeepsSegments (t.gdtInstall m) m') (selector : Nat) :
    ((TableRegister.mk 23 t.gdt).loadCode m' selector =
      if selector = 8 then some (DescriptorLayout.codeSegment.withAccessed (t.accessed m' 1))
      else none) ∧
    ((TableRegister.mk 23 t.gdt).loadStack m' selector =
      if selector = 16 then some (DescriptorLayout.dataSegment.withAccessed (t.accessed m' 2))
      else none) ∧
    ((TableRegister.mk 23 t.gdt).loadData m' selector =
      if selector = 8 then some (DescriptorLayout.codeSegment.withAccessed (t.accessed m' 1))
      else if selector = 16 then some (DescriptorLayout.dataSegment.withAccessed (t.accessed m' 2))
      else none) := by
  unfold TableRegister.loadCode TableRegister.loadStack TableRegister.loadData
  rw [t.segment_kept hKept]
  -- the accessed bits take part in no check
  have hBit : ∀ num, t.accessed m' num = 0 ∨ t.accessed m' num = 1 := fun num =>
    Nat.mod_two_eq_zero_or_one _
  by_cases h8 : selector = 8
  · subst h8
    rcases hBit 1 with h | h
    · rw [h]
      exact ⟨rfl, rfl, rfl⟩
    · rw [h]
      exact ⟨rfl, rfl, rfl⟩
  by_cases h16 : selector = 16
  · subst h16
    rcases hBit 2 with h | h
    · rw [h]
      exact ⟨rfl, rfl, rfl⟩
    · rw [h]
      exact ⟨rfl, rfl, rfl⟩
  -- any other selector names nothing, or asks for one of the outer rings
  have hDpl : ∀ num, (DescriptorLayout.codeSegment.withAccessed (t.accessed m' num)).dpl = 0 ∧
      (DescriptorLayout.dataSegment.withAccessed (t.accessed m' num)).dpl = 0 := fun num => by
    rcases hBit num with h | h
    · rw [h]
      exact ⟨rfl, rfl⟩
    · rw [h]
      exact ⟨rfl, rfl⟩
  have hOther : ∀ s, (if selector / 4 = 2 then
        some (DescriptorLayout.codeSegment.withAccessed (t.accessed m' 1))
      else if selector / 4 = 4 then
        some (DescriptorLayout.dataSegment.withAccessed (t.accessed m' 2)) else none) = some s →
      ¬ selector % 4 ≤ s.dpl := by
    intro s hs
    by_cases hCode : selector / 4 = 2
    · rw [if_pos hCode] at hs
      obtain rfl := Option.some.inj hs
      rw [(hDpl 1).1]
      omega
    · rw [if_neg hCode] at hs
      by_cases hData : selector / 4 = 4
      · rw [if_pos hData] at hs
        obtain rfl := Option.some.inj hs
        rw [(hDpl 2).2]
        omega
      · rw [if_neg hData] at hs
        cases hs
  simp only [if_neg h8, if_neg h16, Option.filter_eq_none_iff, decide_eq_true_eq]
  refine ⟨fun s hs hLoad => hOther s hs (by omega), fun s hs hLoad => hOther s hs (by omega),
    fun s hs hLoad => hOther s hs hLoad.2.2⟩

/-- **Segments.** After `gdt_install`, and as long as nothing writes to the table but the
processor, which marks segments as accessed, the processor runs ring 0 code through the
selector 8 and no other, takes a stack through 16 and no other, and data through these
two: the segments are flat. The selectors of user code, user data and the task segment
name nothing. -/
theorem gdt_segments (t : DescriptorLayout) (m m' : Mem)
    (hKept : t.KeepsSegments (t.gdtInstall m) m') (selector : Nat) :
    let gdtr := TableRegister.load (t.gdtInstall m) t.gp
    let code := DescriptorLayout.codeSegment.withAccessed (t.accessed m' 1)
    let data := DescriptorLayout.dataSegment.withAccessed (t.accessed m' 2)
    (gdtr.loadCode m' selector = if selector = 8 then some code else none) ∧
    (gdtr.loadStack m' selector = if selector = 16 then some data else none) ∧
    (gdtr.loadData m' selector = if selector = 8 then some code
      else if selector = 16 then some data else none) ∧
    code.Flat ∧ data.Flat := by
  simp only
  rw [t.load_gdtInstall m]
  obtain ⟨hCode, hStack, hData⟩ := t.segments_installed hKept selector
  have hFlat : DescriptorLayout.codeSegment.Flat ∧ DescriptorLayout.dataSegment.Flat := by decide
  exact ⟨hCode, hStack, hData, hFlat.1, hFlat.2⟩

/-- The tables where a linker could put them. -/
def DescriptorLayout.sample : DescriptorLayout where
  gdt := 0x200000
  gp := 0x200020
  idt := 0x201000
  idtp := 0x200030
  apart := by decide
  bound := by decide

/-- After the flush a jump to kernel code goes to a segment that is marked, and one to the
user code of `process.h` faults. -/
theorem gdt_segments_flushed :
    let t := DescriptorLayout.sample
    let m := t.gdtInstall fun _ => 0
    (TableRegister.load m t.gp).loadCode (t.gdtFlush m) 8 =
        some (DescriptorLayout.codeSegment.withAccessed 1) ∧
      (TableRegister.load m t.gp).loadCode (t.gdtFlush m) 27 = none := by
  have hSegments := gdt_segments DescriptorLayout.sample (fun _ => 0) _
    (DescriptorLayout.sample.keepsSegments_gdtFlush fun _ => 0)
  have hMarked : DescriptorLayout.sample.accessed
      (DescriptorLayout.sample.gdtFlush (DescriptorLayout.sample.gdtInstall fun _ => 0)) 1 = 1 := by
    decide +kernel
  refine ⟨?_, (hSegments 27).1⟩
  have hKernel := (hSegments 8).1
  rw [hMarked] at hKernel
  exact hKernel

-- ---------------------------------------------------------------------------
-- The gates
-- ---------------------------------------------------------------------------

namespace DescriptorLayout

variable (t : DescriptorLayout)

/-- What `lidt [idtp]` loads. -/
theorem load_idtInstall (m : Mem) :
    TableRegister.load (t.idtInstall m) t.idtp = ⟨2047, t.idt⟩ := by
  have hApart := t.idt_idtp_apart
  have hKept : ∀ m' : Mem, SameOn m' (memset m' t.idt 0 (8 * 256)) t.idtp 6 := fun m' =>
    (memset_sameOff m' t.idt 0 (8 * 256)).sameOn (by omega)
  unfold TableRegister.load idtInstall
  simp only
  rw [((hKept _).sub (Nat.le_refl _) (by omega)).load16,
    ((hKept _).sub (by omega) (by omega)).load32, load32_store32 t.bound.2,
    load16_store32_other (by omega), load16_store16]

/-- A gate that no one has set. -/
theorem read_idtInstall (m : Mem) {n : Nat} (hn : n < 256) :
    Gate.read (t.idtInstall m) (t.idt + 8 * n) = ⟨0, 0, 0, 0⟩ := by
  have hZero : ∀ k, k < 8 → t.idtInstall m (t.idt + 8 * n + k) = 0 := fun k hk => by
    unfold idtInstall
    exact memset_in (by omega) (by omega)
  have hWord : ∀ k, k + 4 ≤ 8 → (t.idtInstall m).load32 (t.idt + 8 * n + k) = 0 := by
    intro k hk
    unfold load32
    rw [hZero k (by omega), Nat.add_assoc _ k 1, Nat.add_assoc _ k 2, Nat.add_assoc _ k 3,
      hZero (k + 1) (by omega), hZero (k + 2) (by omega), hZero (k + 3) (by omega)]
    rfl
  unfold Gate.read
  rw [hWord 4 (by omega), show (t.idtInstall m).load32 (t.idt + 8 * n) = 0 from hWord 0 (by omega)]
  rfl

section SetGates

variable (stub : Nat → UInt32) (first : Nat) (m : Mem)

theorem setGates_succ (count : Nat) : t.setGates stub first m (count + 1) =
    idtSetGate t.idt (t.setGates stub first m count) (first + count)
      (stub count).toNat 0x08 0x8E := by
  unfold setGates
  rw [List.range_succ, List.foldl_append]
  rfl

/-- **Frame.** Only the gates from `first` on are written. -/
theorem setGates_sameOff (count : Nat) :
    SameOff m (t.setGates stub first m count) (t.idt + 8 * first) (8 * count) := by
  induction count with
  | zero => exact SameOff.refl m _ _
  | succ count ih =>
    rw [setGates_succ]
    have hGate := idtSetGate_sameOff (t.setGates stub first m count) t.idt (first + count)
      (stub count).toNat 0x08 0x8E
    exact (ih.sub (Nat.le_refl _) (by omega)).trans (hGate.sub (by omega) (by omega))

/-- **Run lemma.** Each gate has its stub. -/
theorem read_setGates {count k : Nat} (hk : k < count) :
    Gate.read (t.setGates stub first m count) (t.idt + 8 * (first + k)) =
      ⟨(stub k).toNat, 0x08, 0, 0x8E⟩ := by
  induction count with
  | zero => omega
  | succ count ih =>
    rw [setGates_succ]
    by_cases hLast : k = count
    · subst hLast
      rw [readGate_idtSetGate, Nat.mod_eq_of_lt (stub k).toNat_lt]
      rfl
    · have hOther := (idtSetGate_sameOff (t.setGates stub first m count) t.idt (first + count)
        (stub count).toNat 0x08 0x8E).sameOn (k := t.idt + 8 * (first + k)) (l := 8) (by omega)
      rw [Gate.read_kept hOther, ih (by omega)]

end SetGates

/-- The memory after `idt_install`, `isrs_install` and `irq_install`. -/
def gatesInstalled (isr irq : Nat → UInt32) (m : Mem) : Mem :=
  t.irqInstall irq (t.isrsInstall isr (t.idtInstall m))

/-- The three calls leave the table of segments alone. -/
theorem gatesInstalled_gdt (isr irq : Nat → UInt32) (m : Mem) :
    SameOn m (t.gatesInstalled isr irq m) t.gdt 24 := by
  have hApart := t.gdt_idt_apart
  have hPointer : SameOn m ((m.store16 t.idtp (8 * 256 - 1)).store32 (t.idtp + 2) t.idt) t.gdt 24 :=
    ((store16_sameOff m t.idtp _).sameOn (by omega)).trans
      ((store32_sameOff _ (t.idtp + 2) t.idt).sameOn (by omega))
  have hClear : SameOn _ (t.idtInstall m) t.gdt 24 :=
    hPointer.trans ((memset_sameOff _ t.idt 0 (8 * 256)).sameOn (by omega))
  exact (hClear.trans ((t.setGates_sameOff isr 0 _ 32).sameOn (by omega))).trans
    ((t.setGates_sameOff irq 32 _ 16).sameOn (by omega))

/-- The 256 gates. -/
theorem read_gatesInstalled (isr irq : Nat → UInt32) (m : Mem) {n : Nat} (hn : n < 256) :
    Gate.read (t.gatesInstalled isr irq m) (t.idt + 8 * n) =
      if n < 32 then ⟨(isr n).toNat, 0x08, 0, 0x8E⟩
      else if n < 48 then ⟨(irq (n - 32)).toNat, 0x08, 0, 0x8E⟩ else ⟨0, 0, 0, 0⟩ := by
  have hIrq : SameOff _ (t.gatesInstalled isr irq m) (t.idt + 8 * 32) (8 * 16) :=
    t.setGates_sameOff irq 32 (t.isrsInstall isr (t.idtInstall m)) 16
  have hIsr : SameOff _ (t.isrsInstall isr (t.idtInstall m)) (t.idt + 8 * 0) (8 * 32) :=
    t.setGates_sameOff isr 0 (t.idtInstall m) 32
  by_cases hLow : n < 32
  · rw [if_pos hLow, Gate.read_kept (hIrq.sameOn (by omega))]
    have hRead := t.read_setGates isr 0 (t.idtInstall m) hLow
    rwa [Nat.zero_add] at hRead
  · rw [if_neg hLow]
    by_cases hMiddle : n < 48
    · rw [if_pos hMiddle]
      have hRead := t.read_setGates irq 32 (t.isrsInstall isr (t.idtInstall m))
        (show n - 32 < 16 by omega)
      rwa [show 32 + (n - 32) = n by omega] at hRead
    · rw [if_neg hMiddle, Gate.read_kept (hIrq.sameOn (by omega)),
        Gate.read_kept (hIsr.sameOn (by omega)), t.read_idtInstall m hn]

end DescriptorLayout

/-- **Interrupts.** After the calls of `kernel_early`, and as long as nothing writes to the
two tables but the processor, which marks segments as accessed, each exception and each
line of the controllers reaches its own stub through the segment of kernel code, and no
other number reaches anything. -/
theorem idt_vectors (t : DescriptorLayout) (isr irq : Nat → UInt32) (m m₁ m₂ : Mem)
    (hBetween : t.KeepsSegments (t.gdtInstall m) m₁)
    (hGdt : t.KeepsSegments (t.gatesInstalled isr irq m₁) m₂)
    (hIdt : SameOn (t.gatesInstalled isr irq m₁) m₂ t.idt 2048) (n : Nat) :
    (TableRegister.load (t.idtInstall m₁) t.idtp).vector
      (TableRegister.load (t.gdtInstall m) t.gp) m₂ n =
      if n < 32 then some (isr n).toNat
      else if n < 48 then some (irq (n - 32)).toNat else none := by
  have hCode : (TableRegister.mk 23 t.gdt).loadCode m₂ 8 =
      some (DescriptorLayout.codeSegment.withAccessed (t.accessed m₂ 1)) := by
    have hGates := DescriptorLayout.KeepsSegments.of_sameOn t (t.gatesInstalled_gdt isr irq m₁)
    exact (t.segments_installed ((hBetween.trans t hGates).trans t hGdt) 8).1
  rw [t.load_idtInstall m₁, t.load_gdtInstall m]
  unfold TableRegister.vector
  by_cases hTable : 2047 < 8 * n + 7
  · rw [if_pos hTable, if_neg (by omega), if_neg (by omega)]
  · rw [if_neg hTable]
    simp only
    rw [Gate.read_kept (hIdt.sub (by omega) (by omega)),
      t.read_gatesInstalled isr irq m₁ (by omega)]
    have hReached : ∀ address : Nat,
        (if (Gate.mk address 0x08 0 0x8E).Present ∧ (Gate.mk address 0x08 0 0x8E).Interrupt
        then ((TableRegister.mk 23 t.gdt).loadCode m₂ (8 / 4 * 4)).map fun s => s.base + address
        else none) = some address := by
      intro address
      have hUsable : (Gate.mk address 0x08 0 0x8E).Present ∧
          (Gate.mk address 0x08 0 0x8E).Interrupt := by
        simp [Gate.Present, Gate.Interrupt]
      rw [if_pos hUsable, show 8 / 4 * 4 = 8 by omega, hCode, Option.map_some]
      exact congrArg some (Nat.zero_add address)
    by_cases hLow : n < 32
    · simp only [if_pos hLow]
      exact hReached _
    · by_cases hMiddle : n < 48
      · simp only [if_neg hLow, if_pos hMiddle]
        exact hReached _
      · simp only [if_neg hLow, if_neg hMiddle]
        rfl

/-- After the flush, the keyboard reaches the second stub of the lines. -/
theorem idt_vectors_keyboard :
    let t := DescriptorLayout.sample
    let m := t.gdtInstall fun _ => 0
    let stub : Nat → UInt32 := fun k => UInt32.ofNat (0x100000 + 16 * k)
    (TableRegister.load (t.idtInstall (t.gdtFlush m)) t.idtp).vector (TableRegister.load m t.gp)
      (t.gatesInstalled stub stub (t.gdtFlush m)) 33 = some 0x100010 :=
  idt_vectors DescriptorLayout.sample _ _ (fun _ => 0) _ _
    (DescriptorLayout.sample.keepsSegments_gdtFlush _) (.of_sameOn _ (SameOn.refl _ _ _))
    (SameOn.refl _ _ _) 33

end Hexos
