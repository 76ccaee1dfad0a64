import Hexos.Arch.Descriptors
import Hexos.Lib.Memory
import Mathlib.Logic.Function.Basic

/-!
# HexOS — the entry and the exit of an interrupt

The stubs of `kernel/arch/i386/interrupts.s`, instruction by instruction: what the
processor pushes when an interrupt arrives in ring 0, what the stub adds to make
the `struct regs` that the C function gets a pointer to, and the way back.

The C function is a parameter. It runs to its end with the words of the frame as
it found them; its registers and the rest of the memory are its own affair.

## Results

* `finds_of_frame` — what the C function finds in `struct regs`.
* `commonStubExit_restores` — the way back.
* `interrupt_transparent_iff` — when an interrupt leaves the program that it
  interrupts as it was.
-/

namespace Hexos

open Mem

-- ---------------------------------------------------------------------------
-- The processor
-- ---------------------------------------------------------------------------

/-- The general registers other than `esp`. -/
inductive GenReg
  | eax | ecx | edx | ebx | ebp | esi | edi
  deriving DecidableEq, Repr

/-- The data segment registers other than `ss`. -/
inductive SegReg
  | ds | es | fs | gs
  deriving DecidableEq, Repr

/-- The registers and the memory. -/
structure Cpu where
  gen    : GenReg → UInt32
  seg    : SegReg → UInt16
  cs     : UInt16
  esp    : UInt32
  eip    : UInt32
  eflags : UInt32
  mem    : Mem

/-- In what processors differ, and which selectors the tables make acceptable. -/
structure Processor where
  /-- The exceptions with an error code. -/
  pushesError : Nat → Bool
  /-- The push of a selector writes the whole word, and not just the low half. -/
  zeroExtends : Bool
  acceptsData : UInt16 → Bool
  acceptsCode : UInt16 → Bool

namespace Cpu

variable (c : Cpu)

/-- `pushl v`. -/
def push (v : UInt32) : Cpu :=
  { c with esp := c.esp - 4, mem := c.mem.store32 (c.esp - 4).toNat v.toNat }

/-- The push of a selector. -/
def pushSelector (p : Processor) (s : UInt16) : Cpu :=
  let high := if p.zeroExtends then 0 else c.mem.load32 (c.esp - 4).toNat / 65536
  c.push (UInt32.ofNat (65536 * high + s.toNat))

/-- `pusha`. -/
def pusha : Cpu :=
  (((((((c.push (c.gen .eax)).push (c.gen .ecx)).push (c.gen .edx)).push (c.gen .ebx)).push
    c.esp).push (c.gen .ebp)).push (c.gen .esi)).push (c.gen .edi)

/-- The word number `k` of the stack. -/
def word (k : Nat) : UInt32 := UInt32.ofNat (c.mem.load32 (c.esp.toNat + 4 * k))

/-- Give up `n` bytes of the stack. -/
def drop (n : UInt32) : Cpu := { c with esp := c.esp + n }

/-- `popa`: the word of `esp` is passed over. -/
def popa : Cpu :=
  { c with
    gen := fun
      | .edi => c.word 0
      | .esi => c.word 1
      | .ebp => c.word 2
      | .ebx => c.word 4
      | .edx => c.word 5
      | .ecx => c.word 6
      | .eax => c.word 7
    esp := c.esp + 32 }

/-- A new value for a general register. -/
def setGen (r : GenReg) (v : UInt32) : Cpu := { c with gen := Function.update c.gen r v }

/-- A new selector for a segment register: `none` is a fault. -/
def loadSeg (p : Processor) (s : SegReg) (v : UInt16) : Option Cpu :=
  if p.acceptsData v then some { c with seg := Function.update c.seg s v } else none

end Cpu

/-- The instructions of the stubs. -/
inductive StubInstr
  | cli
  | pushl (v : UInt32)
  | pusha
  | pushSeg (s : SegReg)
  | movAx (v : UInt16)
  | movSegAx (s : SegReg)
  | movEaxEsp
  | pushEax
  | call
  | popEax
  | popSeg (s : SegReg)
  | popa
  | addEsp (n : UInt32)
  | iret
  deriving DecidableEq, Repr

/-- One instruction. `callee` is what the called C function does from its first
instruction to its `ret`, `ret` the address after the call. An `iret` to an outer ring
is not followed. -/
def StubInstr.exec (p : Processor) (callee : Cpu → Cpu) (ret : UInt32) :
    StubInstr → Cpu → Option Cpu
  | .cli, c => some { c with eflags := c.eflags &&& ~~~0x200 }
  | .pushl v, c => some (c.push v)
  | .pusha, c => some c.pusha
  | .pushSeg s, c => some (c.pushSelector p (c.seg s))
  | .movAx v, c => some (c.setGen .eax ((c.gen .eax &&& 0xFFFF0000) ||| v.toUInt32))
  | .movSegAx s, c => c.loadSeg p s (c.gen .eax).toUInt16
  | .movEaxEsp, c => some (c.setGen .eax c.esp)
  | .pushEax, c => some (c.push (c.gen .eax))
  | .call, c => some (callee (c.push ret))
  | .popEax, c => some ((c.setGen .eax (c.word 0)).drop 4)
  | .popSeg s, c => (c.loadSeg p s (c.word 0).toUInt16).map fun c => c.drop 4
  | .popa, c => some c.popa
  | .addEsp n, c => some (c.drop n)
  | .iret, c =>
      if (c.word 1).toUInt16 % 4 = 0 ∧ p.acceptsCode (c.word 1).toUInt16 then
        some ({ c with eip := c.word 0, cs := (c.word 1).toUInt16, eflags := c.word 2 }.drop 12)
      else none

/-- A list of instructions. -/
def runStub (p : Processor) (callee : Cpu → Cpu) (ret : UInt32) :
    List StubInstr → Cpu → Option Cpu
  | [], c => some c
  | i :: is, c => (i.exec p callee ret c).bind (runStub p callee ret is)

-- ---------------------------------------------------------------------------
-- The stubs
-- ---------------------------------------------------------------------------

/-- `isr_common_stub` and `irq_common_stub` up to the call, which differ in the name
they call. -/
def commonStubEntry : List StubInstr :=
  [.pusha, .pushSeg .ds, .pushSeg .es, .pushSeg .fs, .pushSeg .gs,
    .movAx 0x10, .movSegAx .ds, .movSegAx .es, .movSegAx .fs, .movSegAx .gs,
    .movEaxEsp, .pushEax]

/-- The common stubs after the call. -/
def commonStubExit : List StubInstr :=
  [.popEax, .popSeg .gs, .popSeg .fs, .popSeg .es, .popSeg .ds, .popa, .addEsp 8, .iret]

/-- `isr_noerror`, `irq_noerror`, before the jump. -/
def noerror (number : UInt32) : List StubInstr := [.cli, .pushl 0, .pushl number]

/-- `isr_error`, before the jump. -/
def isrError (number : UInt32) : List StubInstr := [.cli, .pushl number]

/-- The stubs that expect an error code. -/
def errorStubs : List Nat := [8, 10, 11, 12, 13, 14]

/-- What each of `isr0` to `isr31` and `irq0` to `irq15` has of its own. -/
def stubHead (n : Nat) : List StubInstr :=
  if n ∈ errorStubs then isrError (UInt32.ofNat n) else noerror (UInt32.ofNat n)

/-- The whole stub of interrupt `n`. -/
def stub (n : Nat) : List StubInstr := stubHead n ++ (commonStubEntry ++ (.call :: commonStubExit))

/-- What the processor does first when interrupt `n` arrives in ring 0: it saves the
flags, the code selector and the address, and the error code if the exception has
one. The gate leads to the segment of kernel code, with interrupts off. -/
def deliver (p : Processor) (n : Nat) (code : UInt32) (c : Cpu) : Cpu :=
  let saved := ((c.push c.eflags).pushSelector p c.cs).push c.eip
  let coded := if p.pushesError n then saved.push code else saved
  { coded with cs := 8, eflags := c.eflags &&& ~~~0x34300 }

/-- `struct regs`. -/
structure Regs where
  gs       : UInt32
  fs       : UInt32
  es       : UInt32
  ds       : UInt32
  edi      : UInt32
  esi      : UInt32
  ebp      : UInt32
  esp      : UInt32
  ebx      : UInt32
  edx      : UInt32
  ecx      : UInt32
  eax      : UInt32
  int_no   : UInt32
  err_code : UInt32
  eip      : UInt32
  cs       : UInt32
  eflags   : UInt32
  useresp  : UInt32
  ss       : UInt32
  deriving DecidableEq, Repr

/-- The structure at the address `r`. -/
def Regs.read (m : Mem) (r : Nat) : Regs :=
  let field (k : Nat) : UInt32 := UInt32.ofNat (m.load32 (r + 4 * k))
  ⟨field 0, field 1, field 2, field 3, field 4, field 5, field 6, field 7, field 8,
    field 9, field 10, field 11, field 12, field 13, field 14, field 15, field 16,
    field 17, field 18⟩

-- ---------------------------------------------------------------------------
-- What the C function finds, and what it has to keep
-- ---------------------------------------------------------------------------

/-- A program in ring 0 whose selectors the processor accepts, with room on the stack
for the frame. -/
structure Interruptible (p : Processor) (c : Cpu) : Prop where
  ring : c.cs % 4 = 0
  code : p.acceptsCode c.cs
  data : ∀ s, p.acceptsData (c.seg s)
  room : 100 ≤ c.esp.toNat

/-- The C function called for interrupt `n` in state `c` finds this state. -/
structure Finds (c : Cpu) (n : Nat) (code : UInt32) (called : Cpu) : Prop where
  /-- The argument is the address of the frame. -/
  argument : called.mem.load32 (called.esp.toNat + 4) = called.esp.toNat + 8
  registers : let r := Regs.read called.mem (called.esp.toNat + 8)
    r.edi = c.gen .edi ∧ r.esi = c.gen .esi ∧ r.ebp = c.gen .ebp ∧ r.ebx = c.gen .ebx ∧
      r.edx = c.gen .edx ∧ r.ecx = c.gen .ecx ∧ r.eax = c.gen .eax
  selectors : let r := Regs.read called.mem (called.esp.toNat + 8)
    r.gs.toUInt16 = c.seg .gs ∧ r.fs.toUInt16 = c.seg .fs ∧ r.es.toUInt16 = c.seg .es ∧
      r.ds.toUInt16 = c.seg .ds ∧ r.cs.toUInt16 = c.cs
  number : (Regs.read called.mem (called.esp.toNat + 8)).int_no = UInt32.ofNat n
  err_code : (Regs.read called.mem (called.esp.toNat + 8)).err_code = code
  eip : (Regs.read called.mem (called.esp.toNat + 8)).eip = c.eip
  eflags : (Regs.read called.mem (called.esp.toNat + 8)).eflags = c.eflags
  /-- In ring 0 the last two fields are words of the interrupted program. -/
  beyond : let r := Regs.read called.mem (called.esp.toNat + 8)
    r.useresp = c.word 0 ∧ r.ss = c.word 1
  /-- The segments of kernel data. -/
  segments : ∀ s, called.seg s = 0x10
  /-- Interrupts are off. -/
  off : called.eflags &&& 0x200 = 0
  /-- The stack of the interrupted program and all other memory are as they were. -/
  memory : SameOff c.mem called.mem called.esp.toNat (c.esp.toNat - called.esp.toNat)

/-- The C function returns: the stack pointer is back after the `ret`, and the 68 bytes of
the frame are as it found them. -/
def Returns (callee : Cpu → Cpu) (called : Cpu) : Prop :=
  (callee called).esp = called.esp + 4 ∧
    SameOn called.mem (callee called).mem (called.esp.toNat + 8) 68

-- ---------------------------------------------------------------------------
-- Words
-- ---------------------------------------------------------------------------

/-- The low half of a word that ends in a selector. -/
theorem toUInt16_of_low {w : Nat} {s : UInt16} (h : w % 65536 = s.toNat) :
    (UInt32.ofNat w).toUInt16 = s := by
  apply UInt16.toNat_inj.mp
  rw [UInt32.toNat_toUInt16, UInt32.toNat_ofNat', ← h]
  omega

/-- `mov ax, v`. -/
theorem toUInt16_movAx (a : UInt32) (v : UInt16) :
    ((a &&& 0xFFFF0000) ||| v.toUInt32).toUInt16 = v := by
  rw [UInt32.toUInt16_or, UInt32.toUInt16_and, UInt16.toUInt16_toUInt32,
    show (0xFFFF0000 : UInt32).toUInt16 = 0 from rfl, UInt16.and_zero, UInt16.zero_or]

namespace Cpu

variable {c : Cpu} {m₀ : Mem} {top : Nat} {ws : List Nat} {p : Processor}

@[simp] theorem push_gen (c : Cpu) (v : UInt32) : (c.push v).gen = c.gen := rfl
@[simp] theorem push_seg (c : Cpu) (v : UInt32) : (c.push v).seg = c.seg := rfl
@[simp] theorem push_eflags (c : Cpu) (v : UInt32) : (c.push v).eflags = c.eflags := rfl
@[simp] theorem pushSelector_gen (c : Cpu) (p : Processor) (s : UInt16) :
    (c.pushSelector p s).gen = c.gen := rfl
@[simp] theorem pushSelector_seg (c : Cpu) (p : Processor) (s : UInt16) :
    (c.pushSelector p s).seg = c.seg := rfl
@[simp] theorem pushSelector_eflags (c : Cpu) (p : Processor) (s : UInt16) :
    (c.pushSelector p s).eflags = c.eflags := rfl
@[simp] theorem pusha_seg (c : Cpu) : c.pusha.seg = c.seg := by simp [pusha]
@[simp] theorem pusha_eflags (c : Cpu) : c.pusha.eflags = c.eflags := by simp [pusha]
@[simp] theorem setGen_seg (c : Cpu) (r : GenReg) (v : UInt32) : (c.setGen r v).seg = c.seg := rfl
@[simp] theorem setGen_eflags (c : Cpu) (r : GenReg) (v : UInt32) :
    (c.setGen r v).eflags = c.eflags := rfl

theorem toNat_esp_push (v : UInt32) (h : 4 ≤ c.esp.toNat) :
    (c.push v).esp.toNat = c.esp.toNat - 4 := by
  show (c.esp - 4).toNat = _
  have hLe : (4 : UInt32) ≤ c.esp := by
    rw [UInt32.le_iff_toNat_le]
    exact h
  rw [UInt32.toNat_sub_of_le _ _ hLe]
  rfl

/-- **Step lemma.** A push. -/
theorem pushed_push (h : Pushed m₀ top c.mem c.esp.toNat ws) (v : UInt32)
    (hRoom : 4 * (ws.length + 1) ≤ top) :
    Pushed m₀ top (c.push v).mem (c.push v).esp.toNat (v.toNat :: ws) := by
  have hDepth := h.depth
  have hEsp := toNat_esp_push (c := c) v (by omega)
  rw [hEsp]
  show Pushed m₀ top (c.mem.store32 (c.push v).esp.toNat v.toNat) _ _
  rw [hEsp]
  exact h.push (by omega) v.toNat_lt

/-- **Step lemma.** The push of a selector: the upper half of the word is anything. -/
theorem pushed_pushSelector (h : Pushed m₀ top c.mem c.esp.toNat ws) (p : Processor) (s : UInt16)
    (hRoom : 4 * (ws.length + 1) ≤ top) :
    ∃ w, w % 65536 = s.toNat ∧
      Pushed m₀ top (c.pushSelector p s).mem (c.pushSelector p s).esp.toNat (w :: ws) := by
  refine ⟨_, ?_, pushed_push h _ hRoom⟩
  have hHalf := s.toNat_lt
  rw [UInt32.toNat_ofNat']
  omega

/-- **Step lemma.** The eight words of `pusha`. -/
theorem pushed_pusha (h : Pushed m₀ top c.mem c.esp.toNat ws)
    (hRoom : 4 * (ws.length + 8) ≤ top) :
    Pushed m₀ top c.pusha.mem c.pusha.esp.toNat
      ((c.gen .edi).toNat :: (c.gen .esi).toNat :: (c.gen .ebp).toNat :: c.esp.toNat ::
        (c.gen .ebx).toNat :: (c.gen .edx).toNat :: (c.gen .ecx).toNat ::
          (c.gen .eax).toNat :: ws) := by
  have h1 := pushed_push h (c.gen .eax) (by omega)
  have h2 := pushed_push h1 (c.gen .ecx) (by simp only [List.length_cons]; omega)
  have h3 := pushed_push h2 (c.gen .edx) (by simp only [List.length_cons]; omega)
  have h4 := pushed_push h3 (c.gen .ebx) (by simp only [List.length_cons]; omega)
  have h5 := pushed_push h4 c.esp (by simp only [List.length_cons]; omega)
  have h6 := pushed_push h5 (c.gen .ebp) (by simp only [List.length_cons]; omega)
  have h7 := pushed_push h6 (c.gen .esi) (by simp only [List.length_cons]; omega)
  exact pushed_push h7 (c.gen .edi) (by simp only [List.length_cons]; omega)

end Cpu

-- ---------------------------------------------------------------------------
-- The way in
-- ---------------------------------------------------------------------------

variable {p : Processor} {callee : Cpu → Cpu} {ret : UInt32} {c : Cpu}

theorem runStub_append (is js : List StubInstr) (c : Cpu) :
    runStub p callee ret (is ++ js) c =
      (runStub p callee ret is c).bind (runStub p callee ret js) := by
  induction is generalizing c with
  | nil => rfl
  | cons i is ih =>
    rw [List.cons_append, runStub, runStub, Option.bind_assoc]
    congr 1
    funext c'
    exact ih c'

/-- The state in which the common stub begins. -/
structure Numbered (c : Cpu) (n : Nat) (code : UInt32) (c₁ : Cpu) : Prop where
  gen : c₁.gen = c.gen
  seg : c₁.seg = c.seg
  off : c₁.eflags &&& 0x200 = 0
  pushed : ∃ cs, cs % 65536 = c.cs.toNat ∧ Pushed c.mem c.esp.toNat c₁.mem c₁.esp.toNat
    [(UInt32.ofNat n).toNat, code.toNat, c.eip.toNat, cs, c.eflags.toNat]

theorem and_cli (f : UInt32) : (f &&& ~~~0x200) &&& 0x200 = 0 := by
  rw [UInt32.and_assoc, show (~~~0x200 : UInt32) &&& 0x200 = 0 from rfl, UInt32.and_zero]

variable (ret) in
/-- **The head of a stub.** The two sides agree about the error code. -/
theorem stubHead_numbered (n : Nat) (code : UInt32) (hRoom : 100 ≤ c.esp.toNat)
    (hAgree : p.pushesError n = true ↔ n ∈ errorStubs) :
    ∃ c₁, (∀ callee, runStub p callee ret (stubHead n) (deliver p n code c) = some c₁) ∧
      Numbered c n (if p.pushesError n then code else 0) c₁ := by
  have h1 := Cpu.pushed_push (Pushed.start c.mem c.esp.toNat) c.eflags (by simp; omega)
  obtain ⟨cs, hCs, h2⟩ := Cpu.pushed_pushSelector h1 p c.cs (by simp; omega)
  have h3 := Cpu.pushed_push h2 c.eip (by simp; omega)
  unfold stubHead deliver
  by_cases hError : n ∈ errorStubs
  · simp only [if_pos hError, if_pos (hAgree.mpr hError)]
    have h4 := Cpu.pushed_push h3 code (by simp; omega)
    exact ⟨_, fun _ => rfl, rfl, rfl, and_cli _, cs, hCs,
      Cpu.pushed_push h4 (UInt32.ofNat n) (by simp; omega)⟩
  · simp only [if_neg hError, if_neg (mt hAgree.mp hError)]
    have h4 := Cpu.pushed_push h3 0 (by simp; omega)
    exact ⟨_, fun _ => rfl, rfl, rfl, and_cli _, cs, hCs,
      Cpu.pushed_push h4 (UInt32.ofNat n) (by simp; omega)⟩

/-- The words of the frame, from `gs` up. -/
structure FrameWords (c : Cpu) (n : Nat) (code : UInt32) (ws : List Nat) : Prop where
  words : ∃ gs fs es ds cs esp,
    gs % 65536 = (c.seg .gs).toNat ∧ fs % 65536 = (c.seg .fs).toNat ∧
    es % 65536 = (c.seg .es).toNat ∧ ds % 65536 = (c.seg .ds).toNat ∧
    cs % 65536 = c.cs.toNat ∧
    ws = [gs, fs, es, ds, (c.gen .edi).toNat, (c.gen .esi).toNat, (c.gen .ebp).toNat, esp,
      (c.gen .ebx).toNat, (c.gen .edx).toNat, (c.gen .ecx).toNat, (c.gen .eax).toNat,
      (UInt32.ofNat n).toNat, code.toNat, c.eip.toNat, cs, c.eflags.toNat]

theorem FrameWords.length {n : Nat} {code : UInt32} {ws : List Nat} (h : FrameWords c n code ws) :
    ws.length = 17 := by
  obtain ⟨gs, fs, es, ds, cs, esp, -, -, -, -, -, rfl⟩ := h.words
  rfl

/-- The moves of the selector of kernel data. -/
theorem runStub_segments (hKernel : p.acceptsData 0x10) (c : Cpu) :
    runStub p callee ret
      [.movAx 0x10, .movSegAx .ds, .movSegAx .es, .movSegAx .fs, .movSegAx .gs] c =
      some { c with
        gen := Function.update c.gen .eax ((c.gen .eax &&& 0xFFFF0000) ||| (0x10 : UInt16).toUInt32)
        seg := fun _ => 0x10 } := by
  simp only [runStub, StubInstr.exec, Cpu.loadSeg, Cpu.setGen, Function.update_self, toUInt16_movAx,
    hKernel, if_true, Option.bind_some]
  congr 2
  funext s
  cases s <;> simp [Function.update]

variable (ret) in
/-- The pushes that make the rest of the frame. -/
theorem runStub_frame {n : Nat} {code : UInt32} {c₁ : Cpu} (hNum : Numbered c n code c₁)
    (hRoom : 100 ≤ c.esp.toNat) :
    ∃ c₅ ws,
      (∀ callee, runStub p callee ret
        [.pusha, .pushSeg .ds, .pushSeg .es, .pushSeg .fs, .pushSeg .gs] c₁ = some c₅) ∧
      FrameWords c n code ws ∧ Pushed c.mem c.esp.toNat c₅.mem c₅.esp.toNat ws ∧
      c₅.eflags = c₁.eflags := by
  obtain ⟨cs, hCs, h0⟩ := hNum.pushed
  have h1 := Cpu.pushed_pusha h0 (by simp; omega)
  obtain ⟨ds, hDs, h2⟩ := Cpu.pushed_pushSelector h1 p (c₁.pusha.seg .ds) (by simp; omega)
  obtain ⟨es, hEs, h3⟩ := Cpu.pushed_pushSelector h2 p (c₁.pusha.seg .es) (by simp; omega)
  obtain ⟨fs, hFs, h4⟩ := Cpu.pushed_pushSelector h3 p (c₁.pusha.seg .fs) (by simp; omega)
  obtain ⟨gs, hGs, h5⟩ := Cpu.pushed_pushSelector h4 p (c₁.pusha.seg .gs) (by simp; omega)
  refine ⟨_, _, fun _ => rfl, ⟨gs, fs, es, ds, cs, c₁.esp.toNat, ?_, ?_, ?_, ?_, hCs, ?_⟩,
    h5, by simp⟩
  · rw [hGs, Cpu.pusha_seg, hNum.seg]
  · rw [hFs, Cpu.pusha_seg, hNum.seg]
  · rw [hEs, Cpu.pusha_seg, hNum.seg]
  · rw [hDs, Cpu.pusha_seg, hNum.seg]
  · rw [← hNum.gen]

variable (ret) in
/-- **The common stub** up to the call. -/
theorem commonStubEntry_frame {n : Nat} {code : UInt32} {c₁ : Cpu} (hNum : Numbered c n code c₁)
    (hRoom : 100 ≤ c.esp.toNat) (hKernel : p.acceptsData 0x10) :
    ∃ c₂ ws, (∀ callee, runStub p callee ret commonStubEntry c₁ = some c₂) ∧
      FrameWords c n code ws ∧
      Pushed c.mem c.esp.toNat (c₂.push ret).mem (c₂.push ret).esp.toNat
        (ret.toNat :: ((c₂.push ret).esp.toNat + 8) :: ws) ∧
      (∀ s, c₂.seg s = 0x10) ∧ c₂.eflags &&& 0x200 = 0 := by
  obtain ⟨c₅, ws, hFrame, hWords, hPushed, hFlags⟩ :=
    runStub_frame (p := p) ret hNum hRoom
  have hLength := hWords.length
  have hDepth := hPushed.depth
  -- the frame is complete: its address is the argument
  let c₆ : Cpu := { c₅ with
    gen :=
    Function.update c₅.gen .eax ((c₅.gen .eax &&& 0xFFFF0000) ||| (0x10 : UInt16).toUInt32)
    seg := fun _ => 0x10 }
  have hLast : ∀ callee, runStub p callee ret [.movEaxEsp, .pushEax] c₆ =
      some ((c₆.setGen .eax c₅.esp).push c₅.esp) := by
    intro callee
    simp only [runStub, StubInstr.exec, Option.bind_some]
    rfl
  have hArgument := Cpu.pushed_push (c := c₆.setGen .eax c₅.esp) hPushed c₅.esp (by omega)
  have hCall := Cpu.pushed_push hArgument ret (by simp; omega)
  have hBelow := hCall.depth
  refine ⟨(c₆.setGen .eax c₅.esp).push c₅.esp, ws, fun callee => ?_, hWords, ?_,
    fun s => rfl, ?_⟩
  · rw [show commonStubEntry = [.pusha, .pushSeg .ds, .pushSeg .es, .pushSeg .fs, .pushSeg .gs] ++
      ([.movAx 0x10, .movSegAx .ds, .movSegAx .es, .movSegAx .fs, .movSegAx .gs] ++
      [.movEaxEsp, .pushEax])
      from rfl, runStub_append, hFrame, Option.bind_some, runStub_append, runStub_segments hKernel,
      Option.bind_some, hLast]
  · rw [List.length_cons, List.length_cons] at hBelow
    rw [show (((c₆.setGen .eax c₅.esp).push c₅.esp).push ret).esp.toNat + 8 =
      c₅.esp.toNat by omega]
    exact hCall
  · show c₅.eflags &&& 0x200 = 0
    rw [hFlags]
    exact hNum.off

-- ---------------------------------------------------------------------------
-- The way out
-- ---------------------------------------------------------------------------

theorem exec_iret (c : Cpu) : StubInstr.iret.exec p callee ret c =
    if (c.word 1).toUInt16 % 4 = 0 ∧ p.acceptsCode (c.word 1).toUInt16 then
      some ({ c with eip := c.word 0, cs := (c.word 1).toUInt16, eflags := c.word 2 }.drop 12)
    else none := rfl

section Pop

variable {w : Nat} {ws : List Nat} {s : UInt16}

theorem word_of_stacked (h : Stacked c.mem c.esp.toNat ws) {k : Nat} {v : UInt32}
    (hk : ws[k]? = some v.toNat) : c.word k = v := by
  unfold Cpu.word
  rw [h.word hk, UInt32.ofNat_toNat]

/-- **Step lemma.** The words that remain. -/
theorem stacked_drop (h : Stacked c.mem c.esp.toNat (w :: ws)) (hTop : c.esp.toNat + 4 < 2 ^ 32) :
    Stacked (c.drop 4).mem (c.drop 4).esp.toNat ws ∧ (c.drop 4).esp.toNat = c.esp.toNat + 4 := by
  have hEsp : (c.drop 4).esp.toNat = c.esp.toNat + 4 := by
    show (c.esp + 4).toNat = _
    rw [UInt32.toNat_add, show (4 : UInt32).toNat = 4 from rfl, Nat.mod_eq_of_lt hTop]
  refine ⟨?_, hEsp⟩
  rw [hEsp]
  exact h.2

variable (callee ret) in
/-- **Step lemma.** A selector comes back, and the words above it remain. -/
theorem exec_popSeg (r : SegReg) (h : Stacked c.mem c.esp.toNat (w :: ws))
    (hLow : w % 65536 = s.toNat) (hAccepts : p.acceptsData s) (hTop : c.esp.toNat + 4 < 2 ^ 32) :
    ∃ c', (StubInstr.popSeg r).exec p callee ret c = some c' ∧ c'.gen = c.gen ∧
      c'.seg = Function.update c.seg r s ∧ c'.mem = c.mem ∧ c'.esp.toNat = c.esp.toNat + 4 ∧
      Stacked c'.mem c'.esp.toNat ws := by
  have hWord : (c.word 0).toUInt16 = s := by
    unfold Cpu.word
    rw [h.word (k := 0) rfl, toUInt16_of_low hLow]
  obtain ⟨hRest, hEsp⟩ := stacked_drop h hTop
  refine ⟨({ c with seg := Function.update c.seg r s } : Cpu).drop 4, ?_, rfl, rfl, rfl,
    hEsp, hRest⟩
  show (c.loadSeg p r (c.word 0).toUInt16).map (fun c => c.drop 4) = _
  rw [Cpu.loadSeg, hWord, if_pos hAccepts]
  rfl

end Pop

variable (callee ret) in
/-- The pops of the selectors. -/
theorem runStub_selectors {c₃ : Cpu} {r gs fs es ds : Nat} {ws : List Nat}
    (hStack : Stacked c₃.mem c₃.esp.toNat (r :: gs :: fs :: es :: ds :: ws))
    (hGs : gs % 65536 = (c.seg .gs).toNat) (hFs : fs % 65536 = (c.seg .fs).toNat)
    (hEs : es % 65536 = (c.seg .es).toNat) (hDs : ds % 65536 = (c.seg .ds).toNat)
    (hData : ∀ s, p.acceptsData (c.seg s)) (hTop : c₃.esp.toNat + 20 < 2 ^ 32) :
    ∃ c₄, runStub p callee ret
      [.popEax, .popSeg .gs, .popSeg .fs, .popSeg .es, .popSeg .ds] c₃ = some c₄ ∧
      c₄.seg = c.seg ∧ c₄.mem = c₃.mem ∧ c₄.esp.toNat = c₃.esp.toNat + 20 ∧
      Stacked c₄.mem c₄.esp.toNat ws := by
  obtain ⟨hStack₀, hEsp₀⟩ := stacked_drop (c := c₃.setGen .eax (c₃.word 0)) hStack
    (show c₃.esp.toNat + 4 < 2 ^ 32 by omega)
  have hEsp₀ : ((c₃.setGen .eax (c₃.word 0)).drop 4).esp.toNat = c₃.esp.toNat + 4 := hEsp₀
  obtain ⟨c₁, h₁, -, hSeg₁, hMem₁, hEsp₁, hStack₁⟩ :=
    exec_popSeg (p := p) callee ret .gs hStack₀ hGs (hData .gs) (by omega)
  obtain ⟨c₂, h₂, -, hSeg₂, hMem₂, hEsp₂, hStack₂⟩ :=
    exec_popSeg (p := p) callee ret .fs hStack₁ hFs (hData .fs) (by omega)
  obtain ⟨c₅, h₅, -, hSeg₅, hMem₅, hEsp₅, hStack₅⟩ :=
    exec_popSeg (p := p) callee ret .es hStack₂ hEs (hData .es) (by omega)
  obtain ⟨c₄, h₄, -, hSeg₄, hMem₄, hEsp₄, hStack₄⟩ :=
    exec_popSeg (p := p) callee ret .ds hStack₅ hDs (hData .ds) (by omega)
  refine ⟨c₄, ?_, ?_, ?_, by omega, hStack₄⟩
  · simp only [runStub]
    rw [show StubInstr.popEax.exec p callee ret c₃ =
      some ((c₃.setGen .eax (c₃.word 0)).drop 4) from rfl, Option.bind_some, h₁,
      Option.bind_some, h₂, Option.bind_some, h₅, Option.bind_some, h₄,
      Option.bind_some]
  · rw [hSeg₄, hSeg₅, hSeg₂, hSeg₁]
    funext s
    cases s <;> simp [Function.update]
  · rw [hMem₄, hMem₅, hMem₂, hMem₁]
    rfl

/-- **The common stub** after the call: the registers of the interrupted program come back. -/
theorem commonStubExit_restores {n : Nat} {code : UInt32} {ws : List Nat} {c₃ : Cpu} {r : Nat}
    (hWords : FrameWords c n code ws) (hStack : Stacked c₃.mem c₃.esp.toNat (r :: ws))
    (hEsp : c₃.esp.toNat + 72 = c.esp.toNat) (hReady : Interruptible p c) :
    runStub p callee ret commonStubExit c₃ = some { c with mem := c₃.mem } := by
  obtain ⟨gs, fs, es, ds, cs, esp, hGs, hFs, hEs, hDs, hCs, rfl⟩ := hWords.words
  have hTop := c.esp.toNat_lt
  obtain ⟨c₄, hSelectors, hSeg, hMem, hEsp₄, hStack₄⟩ :=
    runStub_selectors (p := p) callee ret
    hStack hGs hFs hEs hDs hReady.data (by omega)
  -- the words that are left: those of `pusha`, the two of the stub and the three of the processor
  have hGen : c₄.popa.gen = c.gen := by
    funext r
    cases r with
    | eax => exact word_of_stacked hStack₄ (k := 7) rfl
    | ecx => exact word_of_stacked hStack₄ (k := 6) rfl
    | edx => exact word_of_stacked hStack₄ (k := 5) rfl
    | ebx => exact word_of_stacked hStack₄ (k := 4) rfl
    | ebp => exact word_of_stacked hStack₄ (k := 2) rfl
    | esi => exact word_of_stacked hStack₄ (k := 1) rfl
    | edi => exact word_of_stacked hStack₄ (k := 0) rfl
  have hEsp₆ : (c₄.popa.drop 8).esp.toNat = c₄.esp.toNat + 40 := by
    show (c₄.esp + 32 + 8).toNat = _
    rw [UInt32.toNat_add, UInt32.toNat_add, show (32 : UInt32).toNat = 32 from rfl,
      show (8 : UInt32).toNat = 8 from rfl]
    omega
  have hWord : ∀ k, (c₄.popa.drop 8).word k = c₄.word (10 + k) := by
    intro k
    unfold Cpu.word
    rw [hEsp₆]
    show UInt32.ofNat (c₄.mem.load32 (c₄.esp.toNat + 40 + 4 * k)) = _
    rw [show c₄.esp.toNat + 40 + 4 * k = c₄.esp.toNat + 4 * (10 + k) by omega]
  have hEip : (c₄.popa.drop 8).word 0 = c.eip := by
    rw [hWord]
    exact word_of_stacked hStack₄ rfl
  have hFlags : (c₄.popa.drop 8).word 2 = c.eflags := by
    rw [hWord]
    exact word_of_stacked hStack₄ rfl
  have hSelector : ((c₄.popa.drop 8).word 1).toUInt16 = c.cs := by
    rw [hWord]
    unfold Cpu.word
    rw [hStack₄.word (k := 11) rfl, toUInt16_of_low hCs]
  have hDropped : (c₄.popa.drop 8).esp + 12 = c.esp := by
    apply UInt32.toNat_inj.mp
    rw [UInt32.toNat_add, hEsp₆, show (12 : UInt32).toNat = 12 from rfl]
    omega
  have hIret : StubInstr.iret.exec p callee ret (c₄.popa.drop 8) =
      some { c with mem := c₃.mem } := by
    rw [exec_iret, hSelector, if_pos ⟨hReady.ring, hReady.code⟩, hEip, hFlags]
    unfold Cpu.drop at hDropped ⊢
    simp only at hDropped ⊢
    rw [hDropped, hGen, show c₄.popa.seg = c₄.seg from rfl, hSeg,
      show c₄.popa.mem = c₄.mem from rfl, hMem]
  rw [show commonStubExit = [.popEax, .popSeg .gs, .popSeg .fs, .popSeg .es, .popSeg .ds] ++
    [.popa, .addEsp 8, .iret] from rfl, runStub_append, hSelectors, Option.bind_some]
  show (StubInstr.iret.exec p callee ret (c₄.popa.drop 8)).bind (runStub p callee ret []) = _
  rw [hIret]
  rfl

-- ---------------------------------------------------------------------------
-- The whole stub
-- ---------------------------------------------------------------------------

/-- What the C function finds, from the words on the stack. -/
theorem finds_of_frame {n : Nat} {code : UInt32} {ws : List Nat} {called : Cpu}
    (hWords : FrameWords c n code ws)
    (hPushed : Pushed c.mem c.esp.toNat called.mem called.esp.toNat
      (ret.toNat :: (called.esp.toNat + 8) :: ws))
    (hSegments : ∀ s, called.seg s = 0x10) (hOff : called.eflags &&& 0x200 = 0) :
    Finds c n code called := by
  obtain ⟨gs, fs, es, ds, cs, esp, hGs, hFs, hEs, hDs, hCs, rfl⟩ := hWords.words
  have hDepth : called.esp.toNat + 4 * 19 = c.esp.toNat := hPushed.depth
  have hFrame : SameOff c.mem called.mem called.esp.toNat (4 * 19) := hPushed.frame
  -- the two words after the frame belong to the interrupted program
  have hBeyond : ∀ k, called.mem.load32 (called.esp.toNat + 8 + 4 * (17 + k)) =
      c.mem.load32 (c.esp.toNat + 4 * k) := by
    intro k
    rw [show called.esp.toNat + 8 + 4 * (17 + k) = c.esp.toNat + 4 * k by omega]
    exact (hFrame.sameOn (by omega)).load32
  obtain ⟨-, hArgument, hFields⟩ := hPushed.words
  have hField : ∀ {k : Nat} {v : UInt32}, _ = some v.toNat →
      UInt32.ofNat (called.mem.load32 (called.esp.toNat + 8 + 4 * k)) = v := fun {k v} hk => by
    rw [hFields.word (k := k) hk, UInt32.ofNat_toNat]
  have hSelector : ∀ {k w : Nat} {s : UInt16}, _ = some w → w % 65536 = s.toNat →
      (UInt32.ofNat (called.mem.load32 (called.esp.toNat + 8 + 4 * k))).toUInt16 = s :=
    fun {k w s} hk hLow => by rw [hFields.word (k := k) hk, toUInt16_of_low hLow]
  exact
    { argument := hArgument
      registers :=
      ⟨hField (k := 4) rfl, hField (k := 5) rfl, hField (k := 6) rfl, hField (k := 8) rfl,
        hField (k := 9) rfl, hField (k := 10) rfl, hField (k := 11) rfl⟩
      selectors :=
        ⟨hSelector (k := 0) rfl hGs, hSelector (k := 1) rfl hFs, hSelector (k := 2) rfl hEs,
        hSelector (k := 3) rfl hDs, hSelector (k := 15) rfl hCs⟩
      number := hField (k := 12) rfl
      err_code := hField (k := 13) rfl
      eip := hField (k := 14) rfl
      eflags := hField (k := 16) rfl
      beyond := ⟨congrArg UInt32.ofNat (hBeyond 0), congrArg UInt32.ofNat (hBeyond 1)⟩
      segments := hSegments
      off := hOff
      memory := by rwa [show c.esp.toNat - called.esp.toNat = 4 * 19 by omega] }

/-- An interrupt that the program does not notice: the C function finds the registers of
the program, and once it has returned the program goes on where it was, with all its
registers, over the memory that the C function leaves. -/
def Transparent (p : Processor) (ret : UInt32) (n : Nat) : Prop :=
  ∀ (c : Cpu) (code : UInt32), Interruptible p c →
    ∃ called, Finds c n (if p.pushesError n then code else 0) called ∧
      ∀ callee, Returns callee called →
        runStub p callee ret (stub n) (deliver p n code c) =
        some { c with mem := (callee called).mem }

/-- The stub fits the processor. -/
theorem transparent_of_agree (ret : UInt32) {n : Nat} (hKernel : p.acceptsData 0x10)
    (hAgree : p.pushesError n = true ↔ n ∈ errorStubs) : Transparent p ret n := by
  intro c code hReady
  obtain ⟨c₁, hHead, hNum⟩ := stubHead_numbered (p := p) ret n code hReady.room hAgree
  obtain ⟨c₂, ws, hEntry, hWords, hPushed, hSegments, hOff⟩ :=
    commonStubEntry_frame (p := p) ret hNum hReady.room hKernel
  refine ⟨c₂.push ret, finds_of_frame hWords hPushed hSegments hOff, ?_⟩
  intro callee ⟨hEsp, hKept⟩
  -- the words on the stack after the return: the argument and the frame
  have hLength := hWords.length
  have hDepth := hPushed.depth
  rw [List.length_cons, List.length_cons] at hDepth
  have hTop := c.esp.toNat_lt
  have hBack : (callee (c₂.push ret)).esp.toNat = (c₂.push ret).esp.toNat + 4 := by
    rw [hEsp, UInt32.toNat_add, show (4 : UInt32).toNat = 4 from rfl]
    omega
  have hStack : Stacked (callee (c₂.push ret)).mem (callee (c₂.push ret)).esp.toNat
      ((callee (c₂.push ret)).mem.load32 ((c₂.push ret).esp.toNat + 4) :: ws) := by
    rw [hBack]
    exact ⟨rfl, hPushed.words.2.2.kept (hKept.sub (Nat.le_refl _) (by omega))⟩
  rw [stub, runStub_append, hHead callee, Option.bind_some, runStub_append, hEntry callee,
    Option.bind_some]
  exact commonStubExit_restores hWords hStack (by omega) hReady

-- ---------------------------------------------------------------------------
-- The stack pointer
-- ---------------------------------------------------------------------------

/-- By how much an instruction moves the stack pointer, with a C function that returns. -/
def StubInstr.delta : StubInstr → UInt32
  | .pushl _ | .pushSeg _ | .pushEax => -4
  | .pusha => -32
  | .popEax | .popSeg _ => 4
  | .popa => 32
  | .addEsp n => n
  | .iret => 12
  | .cli | .movAx _ | .movSegAx _ | .movEaxEsp | .call => 0

/-- **Step lemma.** -/
theorem exec_esp (hReturns : ∀ c, (callee c).esp = c.esp + 4) {i : StubInstr} {c c' : Cpu}
    (h : i.exec p callee ret c = some c') : c'.esp = c.esp + i.delta := by
  have hPush : ∀ x : UInt32, x - 4 = x + -4 := fun x => UInt32.sub_eq_add_neg x 4
  have hLoad : ∀ {c c' : Cpu} {s : SegReg} {v : UInt16},
      c.loadSeg p s v = some c' → c'.esp = c.esp := by
    intro c c' s v hLoaded
    unfold Cpu.loadSeg at hLoaded
    split at hLoaded
    · obtain rfl := Option.some.inj hLoaded
      rfl
    · cases hLoaded
  cases i with
  | cli | movAx | movEaxEsp =>
    obtain rfl := Option.some.inj h
    exact (UInt32.add_zero c.esp).symm
  | pushl v | pushSeg s | pushEax =>
    obtain rfl := Option.some.inj h
    exact hPush c.esp
  | pusha =>
    obtain rfl := Option.some.inj h
    show c.esp - 4 - 4 - 4 - 4 - 4 - 4 - 4 - 4 = c.esp + -32
    simp only [hPush, UInt32.add_assoc]
    rfl
  | movSegAx s => exact (hLoad h).trans (UInt32.add_zero c.esp).symm
  | call =>
    obtain rfl := Option.some.inj h
    rw [hReturns]
    show c.esp - 4 + 4 = c.esp + 0
    rw [UInt32.sub_add_cancel, UInt32.add_zero]
  | popSeg s =>
    obtain ⟨c₁, hLoaded, rfl⟩ := Option.map_eq_some_iff.mp h
    show c₁.esp + 4 = c.esp + 4
    rw [hLoad hLoaded]
  | popEax | popa | addEsp =>
    obtain rfl := Option.some.inj h
    rfl
  | iret =>
    rw [exec_iret] at h
    split at h
    · obtain rfl := Option.some.inj h
      rfl
    · cases h

/-- **Run lemma.** -/
theorem runStub_esp (hReturns : ∀ c, (callee c).esp = c.esp + 4) {is : List StubInstr}
    {c c' : Cpu} (h : runStub p callee ret is c = some c') :
    c'.esp = c.esp + (is.map StubInstr.delta).foldr (· + ·) 0 := by
  induction is generalizing c with
  | nil =>
    obtain rfl := Option.some.inj h
    simp
  | cons i is ih =>
    obtain ⟨c₁, hFirst, hRest⟩ := Option.bind_eq_some_iff.mp h
    rw [ih hRest, exec_esp hReturns hFirst, List.map_cons, List.foldr_cons, UInt32.add_assoc]

/-- The stack pointer when the stub is done. -/
theorem stub_esp (hReturns : ∀ c, (callee c).esp = c.esp + 4) {n : Nat} {code : UInt32}
    {c c' : Cpu} (h : runStub p callee ret (stub n) (deliver p n code c) = some c') :
    c'.esp = c.esp +
      ((if p.pushesError n then -16 else -12) + if n ∈ errorStubs then 16 else 12) := by
  have hDeliver : (deliver p n code c).esp = c.esp + if p.pushesError n then -16 else -12 := by
    have hPush : ∀ x : UInt32, x - 4 = x + -4 := fun x => UInt32.sub_eq_add_neg x 4
    unfold deliver
    by_cases hPushes : p.pushesError n = true
    · rw [if_pos hPushes]
      simp only [if_pos hPushes]
      show c.esp - 4 - 4 - 4 - 4 = c.esp + -16
      simp only [hPush, UInt32.add_assoc]
      rfl
    · rw [if_neg hPushes]
      simp only [if_neg hPushes]
      show c.esp - 4 - 4 - 4 = c.esp + -12
      simp only [hPush, UInt32.add_assoc]
      rfl
  have hStub : ((stub n).map StubInstr.delta).foldr (· + ·) 0 =
      if n ∈ errorStubs then 16 else 12 := by
    unfold stub stubHead
    by_cases hError : n ∈ errorStubs
    · rw [if_pos hError, if_pos hError]
      simp only [isrError, commonStubEntry, commonStubExit, List.cons_append,
        List.nil_append, List.map, StubInstr.delta, List.foldr_cons, List.foldr_nil]
      rfl
    · rw [if_neg hError, if_neg hError]
      simp only [noerror, commonStubEntry, commonStubExit, List.cons_append,
        List.nil_append, List.map, StubInstr.delta, List.foldr_cons, List.foldr_nil]
      rfl
  rw [runStub_esp hReturns h, hDeliver, hStub, UInt32.add_assoc]

/-- A program in ring 0 with the selectors of the kernel. -/
def kernelProgram : Cpu where
  gen := fun _ => 0
  seg := fun _ => 0x10
  cs := 8
  esp := 0x100000
  eip := 0
  eflags := 0x202
  mem := fun _ => 0

/-- A stub that does not fit the processor moves the stack pointer. -/
theorem agree_of_transparent (ret : UInt32) {n : Nat} (hData : p.acceptsData 0x10)
    (hCode : p.acceptsCode 8) (h : Transparent p ret n) :
    p.pushesError n = true ↔ n ∈ errorStubs := by
  -- the least that a C function can do
  let callee : Cpu → Cpu := fun c => { c with esp := c.esp + 4 }
  obtain ⟨called, -, hRun⟩ := h kernelProgram 0 ⟨rfl, hCode, fun _ => hData, by decide⟩
  have hEsp := stub_esp (fun _ => rfl) (hRun callee ⟨rfl, SameOn.refl _ _ _⟩)
  by_cases hPushes : p.pushesError n = true
  · by_cases hError : n ∈ errorStubs
    · exact ⟨fun _ => hError, fun _ => hPushes⟩
    · rw [if_pos hPushes, if_neg hError] at hEsp
      have hMoved : (0x100000 : UInt32) = 0x100000 + (-16 + 12) := hEsp
      exact absurd hMoved (by decide)
  · by_cases hError : n ∈ errorStubs
    · rw [if_neg hPushes, if_pos hError] at hEsp
      have hMoved : (0x100000 : UInt32) = 0x100000 + (-12 + 16) := hEsp
      exact absurd hMoved (by decide)
    · exact ⟨fun hp => absurd hp hPushes, fun he => absurd he hError⟩

/-- The processor with the table that `gdt_install` makes, in a memory `m'` that still
holds it, perhaps with segments marked as accessed. A null selector may always be loaded
for data. -/
def DescriptorLayout.processor (t : DescriptorLayout) (m m' : Mem) (pushesError : Nat → Bool)
    (zeroExtends : Bool) : Processor where
  pushesError := pushesError
  zeroExtends := zeroExtends
  acceptsData := fun s => s.toNat / 4 = 0 ||
    ((TableRegister.load (t.gdtInstall m) t.gp).loadData m' s.toNat).isSome
  acceptsCode := fun s => ((TableRegister.load (t.gdtInstall m) t.gp).loadCode m' s.toNat).isSome

/-- **Transparent interrupts.** Under the table of `gdt_install`, and for each of the 48
stubs: the interrupt leaves every program of ring 0 as it was, whatever the C function
does outside of its frame, if and only if the stub expects an error code just when the
processor pushes one. -/
theorem interrupt_transparent_iff (t : DescriptorLayout) (m m' : Mem)
    (hKept : t.KeepsSegments (t.gdtInstall m) m') (pushesError : Nat → Bool) (zeroExtends : Bool)
    (ret : UInt32) (n : Nat) :
    Transparent (t.processor m m' pushesError zeroExtends) ret n ↔
      (pushesError n = true ↔ n ∈ errorStubs) := by
  have hData : (t.processor m m' pushesError zeroExtends).acceptsData 0x10 := by
    have hLoad := (t.segments_installed hKept 16).2.2
    simp only [DescriptorLayout.processor]
    rw [t.load_gdtInstall m, show (0x10 : UInt16).toNat = 16 from rfl, hLoad]
    rfl
  have hCode : (t.processor m m' pushesError zeroExtends).acceptsCode 8 := by
    have hLoad := (t.segments_installed hKept 8).1
    simp only [DescriptorLayout.processor]
    rw [t.load_gdtInstall m, show (8 : UInt16).toNat = 8 from rfl, hLoad]
    rfl
  exact ⟨agree_of_transparent ret hData hCode, transparent_of_agree ret hData⟩

/-- The timer, after the flush and on a processor that knows the exceptions of the i486: its
stub fits. The one for alignment checks does not. -/
theorem interrupt_transparent_timer :
    let t := DescriptorLayout.sample
    let p := t.processor (fun _ => 0) (t.gdtFlush (t.gdtInstall fun _ => 0))
      (fun n => n ∈ [8, 10, 11, 12, 13, 14, 17]) false
    Transparent p 0 32 ∧ ¬ Transparent p 0 17 := by
  have hKept := DescriptorLayout.sample.keepsSegments_gdtFlush fun _ => 0
  exact ⟨(interrupt_transparent_iff _ _ _ hKept _ _ _ 32).mpr (by decide), fun h =>
    absurd ((interrupt_transparent_iff _ _ _ hKept _ _ _ 17).mp h) (by decide)⟩

end Hexos
