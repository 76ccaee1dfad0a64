import Hexos.Arch.Entry
import Hexos.Lib.Transition
import Hexos.Mem.Definitions
import Hexos.Process.Fairness

/-!
# HexOS — the context switch

The assembly of `process_switch`: the old process leaves its registers on its kernel
stack and the stack pointer in its `struct process`, and the new one takes its own from
there. One processor then does for any number of processes: whatever the others do, a
process finds its registers and its stack as it left them.

## Results

* `Cpu.popRegisters_pushRegisters` — the registers saved and loaded again.
* `TaskTurn.keeps` — one event, and the contexts of the processes.
* `context_switch_transparent` — any run.
-/

namespace Hexos

open Mem Dialogue

-- ---------------------------------------------------------------------------
-- The switch
-- ---------------------------------------------------------------------------

/-- The pushes of `process_switch`. -/
def Cpu.pushRegisters (c : Cpu) : Cpu :=
  ((((((c.push (c.gen .ebp)).push (c.gen .edi)).push (c.gen .esi)).push (c.gen .edx)).push
    (c.gen .ecx)).push (c.gen .ebx)).push (c.gen .eax)

/-- Its pops. -/
def Cpu.popRegisters (c : Cpu) : Cpu :=
  { c with
    gen := fun
      | .eax => c.word 0
      | .ebx => c.word 1
      | .ecx => c.word 2
      | .edx => c.word 3
      | .esi => c.word 4
      | .edi => c.word 5
      | .ebp => c.word 6
    esp := c.esp + 28 }

/-- The fields of a `struct process` that stay as they are. -/
structure TaskFields (P : Type) where
  pagetable : P → UInt32
  kstack    : P → UInt32
  kstackTop : P → UInt32

/-- The address behind the kernel stack, which is one page. -/
def TaskFields.stackEnd {P : Type} (f : TaskFields P) (p : P) : Nat := (f.kstack p).toNat + pageSize

/-- The scheduler, the processor, `interrupt_stack_pointer`, and the fields `stack_ptr` of
all processes. -/
structure Tasks (P Q : Type) where
  sched                 : Sched P Q
  cpu                   : Cpu
  cr3                   : UInt32
  interruptStackPointer : UInt32
  stackPtr              : P → UInt32

/-- `INTERRUPT_STACK_TOP`. -/
def interruptStackTop : UInt32 := 0xFFF0

namespace Tasks

variable {P Q : Type} [DecidableEq P] [DecidableEq Q]

omit [DecidableEq Q] in
/-- What `process_switch` does for the old process, besides the scheduling. -/
def switchFrom (t : Tasks P Q) : Tasks P Q :=
  match t.sched.current with
  | none => t
  | some p =>
    let t :=
      if t.sched.state p ≠ .cradle then
        let cpu := t.cpu.pushRegisters
        { t with cpu := cpu, stackPtr := Function.update t.stackPtr p cpu.esp }
      else t
    { t with interruptStackPointer := interruptStackTop }

omit [DecidableEq P] [DecidableEq Q] in
/-- The registers of a process, from its stack. -/
def saved (t : Tasks P Q) (p : P) : Cpu := { t.cpu with esp := t.stackPtr p }.popRegisters

omit [DecidableEq P] [DecidableEq Q] in
/-- What it does for the new one. -/
def switchTo (f : TaskFields P) (t : Tasks P Q) : Tasks P Q :=
  match t.sched.current with
  | none => t
  | some p =>
    { t with interruptStackPointer := f.kstackTop p, cr3 := f.pagetable p, cpu := t.saved p }

/-- An operation of the scheduler that leads to `sched`: those that call `process_switch`
save the old process before its loop and load the new one after it. The C code and the
interrupts between the two leave the memory as `mem`. -/
def operate (f : TaskFields P) (t : Tasks P Q) (op : SchedOp Q) (sched : Sched P Q) (mem : Mem) :
    Tasks P Q :=
  match t.sched.enters op with
  | none => { t with sched := sched }
  | some _ =>
    { t.switchFrom with sched := sched, cpu := { t.switchFrom.cpu with mem := mem } }.switchTo f

end Tasks

-- ---------------------------------------------------------------------------
-- Runs
-- ---------------------------------------------------------------------------

/-- What happens: an operation of the scheduler, a piece of work of a process with all the
interrupts that it takes, or an interrupt while no process is current. -/
inductive TaskEvent (P Q : Type)
  | op (op : SchedOp Q)
  | work (p : P)
  | interrupt

section Runs

variable {P Q : Type} [DecidableEq P] [DecidableEq Q]

/-- The stack pointer is on the kernel stack, with room for the registers. -/
def OnStack (f : TaskFields P) (p : P) (esp : UInt32) : Prop :=
  (f.kstack p).toNat + 28 ≤ esp.toNat ∧ esp.toNat ≤ f.stackEnd p

/-- What a process has on its kernel stack stays. -/
def KeepsStack (f : TaskFields P) (t : Tasks P Q) (mem : Mem) (p : P) : Prop :=
  SameOn t.cpu.mem mem (t.stackPtr p).toNat (f.stackEnd p - (t.stackPtr p).toNat)

/-- One event. A process may do anything with its registers and with memory, but it stays
on its stack and off those of the others. -/
inductive TaskTurn (f : TaskFields P) : Turn (Tasks P Q) (TaskEvent P Q) Unit
  | op {t : Tasks P Q} {op : SchedOp Q} {sched : Sched P Q} {mem : Mem} :
      SchedStep t.sched op sched →
      (∀ q, KeepsStack f t.switchFrom mem q) →
      TaskTurn f t (.op op) () (t.operate f op sched mem)
  | work {t : Tasks P Q} {p : P} {cpu : Cpu} : t.sched.current = some p → OnStack f p cpu.esp →
      (∀ q, q ≠ p → KeepsStack f t cpu.mem q) →
      TaskTurn f t (.work p) () { t with cpu := cpu }
  | interrupt {t : Tasks P Q} {mem : Mem} :
      t.sched.current = none → (∀ q, KeepsStack f t mem q) →
      TaskTurn f t .interrupt () { t with cpu := { t.cpu with mem := mem } }

/-- The kernel stacks are pages of their own. -/
structure Stacks (f : TaskFields P) : Prop where
  bound : ∀ p, f.stackEnd p < 2 ^ 32
  apart : ∀ p q, p ≠ q → f.stackEnd p ≤ (f.kstack q).toNat ∨
      f.stackEnd q ≤ (f.kstack p).toNat

/-- The registers of a process that is not current are on its stack. -/
def Parked (f : TaskFields P) (t : Tasks P Q) (p : P) : Prop :=
  (f.kstack p).toNat ≤ (t.stackPtr p).toNat ∧ (t.stackPtr p).toNat + 28 ≤ f.stackEnd p

/-- Before the first process is dispatched. -/
structure Tasks.Init (f : TaskFields P) (t : Tasks P Q) : Prop where
  sched   : t.sched.Init
  current : t.sched.current = none
  parked  : ∀ p, Parked f t p

/-- What holds between two events. -/
structure Tasks.Inv (f : TaskFields P) (t : Tasks P Q) : Prop where
  sched   : ∃ a, t.sched.Abstracts a ∧ a.Inv
  running : ∀ p, t.sched.current = some p → OnStack f p t.cpu.esp
  parked  : ∀ p, t.sched.current ≠ some p → Parked f t p
  loaded  : ∀ p, t.sched.current = some p →
    t.cr3 = f.pagetable p ∧ t.interruptStackPointer = f.kstackTop p

-- ---------------------------------------------------------------------------
-- Contexts
-- ---------------------------------------------------------------------------

/-- What a process has of its own: the registers, and the stack down to the stack
pointer. -/
structure Context where
  gen   : GenReg → UInt32
  esp   : UInt32
  stack : Nat → UInt8

/-- The context on the processor. -/
def Cpu.context (c : Cpu) (stackEnd : Nat) : Context :=
  ⟨c.gen, c.esp, fun a => if c.esp.toNat ≤ a ∧ a < stackEnd then c.mem a else 0⟩

/-- The context of a process, on the processor or in store. -/
def Tasks.context (f : TaskFields P) (t : Tasks P Q) (p : P) : Context :=
  (if t.sched.current = some p then t.cpu else t.saved p).context (f.stackEnd p)

end Runs

-- ---------------------------------------------------------------------------
-- The registers on the stack
-- ---------------------------------------------------------------------------

namespace Cpu

variable {c : Cpu}

/-- The seven words. -/
theorem pushed_pushRegisters (hRoom : 28 ≤ c.esp.toNat) :
    Pushed c.mem c.esp.toNat c.pushRegisters.mem c.pushRegisters.esp.toNat
      [(c.gen .eax).toNat, (c.gen .ebx).toNat, (c.gen .ecx).toNat, (c.gen .edx).toNat,
        (c.gen .esi).toNat, (c.gen .edi).toNat, (c.gen .ebp).toNat] := by
  have h1 := pushed_push (Pushed.start c.mem c.esp.toNat) (c.gen .ebp) (by simp; omega)
  have h2 := pushed_push h1 (c.gen .edi) (by simp; omega)
  have h3 := pushed_push h2 (c.gen .esi) (by simp; omega)
  have h4 := pushed_push h3 (c.gen .edx) (by simp; omega)
  have h5 := pushed_push h4 (c.gen .ecx) (by simp; omega)
  have h6 := pushed_push h5 (c.gen .ebx) (by simp; omega)
  exact pushed_push h6 (c.gen .eax) (by simp; omega)

theorem toNat_esp_pushRegisters (hRoom : 28 ≤ c.esp.toNat) :
    c.pushRegisters.esp.toNat + 28 = c.esp.toNat := (pushed_pushRegisters hRoom).depth

/-- **Frame.** The pushes write below the stack pointer only. -/
theorem pushRegisters_sameOff (hRoom : 28 ≤ c.esp.toNat) :
    SameOff c.mem c.pushRegisters.mem (c.esp.toNat - 28) 28 := by
  have hEsp := toNat_esp_pushRegisters hRoom
  have hFrame := (pushed_pushRegisters hRoom).frame
  rwa [show c.pushRegisters.esp.toNat = c.esp.toNat - 28 by omega] at hFrame

/-- **Round trip.** The registers that were pushed are those that are popped. -/
theorem popRegisters_pushRegisters (hRoom : 28 ≤ c.esp.toNat) :
    c.pushRegisters.popRegisters.gen = c.gen ∧ c.pushRegisters.popRegisters.esp = c.esp := by
  have hPushed := pushed_pushRegisters hRoom
  have hDepth := toNat_esp_pushRegisters hRoom
  have hTop := c.esp.toNat_lt
  constructor
  · funext r
    cases r with
    | eax => exact word_of_stacked hPushed.words (k := 0) rfl
    | ebx => exact word_of_stacked hPushed.words (k := 1) rfl
    | ecx => exact word_of_stacked hPushed.words (k := 2) rfl
    | edx => exact word_of_stacked hPushed.words (k := 3) rfl
    | esi => exact word_of_stacked hPushed.words (k := 4) rfl
    | edi => exact word_of_stacked hPushed.words (k := 5) rfl
    | ebp => exact word_of_stacked hPushed.words (k := 6) rfl
  · apply UInt32.toNat_inj.mp
    show (c.pushRegisters.esp + 28).toNat = _
    rw [UInt32.toNat_add, show (28 : UInt32).toNat = 28 from rfl,
      Nat.mod_eq_of_lt (by omega), hDepth]

/-- The registers that are popped are on the stack. -/
theorem popRegisters_gen_congr {c' : Cpu} (hEsp : c'.esp = c.esp)
    (hMem : SameOn c.mem c'.mem c.esp.toNat 28) :
    c'.popRegisters.gen = c.popRegisters.gen := by
  have hWord : ∀ k, k < 7 → c'.word k = c.word k := by
    intro k hk
    unfold word
    rw [hEsp, (hMem.sub (k := c.esp.toNat + 4 * k) (by omega) (by omega)).load32]
  funext r
  cases r with
  | eax => exact hWord 0 (by omega)
  | ebx => exact hWord 1 (by omega)
  | ecx => exact hWord 2 (by omega)
  | edx => exact hWord 3 (by omega)
  | esi => exact hWord 4 (by omega)
  | edi => exact hWord 5 (by omega)
  | ebp => exact hWord 6 (by omega)

/-- A context is the registers and the memory of the stack. -/
theorem context_congr {c' : Cpu} {stackEnd : Nat} (hGen : c'.gen = c.gen) (hEsp : c'.esp = c.esp)
    (hMem : SameOn c.mem c'.mem c.esp.toNat (stackEnd - c.esp.toNat)) :
    c'.context stackEnd = c.context stackEnd := by
  unfold context
  rw [hGen, hEsp, Context.mk.injEq]
  refine ⟨rfl, rfl, funext fun a => ?_⟩
  split
  · next hIn => exact hMem a hIn.1 (by omega)
  · rfl

end Cpu

-- ---------------------------------------------------------------------------
-- One event
-- ---------------------------------------------------------------------------

section Events

variable {P Q : Type} {f : TaskFields P} {t t' : Tasks P Q}

theorem Parked.toNat_esp {p : P} (h : Parked f t p) (hStacks : Stacks f) :
    (t.saved p).esp.toNat = (t.stackPtr p).toNat + 28 := by
  have hBound := hStacks.bound p
  have hTop := h.2
  show (t.stackPtr p + 28).toNat = _
  rw [UInt32.toNat_add, show (28 : UInt32).toNat = 28 from rfl, Nat.mod_eq_of_lt (by omega)]

theorem Tasks.saved_eq {p : P} (h : t.stackPtr p = t.cpu.esp) : t.saved p = t.cpu.popRegisters := by
  rw [Tasks.saved, h]

/-- **Frame.** What keeps the stack of a process keeps its context. -/
theorem Parked.saved_congr {p : P} (h : Parked f t p) (hStacks : Stacks f)
    (hPtr : t'.stackPtr p = t.stackPtr p) (hKeeps : KeepsStack f t t'.cpu.mem p) :
    (t'.saved p).context (f.stackEnd p) = (t.saved p).context (f.stackEnd p) := by
  have hEsp := h.toNat_esp hStacks
  have hTop := h.2
  refine Cpu.context_congr (Cpu.popRegisters_gen_congr hPtr (hKeeps.sub ?_ ?_)) ?_
    (hKeeps.sub ?_ ?_)
  · exact Nat.le_refl _
  · show (t.stackPtr p).toNat + 28 ≤ _
    omega
  · show t'.stackPtr p + 28 = t.stackPtr p + 28
    rw [hPtr]
  · omega
  · omega

variable [DecidableEq P]

theorem Tasks.context_current {p : P} (h : t.sched.current = some p) :
    t.context f p = t.cpu.context (f.stackEnd p) := by
  rw [Tasks.context, if_pos h]

theorem Tasks.context_saved {p : P} (h : t.sched.current ≠ some p) :
    t.context f p = (t.saved p).context (f.stackEnd p) := by
  rw [Tasks.context, if_neg h]

/-- A running process is not in its cradle: `process_switch` saves its registers. -/
theorem Tasks.Inv.switchFrom_running {p : P} (hInv : t.Inv f) (hp : t.sched.current = some p) :
    t.switchFrom = { t with
      cpu := t.cpu.pushRegisters
      stackPtr := Function.update t.stackPtr p t.cpu.pushRegisters.esp
      interruptStackPointer := interruptStackTop } := by
  obtain ⟨a, hAbs, hA⟩ := hInv.sched
  have hState : t.sched.state p = .running := by
    rw [hAbs.state]
    exact (hA.current p (hAbs.current ▸ hp)).1
  simp [Tasks.switchFrom, hp, hState]

theorem Tasks.switchFrom_none (h : t.sched.current = none) : t.switchFrom = t := by
  rw [Tasks.switchFrom, h]

/-- **Step lemma.** Before the loop of `process_switch` every process is on its stack, with the
context that it had. -/
theorem Tasks.Inv.switchFrom_saved (hInv : t.Inv f) (hStacks : Stacks f) (p : P) :
    Parked f t.switchFrom p ∧ (t.switchFrom.saved p).context (f.stackEnd p) = t.context f p := by
  cases hCurrent : t.sched.current with
  | none =>
    have hOther : t.sched.current ≠ some p := by simp [hCurrent]
    rw [Tasks.switchFrom_none hCurrent, Tasks.context_saved hOther]
    exact ⟨hInv.parked p hOther, rfl⟩
  | some c =>
    have hOn := hInv.running c hCurrent
    have hRoom : 28 ≤ t.cpu.esp.toNat := by
      have hLow := hOn.1
      omega
    have hEsp := Cpu.toNat_esp_pushRegisters hRoom
    have hFrame := Cpu.pushRegisters_sameOff hRoom
    rw [hInv.switchFrom_running hCurrent]
    by_cases hp : p = c
    · subst hp
      rw [Tasks.context_current hCurrent]
      refine ⟨⟨?_, ?_⟩, ?_⟩
      · show _ ≤ (Function.update t.stackPtr p _ p).toNat
        rw [Function.update_self]
        have hLow := hOn.1
        omega
      · show (Function.update t.stackPtr p _ p).toNat + 28 ≤ _
        rw [Function.update_self, hEsp]
        exact hOn.2
      · obtain ⟨hGen, hPop⟩ := Cpu.popRegisters_pushRegisters hRoom
        rw [Tasks.saved_eq (Function.update_self ..)]
        exact Cpu.context_congr hGen hPop (hFrame.sameOn (Or.inr (by omega)))
    · have hOther : t.sched.current ≠ some p := by
        rw [hCurrent]
        exact fun h => hp (Option.some.inj h).symm
      have hParked := hInv.parked p hOther
      have hPtr : Function.update t.stackPtr c t.cpu.pushRegisters.esp p = t.stackPtr p :=
        Function.update_of_ne hp _ _
      rw [Tasks.context_saved hOther]
      refine ⟨⟨?_, ?_⟩, hParked.saved_congr hStacks hPtr (hFrame.sameOn ?_)⟩
      · show _ ≤ (Function.update t.stackPtr c _ p).toNat
        rw [hPtr]
        exact hParked.1
      · show (Function.update t.stackPtr c _ p).toNat + 28 ≤ _
        rw [hPtr]
        exact hParked.2
      · have hLow := hOn.1
        have hHigh := hOn.2
        have hBottom := hParked.1
        have hTop := hParked.2
        rcases hStacks.apart p c hp with hApart | hApart <;> omega

omit [DecidableEq P] in
/-- **Step lemma.** After it the processor has the registers of the process that is current. -/
theorem Tasks.switchTo_cpu {p : P} (h : t.sched.current = some p) :
    t.switchTo f = { t with
      interruptStackPointer := f.kstackTop p
      cr3 := f.pagetable p
      cpu := t.saved p } := by
  rw [Tasks.switchTo, h]

omit [DecidableEq P] in
theorem Tasks.switchTo_none (h : t.sched.current = none) : t.switchTo f = t := by
  rw [Tasks.switchTo, h]

/-- The contexts are those on the stacks. -/
theorem Tasks.context_switchTo (t : Tasks P Q) (p : P) :
    (t.switchTo f).context f p = (t.saved p).context (f.stackEnd p) := by
  cases hCurrent : t.sched.current with
  | none =>
    rw [Tasks.switchTo_none hCurrent, Tasks.context_saved (by simp [hCurrent])]
  | some c =>
    rw [Tasks.switchTo_cpu hCurrent]
    by_cases hp : c = p
    · subst hp
      exact Tasks.context_current hCurrent
    · exact Tasks.context_saved fun h => hp (Option.some.inj (hCurrent.symm.trans h))

omit [DecidableEq P] in
/-- What holds between two events holds again. -/
theorem Tasks.switchTo_inv [DecidableEq Q] (hSched : ∃ a, t.sched.Abstracts a ∧ a.Inv)
    (hStacks : Stacks f) (hParked : ∀ p, Parked f t p) : (t.switchTo f).Inv f := by
  cases hCurrent : t.sched.current with
  | none =>
    rw [Tasks.switchTo_none hCurrent]
    exact ⟨hSched, fun p hp => by simp [hCurrent] at hp, fun p _ => hParked p,
      fun p hp => by simp [hCurrent] at hp⟩
  | some c =>
    rw [Tasks.switchTo_cpu hCurrent]
    refine ⟨hSched, fun p hp => ?_, fun p _ => hParked p, fun p hp => ?_⟩
    · obtain rfl := Option.some.inj (hCurrent.symm.trans hp)
      have hEsp := (hParked c).toNat_esp hStacks
      have hLow := (hParked c).1
      have hTop := (hParked c).2
      show OnStack f c (t.saved c).esp
      exact ⟨by omega, by omega⟩
    · obtain rfl := Option.some.inj (hCurrent.symm.trans hp)
      exact ⟨rfl, rfl⟩

end Events

-- ---------------------------------------------------------------------------
-- Runs
-- ---------------------------------------------------------------------------

section Keeps

variable {P Q : Type} [DecidableEq P] [DecidableEq Q] {f : TaskFields P} {t t' : Tasks P Q}

/-- Only `process_switch` changes which process is current. -/
theorem SchedStep.current_of_not_enters {s s' : Sched P Q} {a : AbsSched P Q} {op : SchedOp Q}
    (hs : SchedStep s op s') (h : s.Abstracts a) (hInv : a.Inv) (hb : s.enters op = none) :
    s'.current = s.current := by
  rw [(hs.abstracts h hInv).current, h.current]
  cases op with
  | yield => cases hb
  | preempt =>
    rw [Sched.enters] at hb
    split at hb
    · cases hb
    · next hc =>
      have hSame : s' = s := by
        rw [show s' = s.processPreempt from hs, Sched.processPreempt, if_neg hc]
      rw [← (hs.abstracts h hInv).current, hSame, h.current]
  | exit code =>
    have hNone := Option.map_eq_none_iff.mp hb
    have hExit := hs.2
    simp [Sched.processExit, hNone] at hExit
  | wait q =>
    have hNone := Option.map_eq_none_iff.mp hb
    have hWait := hs.2
    simp [Sched.processWait, hNone] at hWait
  | wakeup q =>
    show (a.wakeup (.wait q)).current = a.current
    unfold AbsSched.wakeup
    split <;> rfl
  | wakeupAll q => rfl
  | idleLoop => cases hb

/-- **Step lemma.** An event keeps the invariant, and the contexts of all processes but the one
that works. -/
theorem TaskTurn.keeps {e : TaskEvent P Q} {o : Unit} (h : TaskTurn f t e o t') (hStacks : Stacks f)
    (hInv : t.Inv f) : t'.Inv f ∧ ∀ p, e ≠ .work p → t'.context f p = t.context f p := by
  cases h with
  | @op _ op sched mem hStep hKeeps =>
    obtain ⟨a, hAbs, hA⟩ := hInv.sched
    have hSched : ∃ a, sched.Abstracts a ∧ a.Inv :=
      ⟨a.step op, hStep.abstracts hAbs hA, hA.step op (hStep.idle_current hAbs hA)⟩
    cases hEnters : t.sched.enters op with
    | none =>
      have hCurrent := hStep.current_of_not_enters hAbs hA hEnters
      rw [Tasks.operate, hEnters]
      refine ⟨⟨hSched, fun p hp => hInv.running p (hCurrent ▸ hp),
        fun p hp => hInv.parked p (hCurrent ▸ hp),
        fun p hp => hInv.loaded p (hCurrent ▸ hp)⟩, fun p _ => ?_⟩
      unfold Tasks.context
      rw [hCurrent]
      rfl
    | some b =>
      rw [Tasks.operate, hEnters]
      have hSaved := hInv.switchFrom_saved hStacks
      refine ⟨Tasks.switchTo_inv hSched hStacks fun p => (hSaved p).1, fun p _ => ?_⟩
      rw [Tasks.context_switchTo, ← (hSaved p).2]
      exact (hSaved p).1.saved_congr hStacks rfl (hKeeps p)
  | @work _ c cpu hCurrent hOn hKeeps =>
    refine ⟨⟨hInv.sched, fun p hp => ?_, hInv.parked, hInv.loaded⟩, fun p hp => ?_⟩
    · obtain rfl := Option.some.inj (hCurrent.symm.trans hp)
      exact hOn
    · have hNe : p ≠ c := fun hEq => hp (congrArg TaskEvent.work hEq.symm)
      have hOther : t.sched.current ≠ some p :=
        fun h => hNe (Option.some.inj (h.symm.trans hCurrent))
      rw [Tasks.context_saved hOther, Tasks.context_saved (t := { t with cpu := cpu }) hOther]
      exact (hInv.parked p hOther).saved_congr hStacks rfl (hKeeps p hNe)
  | @interrupt _ mem hCurrent hKeeps =>
    have hNone : ∀ p, t.sched.current ≠ some p := fun p h => by simp [hCurrent] at h
    refine ⟨⟨hInv.sched, fun p hp => absurd hp (hNone p), hInv.parked,
      fun p hp => absurd hp (hNone p)⟩,
      fun p _ => ?_⟩
    rw [Tasks.context_saved (hNone p),
      Tasks.context_saved (t := { t with cpu := { t.cpu with mem := mem } })
      (hNone p)]
    exact (hInv.parked p (hNone p)).saved_congr hStacks rfl (hKeeps p)

omit [DecidableEq P] in
/-- The invariant holds when a run starts. -/
theorem Tasks.Init.inv (h : t.Init f) : t.Inv f :=
  ⟨h.sched.abstracts, fun p hp => by simp [h.current] at hp, fun p _ => h.parked p,
    fun p hp => by simp [h.current] at hp⟩

/-- **Run lemma.** The induction is on the events. -/
theorem TaskTurn.run_keeps {log : List (TaskEvent P Q × Unit)} (h : Run (TaskTurn f) t log t')
    (hStacks : Stacks f) (hInv : t.Inv f) :
    t'.Inv f ∧ ∀ p, (∀ e ∈ log, e.1 ≠ .work p) → t'.context f p = t.context f p := by
  induction h with
  | nil t => exact ⟨hInv, fun p _ => rfl⟩
  | cons hTurn _ ih =>
    obtain ⟨hInv₁, hKeeps⟩ := hTurn.keeps hStacks hInv
    obtain ⟨hInv', hRest⟩ := ih hInv₁
    refine ⟨hInv', fun p hNot => ?_⟩
    rw [hRest p fun e he => hNot e (List.mem_cons_of_mem _ he),
      hKeeps p (hNot _ (List.mem_cons_self ..))]

/-- **The switch is transparent.** In any run, with any number of processes and whatever they
and the interrupts do on their own stacks: a process that does not work in a part of the run,
however often the others are switched to in it, has the registers, the stack pointer and the
stack at its end that it had before. Whenever it is current the processor holds them, with
its page table and its interrupt stack. -/
theorem context_switch_transparent (f : TaskFields P) (hStacks : Stacks f) {t₀ t t' : Tasks P Q}
    (hInit : t₀.Init f) {before log : List (TaskEvent P Q × Unit)}
    (hBefore : Run (TaskTurn f) t₀ before t) (hLog : Run (TaskTurn f) t log t') (p : P)
    (hNot : ∀ e ∈ log, e.1 ≠ .work p) :
    t'.context f p = t.context f p ∧
      (t'.sched.current = some p →
        t'.cpu.context (f.stackEnd p) = t.context f p ∧ t'.cr3 = f.pagetable p ∧
          t'.interruptStackPointer = f.kstackTop p) := by
  have hInv := (TaskTurn.run_keeps hBefore hStacks hInit.inv).1
  obtain ⟨hInv', hKeeps⟩ := TaskTurn.run_keeps hLog hStacks hInv
  refine ⟨hKeeps p hNot, fun hCurrent => ⟨?_, hInv'.loaded p hCurrent⟩⟩
  rw [← Tasks.context_current hCurrent]
  exact hKeeps p hNot

/-- Two kernel stacks. -/
def twoTasks : TaskFields (Fin 2) where
  pagetable := fun p => UInt32.ofNat (0x100000 + 0x1000 * p.val)
  kstack := fun p => UInt32.ofNat (0x200000 + 0x1000 * p.val)
  kstackTop := fun p => UInt32.ofNat (0x200F00 + 0x1000 * p.val)

/-- Two ready processes, before the first is dispatched. -/
def tasksStart : Tasks (Fin 2) Unit where
  sched := twoReady
  cpu := ⟨fun _ => 0, fun _ => 0x10, 8, 0xFFF0, 0, 0, fun _ => 0⟩
  cr3 := 0
  interruptStackPointer := interruptStackTop
  stackPtr := twoTasks.kstackTop

/-- `process_yield` with nothing else written. -/
def Tasks.yielded (t : Tasks (Fin 2) Unit) : Tasks (Fin 2) Unit :=
  t.operate twoTasks .yield t.sched.processYield t.switchFrom.cpu.mem

theorem TaskTurn.yielded {t : Tasks (Fin 2) Unit} (h : t.sched.idle = false) :
    TaskTurn twoTasks t (.op .yield) () t.yielded :=
  .op ⟨h, rfl⟩ fun _ => SameOn.refl _ _ _

/-- The second process loads a register. -/
def Tasks.worked (t : Tasks (Fin 2) Unit) : Tasks (Fin 2) Unit :=
  { t with cpu := t.cpu.setGen .eax 7 }

theorem twoTasks_stacks : Stacks twoTasks :=
  ⟨by decide, by decide⟩

theorem tasksStart_init : tasksStart.Init twoTasks :=
  ⟨twoReady_init, rfl, by unfold Parked; decide⟩

/-- The first process yields to the second, which loads a register and yields back. -/
theorem context_switch_transparent_yield :
    let t := tasksStart.yielded
    let t' := t.yielded.worked.yielded
    t.sched.current = some 0 ∧ t.yielded.sched.current = some 1 ∧ t'.sched.current = some 0 ∧
      t'.cpu.context 0x201000 = t.cpu.context 0x201000 ∧ t'.cr3 = 0x100000 ∧
      t'.interruptStackPointer = 0x200F00 := by
  have hCurrent : tasksStart.yielded.sched.current = some 0 := by decide
  have hOther : tasksStart.yielded.yielded.sched.current = some 1 := by decide
  have hBack : tasksStart.yielded.yielded.worked.yielded.sched.current = some 0 := by decide
  have hBefore : Run (TaskTurn twoTasks) tasksStart [(.op .yield, ())] tasksStart.yielded :=
    .cons (.yielded rfl) (.nil _)
  have hWork :
      TaskTurn twoTasks tasksStart.yielded.yielded (.work 1) () tasksStart.yielded.yielded.worked :=
    .work hOther (by unfold OnStack; decide) fun _ _ => SameOn.refl _ _ _
  have hLog : Run (TaskTurn twoTasks) tasksStart.yielded
      [(.op .yield, ()), (.work 1, ()), (.op .yield, ())]
      tasksStart.yielded.yielded.worked.yielded :=
    .cons (.yielded (by decide)) (.cons hWork (.cons (.yielded (by decide)) (.nil _)))
  obtain ⟨hSame, hLoaded⟩ :=
    context_switch_transparent twoTasks twoTasks_stacks tasksStart_init hBefore hLog
    0 (by simp)
  obtain ⟨hCpu, hCr3, hTop⟩ := hLoaded hBack
  refine ⟨hCurrent, hOther, hBack, ?_, hCr3, hTop⟩
  rw [Tasks.context_current hCurrent] at hCpu
  exact hCpu

end Keeps

end Hexos
