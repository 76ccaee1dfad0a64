import Hexos.Process.Invariant

/-!
# HexOS — waiting for the disk

`kernel/kernel/io/ata.c`: `ata_read_unlocked` and `atapi_read_unlocked` write
the command (the packet), then test `ata_interrupt_active` and wait on the ATA
queue; `ata_interrupt` wakes everyone on that queue. Interrupts are enabled
between the statements, and `process_wait` itself is two: `list_push_tail`, then
`process_switch`, which disables them.

The processor runs one statement of the requester at a time; between two of
them the completion interrupt, other interrupt handlers and, when the requester
is not current, other processes may act.

## Results

* `Wired.pushTail`, `Wired.popHead` — list operations as changes of the owner of
  one node.
* `SchedStep.owners` — what a scheduler operation does to the owners.
* `DiskState.Inv.step` — the step lemma.
* `no_lost_wakeup` — no wakeup is lost in a run in which every interrupt finds
  the requester on the queue.
-/

namespace Hexos

open Transition

-- ---------------------------------------------------------------------------
-- Lists through the owners of their nodes
-- ---------------------------------------------------------------------------

section

variable {L N : Type} [DecidableEq L] [DecidableEq N] {m : ListMem L N} {l : L} {n : N}

/-- The memory represents some family of sequences. -/
def Wired (m : ListMem L N) : Prop := ∃ a, Refines m a

theorem Wired.pushTail (h : Wired m) (hn : m.list n = none) (l : L) :
    Wired (m.listPushTail l n) ∧
    (m.listPushTail l n).list = Function.update m.list n (some l) := by
  obtain ⟨a, hRef⟩ := h
  have hRef' := hRef.listPushTail (l := l) hn
  refine ⟨⟨_, hRef'⟩, ?_⟩
  funext k
  cases hHead : m.head l with
  | none => rw [ListMem.listPushTail_empty hHead ((hRef.head_none_iff l).mp hHead)]
  | some z =>
    obtain ⟨t, ht⟩ : ∃ t, m.tail l = some t := by
      rw [← Option.isSome_iff_exists, Option.isSome_iff_ne_none,
        Ne, ← hRef.head_none_iff, hHead]
      exact Option.some_ne_none z
    rw [ListMem.listPushTail_concat hHead ht]

theorem Wired.popHead (h : Wired m) (l : L) :
    (∃ n m', m.listPopHead l = (m', some n) ∧ Wired m' ∧ m.list n = some l ∧
      m'.list = Function.update m.list n none) ∨
    (m.listPopHead l = (m, none) ∧ ∀ n, m.list n ≠ some l) := by
  obtain ⟨a, hRef⟩ := h
  obtain ⟨hMem, hRes⟩ := hRef.listPopHead (l := l)
  cases hs : a.seq l with
  | nil =>
    have hHead : m.head l = none := by rw [hRef.head, hs, List.head?_nil]
    refine .inr ⟨by simp [ListMem.listPopHead, hHead], ?_⟩
    intro n hn
    have := (hRef.owner n l).mp hn
    rw [hs] at this
    exact absurd this List.not_mem_nil
  | cons n ns =>
    have hHead : m.head l = some n := by rw [hRef.head, hs, List.head?_cons]
    have hOwner : m.list n = some l := (hRef.owner n l).mpr (by rw [hs]; exact List.mem_cons_self)
    refine .inl ⟨n, (m.listPopHead l).1, ?_, ⟨_, hMem⟩, hOwner, ?_⟩
    · have hRes' : (m.listPopHead l).2 = some n := by
        rw [hRes, ListSeqs.exec, hs, List.head?_cons]
      rw [← hRes']
    · cases hNext : m.next n with
      | none => rw [ListMem.listPopHead_single hHead hNext]
      | some y => rw [ListMem.listPopHead_cons hHead hNext]

end

variable {P Q : Type} [DecidableEq P] [DecidableEq Q] {s s' : Sched P Q} {ata : Q} {p : P}

/-- `dispatch` takes the process that it makes current from its list. -/
theorem Sched.dispatch_owners (h : Wired s.lists) :
    Wired s.dispatch.lists ∧
      (∀ n, s.dispatch.lists.list n = s.lists.list n ∨ s.dispatch.lists.list n = none) ∧
      (∀ c, s.dispatch.current = some c → s.dispatch.lists.list c = none) := by
  rcases h.popHead .ready with ⟨c, m, hPop, hWired, -, hOwners⟩ | ⟨hPop, -⟩
  · simp only [Sched.dispatch, hPop]
    refine ⟨hWired, ?_, ?_⟩
    · intro n
      rw [hOwners]
      by_cases hn : n = c
      · exact .inr (by rw [hn, Function.update_self])
      · exact .inl (by rw [Function.update_of_ne hn])
    · intro c' hc'
      obtain rfl := Option.some.inj hc'
      rw [hOwners, Function.update_self]
  · simp only [Sched.dispatch, hPop]
    exact ⟨h, fun n => .inl trivial, fun c' hc' => by cases hc'⟩

/-- `process_switch` up to its loop puts the current process into the ready list
at most. -/
theorem Sched.leave_owners {st : ProcState} (h : Wired s.lists)
    (hc : st = .ready → ∀ c, s.current = some c → s.lists.list c = none) :
    Wired (s.leave st).lists ∧
      ∀ n, (s.leave st).lists.list n = s.lists.list n ∨
        (s.leave st).lists.list n = some .ready := by
  unfold Sched.leave
  cases hCurrent : s.current with
  | none => exact ⟨h, fun n => .inl rfl⟩
  | some c =>
    by_cases hst : st = .ready
    · simp only [hst, if_true]
      obtain ⟨hWired, hOwners⟩ := h.pushTail (hc hst c hCurrent) .ready
      refine ⟨hWired, ?_⟩
      intro n
      simp only [Sched.setState]
      rw [hOwners]
      by_cases hn : n = c
      · exact .inr (by rw [hn, Function.update_self])
      · exact .inl (by rw [Function.update_of_ne hn])
    · simp only [if_neg hst]
      exact ⟨h, fun n => .inl rfl⟩

/-- `process_switch` puts no process into a wait queue. -/
theorem Sched.processSwitch_owners (st : ProcState) (h : Wired s.lists)
    (hc : st = .ready → ∀ c, s.current = some c → s.lists.list c = none) :
    Wired (s.processSwitch st).lists ∧
      (∀ n q, (s.processSwitch st).lists.list n = some (.wait q) →
        s.lists.list n = some (.wait q)) ∧
      (∀ c, (s.processSwitch st).current = some c →
        (s.processSwitch st).lists.list c = none) := by
  rw [Sched.processSwitch_eq]
  obtain ⟨hLeave, hOwners⟩ := Sched.leave_owners h hc
  obtain ⟨hDispatch, hOwners', hCurrent⟩ := Sched.dispatch_owners hLeave
  refine ⟨hDispatch, ?_, hCurrent⟩
  intro n q hn
  rcases hOwners' n with hSame | hNone
  · rw [hSame] at hn
    rcases hOwners n with hSame' | hReady
    · rwa [hSame'] at hn
    · rw [hReady] at hn
      cases hn
  · rw [hNone] at hn
    cases hn

theorem Sched.dispatch_allowPreempt (s : Sched P Q) : s.dispatch.allowPreempt = s.allowPreempt := by
  unfold Sched.dispatch
  split <;> rfl

theorem Sched.processSwitch_allowPreempt (s : Sched P Q) (st : ProcState) :
    (s.processSwitch st).allowPreempt = s.allowPreempt := by
  rw [Sched.processSwitch_eq]
  have hLeave : (s.leave st).allowPreempt = s.allowPreempt := by
    unfold Sched.leave
    split
    · rfl
    · dsimp only
      split <;> rfl
  rw [Sched.dispatch_allowPreempt, hLeave]

/-- Waking moves processes of one queue to the ready list. -/
structure Sched.Wakes (q : Q) (s s' : Sched P Q) : Prop where
  wired   : Wired s'.lists
  owners  : ∀ n, s'.lists.list n = s.lists.list n ∨
              (s.lists.list n = some (.wait q) ∧ s'.lists.list n = some .ready)
  current : s'.current = s.current ∧ s'.allowPreempt = s.allowPreempt

theorem Sched.processWakeup_owners (h : Wired s.lists) (q : Q) :
    s.Wakes q (s.processWakeup (.wait q)) := by
  rcases h.popHead (.wait q) with ⟨c, m, hPop, hWired, hOwner, hOwners⟩ | ⟨hPop, -⟩
  · simp only [Sched.processWakeup, hPop, Sched.makeReady, Sched.setState]
    have hFree : m.list c = none := by rw [hOwners, Function.update_self]
    obtain ⟨hWired', hOwners'⟩ := hWired.pushTail hFree .ready
    refine ⟨hWired', ?_, rfl, rfl⟩
    intro n
    rw [hOwners', hOwners]
    by_cases hn : n = c
    · exact .inr ⟨hn ▸ hOwner, by rw [hn, Function.update_self]⟩
    · exact .inl (by rw [Function.update_of_ne hn, Function.update_of_ne hn])
  · simp only [Sched.processWakeup, hPop]
    exact ⟨h, fun n => .inl rfl, rfl, rfl⟩

omit [DecidableEq P] [DecidableEq Q] in
theorem Sched.Wakes.trans {q : Q} {s₁ : Sched P Q} (h : s.Wakes q s₁) (h' : s₁.Wakes q s') :
    s.Wakes q s' := by
  refine ⟨h'.wired, ?_, h'.current.1.trans h.current.1, h'.current.2.trans h.current.2⟩
  intro n
  rcases h'.owners n with hSame' | ⟨hOwner', hReady'⟩
  · rcases h.owners n with hSame | ⟨hOwner, hReady⟩
    · exact .inl (hSame'.trans hSame)
    · exact .inr ⟨hOwner, hSame'.trans hReady⟩
  · rcases h.owners n with hSame | ⟨hOwner, hReady⟩
    · exact .inr ⟨hSame ▸ hOwner', hReady'⟩
    · exact .inr ⟨hOwner, hReady'⟩

/-- **Waking all.** Nobody is left in the queue; the induction is on the rounds
of the loop. -/
theorem Sched.processWakeupAll_owners {q : Q} {fuel : Nat} (h : Wired s.lists)
    (hRun : s.processWakeupAll (.wait q) fuel = some s') :
    s.Wakes q s' ∧ ∀ n, s'.lists.list n ≠ some (.wait q) := by
  induction fuel generalizing s with
  | zero => simp [Sched.processWakeupAll] at hRun
  | succ fuel ih =>
    rw [Sched.processWakeupAll] at hRun
    rcases h.popHead (.wait q) with ⟨c, m, hPop, -⟩ | ⟨hPop, hEmpty⟩
    · have hFirst := Sched.processWakeup_owners h q
      simp only [hPop] at hRun
      simp only [Sched.processWakeup, hPop] at hFirst
      obtain ⟨hRest, hNone⟩ := ih hFirst.wired hRun
      exact ⟨hFirst.trans hRest, hNone⟩
    · simp only [hPop] at hRun
      obtain rfl := Option.some.inj hRun
      exact ⟨⟨h, fun n => .inl rfl, rfl, rfl⟩, hEmpty⟩

-- ---------------------------------------------------------------------------
-- The request
-- ---------------------------------------------------------------------------

/-- The two read functions. -/
inductive DiskKind where
  /-- `ata_read_unlocked`. -/
  | ata
  /-- `atapi_read_unlocked`. -/
  | atapi
  deriving DecidableEq, Repr

/-- Where the requester is in its read. -/
inductive DiskPc where
  /-- Outside. -/
  | out
  /-- In `ata_begin` or `atapi_begin`, before the command register is written. -/
  | begin
  /-- In `atapi_begin`, before the packet is written. -/
  | packet
  /-- Before the test of `ata_interrupt_active`. -/
  | issued
  /-- Before the `list_push_tail` of `process_wait`. -/
  | tested
  /-- Before its `process_switch`. -/
  | queued
  /-- In `process_switch`, or back from it. -/
  | switched
  /-- In the loop over the blocks. -/
  | transfer
  deriving DecidableEq, Repr

/-- The scheduler, the place of the requester, the number of completion
interrupts that the device has still to raise, and `ata_interrupt_active`. -/
structure DiskState (P Q : Type) where
  sched           : Sched P Q
  pc              : DiskPc
  outstanding     : Nat
  interruptActive : Int

/-- The next statement of the read by `p`. `go` stands for what the device
answers: with `false`, `ata_begin` fails, and the loop over the blocks ends. -/
def DiskState.statement (kind : DiskKind) (ata : Q) (p : P) (go : Bool) (s : DiskState P Q) :
    DiskState P Q :=
  match s.pc with
  | .out => { s with pc := .begin }
  | .begin =>
    if go then
      match kind with
      | .ata => { s with pc := .issued, outstanding := s.outstanding + 1 }
      | .atapi => { s with pc := .packet }
    else { s with pc := .out }
  | .packet => { s with pc := .issued, outstanding := s.outstanding + 1 }
  | .issued => { s with pc := if s.interruptActive ≠ 0 then .tested else .transfer }
  | .tested =>
    { s with
      sched := { s.sched with lists := s.sched.lists.listPushTail (.wait ata) p }
      pc := .queued }
  | .queued => { s with sched := s.sched.processSwitch .blocked, pc := .switched }
  | .switched => { s with pc := .transfer }
  | .transfer => if go then s else { s with pc := .out }

/-- The operations that an interrupt handler may call. -/
def SchedOp.FromInterrupt : SchedOp Q → Prop
  | .preempt => True
  | .wakeup _ => True
  | .wakeupAll _ => True
  | _ => False

/-- A step of the system: a statement of the requester, `ata_interrupt`, or a
scheduler operation of somebody else, who leaves the ATA queue alone. The device
raises an outstanding interrupt in the states `When` only. -/
inductive DiskStep (kind : DiskKind) (ata : Q) (p : P) (When : DiskState P Q → Prop) :
    DiskState P Q → DiskState P Q → Prop
  | statement {s : DiskState P Q} (go : Bool) :
      s.sched.current = some p → s.sched.idle = false →
      DiskStep kind ata p When s (s.statement kind ata p go)
  | interrupt {s : DiskState P Q} {sched : Sched P Q} (fuel : Nat) :
      When s → 0 < s.outstanding → s.sched.processWakeupAll (.wait ata) fuel = some sched →
      DiskStep kind ata p When s
        { s with sched := sched, outstanding := s.outstanding - 1, interruptActive := 1 }
  | other {s : DiskState P Q} {sched : Sched P Q} {op : SchedOp Q} :
      op ≠ .wait ata → op ≠ .wakeup ata → op ≠ .wakeupAll ata →
      s.pc = .out ∨ s.sched.current ≠ some p ∨ op.FromInterrupt →
      SchedStep s.sched op sched →
      DiskStep kind ata p When s { s with sched := sched }

/-- All runs from a state outside of a read with `ata_interrupt_active` set. -/
def diskSystem (kind : DiskKind) (ata : Q) (p : P) (When : DiskState P Q → Prop) :
    System (DiskState P Q) where
  init s := s.sched.Init ∧ s.sched.allowPreempt = 0 ∧ s.pc = .out ∧ s.outstanding = 0 ∧
    s.interruptActive ≠ 0
  step := DiskStep kind ata p When

/-- The requester is on the ATA queue. -/
def DiskState.Waits (ata : Q) (p : P) (s : DiskState P Q) : Prop :=
  s.sched.lists.list p = some (.wait ata)

/-- The requester is blocked on the ATA queue and no interrupt will wake it. -/
def DiskState.LostWakeup (ata : Q) (p : P) (s : DiskState P Q) : Prop :=
  s.sched.state p = .blocked ∧ s.Waits ata p ∧ s.outstanding = 0

-- ---------------------------------------------------------------------------
-- The invariant
-- ---------------------------------------------------------------------------

/-- Between the writing of the command and the end of the wait, the interrupt is
outstanding for as long as the requester is not on the queue or still on it. -/
structure DiskState.Inv (ata : Q) (p : P) (s : DiskState P Q) : Prop where
  wired    : Wired s.sched.lists
  unlinked : ∀ c, s.sched.current = some c → s.sched.lists.list c = none ∨
      (c = p ∧ s.pc = .queued)
  preempt  : s.sched.allowPreempt = 0
  reading  : s.pc ≠ .out → s.pc ≠ .switched → s.sched.current = some p
  issued   : s.pc = .issued ∨ s.pc = .tested → 0 < s.outstanding
  waiting  : s.Waits ata p → 0 < s.outstanding ∧ (s.pc = .queued ∨ s.pc = .switched)

namespace DiskState.Inv

variable {s : DiskState P Q} {kind : DiskKind}

omit [DecidableEq P] [DecidableEq Q] in
/-- The requester is in no list while it runs, but right before it blocks. -/
theorem unlinked_self (h : s.Inv ata p) (hc : s.sched.current = some p) (hpc : s.pc ≠ .queued) :
    s.sched.lists.list p = none := by
  rcases h.unlinked p hc with hNone | ⟨-, hQueued⟩
  · exact hNone
  · exact absurd hQueued hpc

omit [DecidableEq P] [DecidableEq Q] in
/-- A statement that only moves on. -/
theorem move (h : s.Inv ata p) (hc : s.sched.current = some p) (hpc : s.pc ≠ .queued)
    {s' : DiskState P Q} (hSched : s'.sched = s.sched)
    (hIssued : s'.pc = .issued ∨ s'.pc = .tested → 0 < s'.outstanding) : s'.Inv ata p := by
  have hFree := h.unlinked_self hc hpc
  refine ⟨hSched ▸ h.wired, ?_, hSched ▸ h.preempt, fun _ _ => hSched ▸ hc, hIssued, ?_⟩
  · intro c hc'
    rw [hSched] at hc' ⊢
    obtain rfl := Option.some.inj (hc.symm.trans hc')
    exact .inl hFree
  · intro hw
    rw [Waits, hSched, hFree] at hw
    cases hw

/-- **Step lemma**, the statements of the requester. -/
theorem statement (h : s.Inv ata p) (hc : s.sched.current = some p) (go : Bool) :
    (s.statement kind ata p go).Inv ata p := by
  unfold DiskState.statement
  split
  · next hpc => exact h.move hc (by simp [hpc]) rfl (by simp)
  · next hpc =>
    split
    · split
      · exact h.move hc (by simp [hpc]) rfl (by simp)
      · exact h.move hc (by simp [hpc]) rfl (by simp)
    · exact h.move hc (by simp [hpc]) rfl (by simp)
  · next hpc => exact h.move hc (by simp [hpc]) rfl (by simp)
  · next hpc =>
    exact h.move hc (by simp [hpc]) rfl fun _ => h.issued (.inl hpc)
  · next hpc =>
    -- the requester enters the queue with its interrupt outstanding
    obtain ⟨hWired, hOwners⟩ :=
      h.wired.pushTail (h.unlinked_self hc (by simp [hpc])) (.wait ata)
    refine ⟨hWired, ?_, h.preempt,
      fun _ _ => hc, by simp, fun _ => ⟨h.issued (.inr hpc), .inl rfl⟩⟩
    intro c hc'
    obtain rfl := Option.some.inj (hc.symm.trans hc')
    exact .inr ⟨rfl, rfl⟩
  · next hpc =>
    obtain ⟨hWired, hOwners, hCurrent⟩ := Sched.processSwitch_owners .blocked h.wired (by simp)
    refine ⟨hWired, fun c hc' => .inl (hCurrent c hc'), ?_, by simp, by simp, ?_⟩
    · exact (s.sched.processSwitch_allowPreempt .blocked).trans h.preempt
    · intro hw
      exact ⟨(h.waiting (hOwners p ata hw)).1, .inr rfl⟩
  · next hpc => exact h.move hc (by simp [hpc]) rfl (by simp)
  · next hpc =>
    split
    · exact h
    · exact h.move hc (by simp [hpc]) rfl (by simp)

omit [DecidableEq P] [DecidableEq Q] in
/-- Waking processes does not link the current one. -/
theorem unlinked_wakes (h : s.Inv ata p) {sched : Sched P Q} {q : Q}
    (hWakes : s.sched.Wakes q sched) {c : P} (hc : sched.current = some c) :
    sched.lists.list c = none ∨ (c = p ∧ s.pc = .queued) := by
  rcases h.unlinked c (hWakes.current.1 ▸ hc) with hNone | hQueued
  · rcases hWakes.owners c with hSame | ⟨hOwner, -⟩
    · exact .inl (hSame.trans hNone)
    · rw [hNone] at hOwner
      cases hOwner
  · exact .inr hQueued

/-- **Step lemma**, the interrupt: it finds the requester on the queue and takes
it off. -/
theorem interrupt (h : s.Inv ata p) {sched : Sched P Q} {fuel : Nat} (hWaits : s.Waits ata p)
    (hRun : s.sched.processWakeupAll (.wait ata) fuel = some sched) :
    DiskState.Inv ata p
      { s with sched := sched, outstanding := s.outstanding - 1, interruptActive := 1 } := by
  obtain ⟨hWakes, hEmpty⟩ := Sched.processWakeupAll_owners h.wired hRun
  have hpc := (h.waiting hWaits).2
  refine ⟨hWakes.wired, ?_, hWakes.current.2.trans h.preempt, ?_, ?_,
    fun hw => absurd hw (hEmpty p)⟩
  · exact fun c hc => h.unlinked_wakes hWakes hc
  · intro hOut hSwitched
    exact hWakes.current.1.trans (h.reading hOut hSwitched)
  · intro hIssued
    rcases hpc with hpc | hpc <;> simp [hpc] at hIssued

omit [DecidableEq P] [DecidableEq Q] in
/-- Waking the processes of another queue. -/
theorem wakes (h : s.Inv ata p) {sched : Sched P Q} {q : Q} (hWakes : s.sched.Wakes q sched) :
    DiskState.Inv ata p { s with sched := sched } := by
  refine ⟨hWakes.wired, ?_, hWakes.current.2.trans h.preempt, ?_, h.issued, ?_⟩
  · exact fun c hc => h.unlinked_wakes hWakes hc
  · intro hOut hSwitched
    exact hWakes.current.1.trans (h.reading hOut hSwitched)
  · intro hw
    rcases hWakes.owners p with hSame | ⟨-, hReady⟩
    · exact h.waiting (hSame.symm.trans hw)
    · rw [Waits, hReady] at hw
      cases hw

omit [DecidableEq P] [DecidableEq Q] in
/-- A process other than the requester, or the requester outside of its read,
gives up the processor. -/
theorem leaves (h : s.Inv ata p) {sched : Sched P Q}
    (hOther : s.pc = .out ∨ s.sched.current ≠ some p) (hWired : Wired sched.lists)
    (hOwners : sched.lists.list p = some (.wait ata) → s.sched.lists.list p = some (.wait ata))
    (hCurrent : ∀ c, sched.current = some c → sched.lists.list c = none)
    (hPreempt : sched.allowPreempt = s.sched.allowPreempt) :
    DiskState.Inv ata p { s with sched := sched } := by
  refine ⟨hWired, fun c hc => .inl (hCurrent c hc), hPreempt.trans h.preempt, ?_, h.issued,
    fun hw => h.waiting (hOwners hw)⟩
  intro hOut hSwitched
  rcases hOther with hpc | hne
  · exact absurd hpc hOut
  · exact absurd (h.reading hOut hSwitched) hne

omit [DecidableEq P] [DecidableEq Q] in
/-- Such a process is in no list. -/
theorem unlinked_other (h : s.Inv ata p)
    (hOther : s.pc = .out ∨ s.sched.current ≠ some p) {c : P} (hc : s.sched.current = some c) :
    s.sched.lists.list c = none := by
  rcases h.unlinked c hc with hNone | ⟨rfl, hQueued⟩
  · exact hNone
  · rcases hOther with hpc | hne
    · rw [hQueued] at hpc
      cases hpc
    · exact absurd hc hne

/-- **Step lemma**, everybody else. -/
theorem other (h : s.Inv ata p) {sched : Sched P Q} {op : SchedOp Q} (hWait : op ≠ .wait ata)
    (hOther : s.pc = .out ∨ s.sched.current ≠ some p ∨ op.FromInterrupt)
    (hs : SchedStep s.sched op sched) : DiskState.Inv ata p { s with sched := sched } := by
  have hOther' : ¬ op.FromInterrupt → s.pc = .out ∨ s.sched.current ≠ some p := by
    intro hNot
    rcases hOther with hOut | hne | hFrom
    · exact .inl hOut
    · exact .inr hne
    · exact absurd hFrom hNot
  -- giving up the processor from a state in which the ATA queue is the same
  have hSwitch : ∀ st (b : Sched P Q), ¬ op.FromInterrupt → Wired b.lists →
      (b.lists.list p = some (.wait ata) → s.sched.lists.list p = some (.wait ata)) →
      (st = .ready → ∀ c, b.current = some c → b.lists.list c = none) →
      b.allowPreempt = s.sched.allowPreempt →
      DiskState.Inv ata p { s with sched := b.processSwitch st } := by
    intro st b hNot hb hAta hc hPreempt
    obtain ⟨hWired, hOwners, hCurrent⟩ := Sched.processSwitch_owners st hb hc
    exact h.leaves (hOther' hNot) hWired (fun hp => hAta (hOwners p ata hp)) hCurrent
      ((b.processSwitch_allowPreempt st).trans hPreempt)
  cases op with
  | yield =>
    rw [show sched = s.sched.processSwitch .ready from hs.2]
    have hNot : ¬ (SchedOp.yield : SchedOp Q).FromInterrupt := id
    exact hSwitch .ready s.sched hNot h.wired id
      (fun _ c hc => h.unlinked_other (hOther' hNot) hc) rfl
  | preempt =>
    have hSame : sched = s.sched := by
      rw [show sched = s.sched.processPreempt from hs, Sched.processPreempt,
        if_neg (by simp [h.preempt])]
    rw [hSame]
    exact h
  | exit code =>
    obtain ⟨c, hc, hEq⟩ := Option.bind_eq_some_iff.mp hs.2
    obtain rfl := Option.some.inj hEq
    exact hSwitch .grave { s.sched with exitcode := Function.update s.sched.exitcode c code } id
      h.wired id
      (by simp) rfl
  | wait q =>
    obtain ⟨c, hc, hEq⟩ := Option.bind_eq_some_iff.mp hs.2
    obtain rfl := Option.some.inj hEq
    obtain ⟨hWired, hOwners⟩ := h.wired.pushTail (h.unlinked_other (hOther' id) hc) (.wait q)
    refine hSwitch .blocked { s.sched with lists := s.sched.lists.listPushTail (.wait q) c }
      id hWired ?_
      (by simp) rfl
    intro hp
    rw [hOwners] at hp
    by_cases hpc : p = c
    · rw [hpc, Function.update_self] at hp
      simp only [Option.some.injEq, QueueId.wait.injEq] at hp
      exact absurd (by rw [hp]) hWait
    · rwa [Function.update_of_ne hpc] at hp
  | wakeup q =>
    rw [show sched = s.sched.processWakeup (.wait q) from hs]
    exact h.wakes (Sched.processWakeup_owners h.wired q)
  | wakeupAll q =>
    obtain ⟨fuel, hRun⟩ := hs
    exact h.wakes (Sched.processWakeupAll_owners h.wired hRun).1
  | idleLoop =>
    obtain ⟨hWired, hOwners, hCurrent⟩ := Sched.dispatch_owners h.wired
    rw [show sched = s.sched.dispatch from hs.2]
    refine h.leaves (hOther' id) hWired ?_ hCurrent s.sched.dispatch_allowPreempt
    intro hp
    rcases hOwners p with hSame | hNone
    · rwa [hSame] at hp
    · rw [hNone] at hp
      cases hp

/-- **Step lemma.** -/
theorem step (h : s.Inv ata p) {s' : DiskState P Q}
    (hs : DiskStep kind ata p (DiskState.Waits ata p) s s') : s'.Inv ata p := by
  cases hs with
  | statement go hc _ => exact h.statement hc go
  | interrupt fuel hWaits _ hRun => exact h.interrupt hWaits hRun
  | other hWait _ _ hOther hStep => exact h.other hWait hOther hStep

theorem of_init (hs : (diskSystem kind ata p (DiskState.Waits ata p)).init s) : s.Inv ata p := by
  obtain ⟨hSched, hPreempt, hpc, -, -⟩ := hs
  obtain ⟨rs, pri, hRef⟩ := hSched.lists
  refine ⟨⟨_, hRef⟩, fun c hc => .inl (hSched.current c hc).2, hPreempt,
    fun hOut => absurd hpc hOut, ?_, ?_⟩
  · rw [hpc]
    simp
  · intro hw
    have hMem := (hRef.owner p (.wait ata)).mp hw
    simp at hMem

end DiskState.Inv

/-- **No lost wakeup.** In every run in which each completion interrupt finds the
requester on the ATA queue, the requester is never blocked on that queue without
an interrupt outstanding. -/
theorem no_lost_wakeup (kind : DiskKind) (ata : Q) (p : P) (s : DiskState P Q)
    (hs : Reachable (diskSystem kind ata p (DiskState.Waits ata p)) s) : ¬ s.LostWakeup ata p := by
  have h : s.Inv ata p := by
    refine Reachable.invariant (I := fun s => s.Inv ata p) ?_ ?_ hs
    · intro s hInit
      exact DiskState.Inv.of_init hInit
    · intro s s' _ h hStep
      exact h.step hStep
  rintro ⟨-, hWaits, hNone⟩
  have := (h.waiting hWaits).1
  omega

/-- One process, running, outside of a read. -/
def oneRequester : DiskState (Fin 1) Unit where
  sched :=
    { current := some 0, lists := .init, state := fun _ => .running, exitcode := fun _ => 0,
      allowPreempt := 0, idle := false }
  pc := .out
  outstanding := 0
  interruptActive := 1

theorem oneRequester_init (kind : DiskKind) (When : DiskState (Fin 1) Unit → Prop) :
    (diskSystem kind () 0 When).init oneRequester := by
  refine ⟨⟨⟨[], fun _ => 0, ?_⟩, by decide, by decide, by decide, rfl⟩, rfl, rfl,
    rfl, by decide⟩
  rw [Function.update_eq_self]
  exact Refines.init (m := .init) (fun _ => rfl) (fun _ => rfl) (fun _ => rfl)

/-- The requester after it has issued the command or the packet. -/
theorem oneRequester_issued (kind : DiskKind) (When : DiskState (Fin 1) Unit → Prop) :
    Reachable (diskSystem kind () 0 When)
      { oneRequester with pc := .issued, outstanding := 1 } := by
  have hBegin : Reachable (diskSystem kind () 0 When) { oneRequester with pc := .begin } :=
    .step (.init (oneRequester_init kind When)) (.statement true rfl rfl)
  cases kind with
  | ata => exact .step hBegin (.statement true rfl rfl)
  | atapi => exact .step (.step hBegin (.statement true rfl rfl)) (.statement true rfl rfl)

/-- The requester after it has blocked, `k` interrupts being outstanding. -/
def oneBlocked (k : Nat) : DiskState (Fin 1) Unit :=
  { oneRequester with
    sched := ({ oneRequester.sched with
        lists := oneRequester.sched.lists.listPushTail (.wait ()) 0 } :
      Sched (Fin 1) Unit).processSwitch .blocked
    pc := .switched, outstanding := k }

theorem oneRequester_blocks {kind : DiskKind} {When : DiskState (Fin 1) Unit → Prop} {k : Nat}
    (h : Reachable (diskSystem kind () 0 When)
      { oneRequester with pc := .issued, outstanding := k }) :
    Reachable (diskSystem kind () 0 When) (oneBlocked k) :=
  .step (.step (.step h (.statement true rfl rfl)) (.statement true rfl rfl))
    (.statement true rfl rfl)

/-- The interrupt comes after the requester has blocked. -/
theorem no_lost_wakeup_after_block :
    ∃ s, Reachable (diskSystem .ata () 0 (DiskState.Waits () 0)) s ∧
      s.sched.state (0 : Fin 1) = .blocked ∧ s.Waits () 0 ∧ ¬ s.LostWakeup () 0 := by
  have hReach := oneRequester_blocks (oneRequester_issued .ata (DiskState.Waits () 0))
  exact ⟨_,
    hReach, by decide, by unfold DiskState.Waits; decide, no_lost_wakeup .ata () 0 _ hReach⟩

/-- The interrupt comes between the writing of the command (of the packet) and
the test: it finds the queue empty, and the requester then blocks for good. -/
theorem interrupt_before_wait_is_lost :
    (∃ s, Reachable (diskSystem .ata () 0 fun _ => True) s ∧ s.LostWakeup () (0 : Fin 1)) ∧
      ∃ s, Reachable (diskSystem .atapi () 0 fun _ => True) s ∧
        s.LostWakeup () (0 : Fin 1) := by
  have hLost : ∀ kind : DiskKind,
      Reachable (diskSystem kind () 0 fun _ => True) (oneBlocked 0) := by
    intro kind
    have hInterrupt : Reachable (diskSystem kind () 0 fun _ => True)
        { oneRequester with pc := .issued, outstanding := 0 } :=
      .step (oneRequester_issued kind _) (.interrupt 1 trivial (by decide) rfl)
    exact oneRequester_blocks hInterrupt
  have hBad : (oneBlocked 0).LostWakeup () 0 := by
    unfold DiskState.LostWakeup DiskState.Waits
    decide
  exact ⟨⟨_, hLost .ata, hBad⟩, ⟨_, hLost .atapi, hBad⟩⟩

end Hexos
