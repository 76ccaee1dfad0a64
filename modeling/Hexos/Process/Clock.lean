import Hexos.Clock.Definitions
import Hexos.Process.Invariant

/-!
# HexOS — waiting for the clock

`kernel/kernel/clock.c`. `clock_wait` calls `process_wait` with interrupts enabled:
after its `list_push_tail` the caller is on the queue of the clock and still
running, until `process_switch` disables interrupts. `clock_interrupt` wakes
everyone on that queue, whether blocked or not.

A process of the model is between the two statements while `inWait` is set for it.
The clock interrupt may come before and after every statement, and while the
processor idles; the other operations of the scheduler are atomic.

## Results

* `ClockState.Inv.step` — the step lemma.
* `clock_wait_invariant` — the invariant of the lists in every run in which no
  interrupt comes between the two statements.
-/

namespace Hexos

open Transition

variable {P Q : Type} [DecidableEq P] [DecidableEq Q]

/-- The scheduler, `clicks`, and the processes that are inside of the
`process_wait` of `clock_wait`, before its `process_switch`. -/
structure ClockState (P Q : Type) where
  sched  : Sched P Q
  clicks : Nat
  inWait : P → Bool

namespace ClockState

/-- The current process is between the two statements of `process_wait`. -/
def InWindow (s : ClockState P Q) : Prop := ∃ p, s.sched.current = some p ∧ s.inWait p = true

/-- `clock_interrupt`; `fuel` bounds the rounds of `process_wakeup_all`. -/
def clockInterrupt (clock : Q) (fuel : Nat) (s : ClockState P Q) : Option (ClockState P Q) :=
  let clicks := (s.clicks + 1) % 2 ^ 32
  (s.sched.processWakeupAll (.wait clock) fuel).map fun sched =>
    if clicks ≥ clicksPerSecond then { s with sched := sched.processPreempt, clicks := 0 }
    else { s with sched := sched, clicks := clicks }

/-- The clicks are counted as `ClockVars.interrupt` counts them. -/
theorem clockInterrupt_clicks {clock : Q} {fuel : Nat} {s s' : ClockState P Q}
    (h : s.clockInterrupt clock fuel = some s') (seconds : Nat) :
    s'.clicks = (ClockVars.interrupt ⟨seconds, s.clicks⟩).clicks := by
  obtain ⟨sched, -, rfl⟩ := Option.map_eq_some_iff.mp h
  simp only [ClockVars.interrupt]
  split
  · rfl
  · rfl

end ClockState

/-- A step: one of the two statements of `process_wait`, the interrupt in a state
of `When`, or another operation of the scheduler. -/
inductive ClockStep (clock : Q) (When : ClockState P Q → Prop) :
    ClockState P Q → ClockState P Q → Prop
  | push {s : ClockState P Q} {p : P} :
      s.sched.current = some p → s.sched.idle = false → s.inWait p = false →
      ClockStep clock When s
        { s with
          sched := { s.sched with lists := s.sched.lists.listPushTail (.wait clock) p }
          inWait := Function.update s.inWait p true }
  | switch {s : ClockState P Q} {p : P} : s.sched.current = some p → s.inWait p = true →
      ClockStep clock When s
        { s with
          sched := s.sched.processSwitch .blocked
          inWait := Function.update s.inWait p false }
  | interrupt {s s' : ClockState P Q} (fuel : Nat) :
      When s → s.clockInterrupt clock fuel = some s' →
      ClockStep clock When s s'
  | other {s : ClockState P Q} {sched : Sched P Q} {op : SchedOp Q} :
      ¬ s.InWindow → SchedStep s.sched op sched →
      ClockStep clock When s { s with sched := sched }

/-- All runs in which nobody waits for the clock at the start, with the interrupt
in states of `When` only. -/
def clockSystem (clock : Q) (When : ClockState P Q → Prop) : System (ClockState P Q) where
  init s := s.sched.Init ∧ ∀ p, s.inWait p = false
  step := ClockStep clock When

-- ---------------------------------------------------------------------------
-- The invariant
-- ---------------------------------------------------------------------------

/-- The scheduler is in a state with the invariant, or the current process has been
put on the queue of the clock in such a state and has not left the processor yet. -/
def ClockState.Inv (clock : Q) (s : ClockState P Q) : Prop :=
  ∃ a : AbsSched P Q, a.Inv ∧
    (s.sched.Abstracts a ∧ (∀ p, s.inWait p = false) ∨
      ∃ p, a.current = some p ∧ s.inWait = Function.update (fun _ => false) p true ∧
        s.sched.Abstracts (a.setQueue (.wait clock) (a.queue (.wait clock) ++ [p])))

namespace ClockState.Inv

variable {s s' : ClockState P Q} {clock : Q}

/-- Outside of the window the scheduler has its invariant. -/
theorem outside (h : s.Inv clock) (hOut : ¬ s.InWindow) :
    ∃ a, s.sched.Abstracts a ∧ a.Inv ∧ ∀ p, s.inWait p = false := by
  obtain ⟨a, hInv, ⟨hAbs, hNobody⟩ | ⟨p, hCurrent, hWait, hAbs⟩⟩ := h
  · exact ⟨a, hAbs, hInv, hNobody⟩
  · refine absurd ⟨p, hAbs.current.trans hCurrent, ?_⟩ hOut
    rw [hWait, Function.update_self]

/-- An operation outside of the window. -/
theorem sched_step {sched : Sched P Q} (op : SchedOp Q) (h : s.Inv clock) (hOut : ¬ s.InWindow)
    (hStep : SchedStep s.sched op sched) (clicks : Nat) :
    ClockState.Inv clock { s with sched := sched, clicks := clicks } := by
  obtain ⟨a, hAbs, hInv, hNobody⟩ := h.outside hOut
  exact ⟨a.step op, hInv.step op (hStep.idle_current hAbs hInv),
    .inl ⟨hStep.abstracts hAbs hInv, hNobody⟩⟩

/-- The interrupt outside of the window. -/
theorem interrupt (h : s.Inv clock) (hOut : ¬ s.InWindow) {fuel : Nat}
    (hRun : s.clockInterrupt clock fuel = some s') : s'.Inv clock := by
  obtain ⟨sched, hWake, rfl⟩ := Option.map_eq_some_iff.mp hRun
  have hWoken : ClockState.Inv clock { s with sched := sched, clicks := s.clicks } :=
    h.sched_step (.wakeupAll clock) hOut ⟨fuel, hWake⟩ s.clicks
  obtain ⟨-, -, -, hNobody⟩ := h.outside hOut
  by_cases hSecond : (s.clicks + 1) % 2 ^ 32 ≥ clicksPerSecond
  · rw [if_pos hSecond]
    refine hWoken.sched_step .preempt ?_ rfl 0
    rintro ⟨p, -, hp⟩
    exact absurd ((hNobody p).symm.trans hp) Bool.false_ne_true
  · rw [if_neg hSecond]
    exact h.sched_step (.wakeupAll clock) hOut ⟨fuel, hWake⟩ _

/-- The first statement of `process_wait` opens the window. -/
theorem push {p : P} (h : s.Inv clock) (hCurrent : s.sched.current = some p)
    (hOut : s.inWait p = false) :
    ClockState.Inv clock { s with
      sched := { s.sched with lists := s.sched.lists.listPushTail (.wait clock) p }
      inWait := Function.update s.inWait p true } := by
  have hNot : ¬ s.InWindow := by
    rintro ⟨x, hx, hWait⟩
    obtain rfl := Option.some.inj (hCurrent.symm.trans hx)
    exact absurd (hOut.symm.trans hWait) Bool.false_ne_true
  obtain ⟨a, hAbs, hInv, hNobody⟩ := h.outside hNot
  have hCurrent' : a.current = some p := hAbs.current ▸ hCurrent
  refine ⟨a, hInv, .inr ⟨p, hCurrent', ?_, hAbs.pushTail (hInv.current p hCurrent').2 _⟩⟩
  rw [show s.inWait = fun _ => false from funext hNobody]

/-- The second one closes it: together they are the `process_wait` of the
scheduler. -/
theorem switch {p : P} (h : s.Inv clock) (hCurrent : s.sched.current = some p)
    (hWait : s.inWait p = true) :
    ClockState.Inv clock { s with
      sched := s.sched.processSwitch .blocked
      inWait := Function.update s.inWait p false } := by
  obtain ⟨a, hInv, ⟨-, hNobody⟩ | ⟨x, hx, hInWait, hAbs⟩⟩ := h
  · exact absurd ((hNobody p).symm.trans hWait) Bool.false_ne_true
  · obtain rfl : x = p := Option.some.inj (hx.symm.trans (hAbs.current.symm.trans hCurrent))
    refine ⟨a.step (.wait clock), hInv.step _ (fun hc => by cases hc), .inl ⟨?_, ?_⟩⟩
    · rw [AbsSched.step, AbsSched.wait, hx]
      exact hAbs.processSwitch (by simp)
    · intro y
      show Function.update s.inWait x false y = false
      rw [hInWait, Function.update_idem]
      by_cases hy : y = x
      · rw [hy, Function.update_self]
      · rw [Function.update_of_ne hy]

/-- **Step lemma.** -/
theorem step (h : s.Inv clock) (hs : ClockStep clock (fun s => ¬ s.InWindow) s s') :
    s'.Inv clock := by
  cases hs with
  | push hCurrent _ hOut => exact h.push hCurrent hOut
  | switch hCurrent hWait => exact h.switch hCurrent hWait
  | interrupt fuel hWhen hRun => exact h.interrupt hWhen hRun
  | other hOut hStep => exact h.sched_step _ hOut hStep s.clicks

theorem of_init {When : ClockState P Q → Prop} (hs : (clockSystem clock When).init s) :
    s.Inv clock := by
  obtain ⟨hSched, hNobody⟩ := hs
  obtain ⟨a, hAbs, hInv⟩ := hSched.abstracts
  exact ⟨a, hInv, .inl ⟨hAbs, hNobody⟩⟩

end ClockState.Inv

-- ---------------------------------------------------------------------------
-- What it says about the lists
-- ---------------------------------------------------------------------------

/-- The lists hold the sequences `v`, and: a process in the ready list is READY, a
BLOCKED process is in exactly one wait queue, and the current process is not in
the ready list. -/
structure Sched.ListsAgree (s : Sched P Q) (v : QueueId Q → List P) : Prop where
  lists   : ∃ pri, Refines s.lists ⟨v, pri⟩
  ready   : ∀ p ∈ v .ready, s.state p = .ready
  blocked : ∀ p, s.state p = .blocked → ∃! q, p ∈ v (.wait q)
  current : ∀ p, s.current = some p → p ∉ v .ready

omit [DecidableEq P] [DecidableEq Q] in
theorem AbsSched.Inv.blocked_unique {a : AbsSched P Q} (h : a.Inv) {p : P}
    (hp : a.state p = .blocked) : a.current ≠ some p ∧ ∃! q, p ∈ a.queue (.wait q) := by
  have hCurrent : a.current ≠ some p := by
    intro hc
    rw [(h.current p hc).1] at hp
    cases hp
  refine ⟨hCurrent, ?_⟩
  by_cases hUnlinked : a.Unlinked p
  · rcases h.others p hCurrent hUnlinked with hState | hState
    · rw [hState] at hp
      cases hp
    · rw [hState] at hp
      cases hp
  · unfold AbsSched.Unlinked at hUnlinked
    push Not at hUnlinked
    obtain ⟨l, hl⟩ := hUnlinked
    cases l with
    | ready =>
      rw [h.linked _ p hl] at hp
      cases hp
    | wait q =>
      refine ⟨q, hl, ?_⟩
      intro q' hq'
      have := h.unique p _ _ hq' hl
      exact QueueId.wait.inj this

theorem ClockState.Inv.listsAgree {s : ClockState P Q} {clock : Q} (h : s.Inv clock) :
    ∃ v, s.sched.ListsAgree v := by
  obtain ⟨a, hInv, ⟨hAbs, -⟩ | ⟨p, hCurrent, -, hAbs⟩⟩ := h
  · refine ⟨a.queue, hAbs.lists, ?_, ?_, ?_⟩
    · intro x hx
      rw [hAbs.state]
      exact hInv.linked .ready x hx
    · intro x hx
      rw [hAbs.state] at hx
      exact (hInv.blocked_unique hx).2
    · intro x hx
      exact (hInv.current x (hAbs.current ▸ hx)).2 .ready
  · -- the current process is on the queue of the clock in addition
    refine ⟨_, hAbs.lists, ?_, ?_, ?_⟩
    · intro x hx
      rw [hAbs.state]
      exact hInv.linked .ready x hx
    · intro x hx
      rw [hAbs.state] at hx
      obtain ⟨hne, q, hq, hOnly⟩ := hInv.blocked_unique hx
      have hMem : ∀ q', x ∈ (a.setQueue (.wait clock) (a.queue (.wait clock) ++ [p])).queue
          (.wait q') ↔
          x ∈ a.queue (.wait q') := by
        intro q'
        by_cases hq' : q' = clock
        · have hxp : x ≠ p := fun hc => hne (hc ▸ hCurrent)
          simp [AbsSched.setQueue, hq', hxp]
        · simp [AbsSched.setQueue, hq']
      exact ⟨q, (hMem q).mpr hq, fun q' hq' => hOnly q' ((hMem q').mp hq')⟩
    · intro x hx
      exact (hInv.current x (hAbs.current ▸ hx)).2 .ready

/-- **Waiting for the clock.** In every run in which no clock interrupt comes between
the two statements of a `process_wait`, in every state reached: a process in the
ready list is READY, a BLOCKED process is in exactly one wait queue, and the
running process is not in the ready list. -/
theorem clock_wait_invariant (clock : Q) (s : ClockState P Q)
    (hs : Reachable (clockSystem clock fun s => ¬ s.InWindow) s) :
    ∃ v, s.sched.ListsAgree v := by
  have h : s.Inv clock := by
    refine Reachable.invariant (I := fun s => s.Inv clock) ?_ ?_ hs
    · intro s hInit
      exact ClockState.Inv.of_init hInit
    · intro s s' _ h hStep
      exact h.step hStep
  exact h.listsAgree

/-- One process, running. -/
def oneClockUser : ClockState (Fin 1) Unit where
  sched :=
    { current := some ⟨0, Nat.one_pos⟩, lists := .init, state := fun _ => .running,
      exitcode := fun _ => 0, allowPreempt := 0, idle := false }
  clicks := 0
  inWait := fun _ => false

theorem oneClockUser_init (When : ClockState (Fin 1) Unit → Prop) :
    (clockSystem () When).init oneClockUser := by
  refine ⟨⟨⟨[], fun _ => 0, ?_⟩, by decide, by decide, by decide, rfl⟩, fun _ => rfl⟩
  rw [Function.update_eq_self]
  exact Refines.init (m := .init) (fun _ => rfl) (fun _ => rfl) (fun _ => rfl)

/-- The process after it has been put on the queue. -/
def oneQueued : ClockState (Fin 1) Unit :=
  { oneClockUser with
    sched := { oneClockUser.sched with
      lists := oneClockUser.sched.lists.listPushTail (.wait ()) ⟨0, Nat.one_pos⟩ }
    inWait := Function.update oneClockUser.inWait ⟨0, Nat.one_pos⟩ true }

theorem oneQueued_reachable (When : ClockState (Fin 1) Unit → Prop) :
    Reachable (clockSystem () When) oneQueued :=
  .step (.init (oneClockUser_init When)) (.push rfl rfl rfl)

/-- The process blocks, and the interrupt wakes it. -/
theorem clock_wait_invariant_after_wakeup :
    ∃ s, Reachable (clockSystem () fun s => ¬ s.InWindow) s ∧
      s.sched.state (0 : Fin 1) = .ready ∧ s.sched.current = none ∧
      ∃ v, s.sched.ListsAgree v := by
  have hBlocked : Reachable (clockSystem () fun s => ¬ s.InWindow)
      { oneQueued with
        sched := oneQueued.sched.processSwitch .blocked
        inWait := Function.update oneQueued.inWait 0 false } :=
    .step (oneQueued_reachable _) (.switch rfl rfl)
  have hWoken : Reachable (clockSystem () fun s => ¬ s.InWindow)
      ((ClockState.clockInterrupt () 2 { oneQueued with
        sched := oneQueued.sched.processSwitch .blocked
        inWait := Function.update oneQueued.inWait 0 false }).get (by decide)) := by
    refine .step hBlocked (.interrupt 2 ?_ (by simp))
    rintro ⟨p, hp, -⟩
    have hNone : (oneQueued.sched.processSwitch .blocked).current = none := by decide
    rw [show (oneQueued.sched.processSwitch .blocked).current = some p from hp] at hNone
    cases hNone
  exact ⟨_, hWoken, by decide, by decide, clock_wait_invariant () _ hWoken⟩

/-- The interrupt comes between the two statements: the running process is in the
ready list. -/
theorem clock_interrupt_wakes_running :
    ∃ s, Reachable (clockSystem () fun _ => True) s ∧ s.sched.current = some (0 : Fin 1) ∧
      ∀ v, ¬ s.sched.ListsAgree v := by
  have hReach : Reachable (clockSystem () fun _ => True)
      ((oneQueued.clockInterrupt () 2).get (by decide)) :=
    .step (oneQueued_reachable _) (.interrupt 2 trivial (by simp))
  refine ⟨_, hReach, by decide, ?_⟩
  intro v hv
  obtain ⟨pri, hRef⟩ := hv.lists
  have hOwner : ((oneQueued.clockInterrupt () 2).get (by decide)).sched.lists.list 0 =
      some .ready := by
    decide
  exact hv.current 0 (by decide) ((hRef.owner 0 .ready).mp hOwner)

end Hexos
