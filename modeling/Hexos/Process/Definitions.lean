import Hexos.Lib.Transition
import Hexos.List.Definitions

/-!
# HexOS — processes and the scheduler

`kernel/kernel/process.c`: the current process, the ready list, and the
operations that move processes between them and the wait queues. A
`struct process` starts with its `struct list_node`, so a process and its
node are one identifier `P`; the lists are `ready_list` and any number of
wait queues `Q`.

`process_switch` saves the registers of the old process on its stack and
loads those of the new one; this changes no field that a scheduler
operation reads and is left out, as are the texts `process_exit` prints.
-/

namespace Hexos

open Transition

/-- The `PROCESS_STATE_` constants. -/
inductive ProcState where
  | cradle | ready | running | blocked | grave
  deriving DecidableEq, Repr

/-- The `struct list`s that hold processes: `ready_list` or a wait queue. -/
inductive QueueId (Q : Type) where
  | ready
  | wait (q : Q)
  deriving DecidableEq, Repr

/-- The scheduler's globals and the fields of all processes. `idle` is set
while `process_switch` waits in its loop for an interrupt to make a process
ready. -/
structure Sched (P Q : Type) where
  current      : Option P
  lists        : ListMem (QueueId Q) P
  state        : P → ProcState
  exitcode     : P → Int
  allowPreempt : Int
  idle         : Bool

namespace Sched

variable {P Q : Type} [DecidableEq P] [DecidableEq Q]

def setState (s : Sched P Q) (p : P) (st : ProcState) : Sched P Q :=
  { s with state := Function.update s.state p st }

/-- `p->state = PROCESS_STATE_READY; list_push_tail(&ready_list,&p->node);` -/
def makeReady (s : Sched P Q) (p : P) : Sched P Q :=
  let s := s.setState p .ready
  { s with lists := s.lists.listPushTail .ready p }

/-- One round of the `while(1)` loop of `process_switch`: dispatch the head
of the ready list, or stay in the loop with interrupts enabled. -/
def dispatch (s : Sched P Q) : Sched P Q :=
  match s.lists.listPopHead .ready with
  | (m, some p) =>
    { s.setState p .running with lists := m, current := some p, idle := false }
  | (m, none) => { s with lists := m, current := none, idle := true }

/-- `process_switch`. -/
def processSwitch (s : Sched P Q) (newstate : ProcState) : Sched P Q :=
  let s := match s.current with
    | none => s
    | some p =>
      let s := s.setState p newstate
      if newstate = ProcState.ready then { s with lists := s.lists.listPushTail .ready p } else s
  let s := { s with current := none }
  s.dispatch

/-- `process_switch` up to its loop. -/
def leave (s : Sched P Q) (newstate : ProcState) : Sched P Q :=
  let s := match s.current with
    | none => s
    | some p =>
      let s := s.setState p newstate
      if newstate = ProcState.ready then { s with lists := s.lists.listPushTail .ready p } else s
  { s with current := none }

theorem processSwitch_eq (s : Sched P Q) (newstate : ProcState) :
    s.processSwitch newstate = (s.leave newstate).dispatch := rfl

/-- `process_preempt`. -/
def processPreempt (s : Sched P Q) : Sched P Q :=
  if s.allowPreempt ≠ 0 ∧ s.current ≠ none ∧ s.lists.head .ready ≠ none then
    s.processSwitch .ready
  else s

/-- `process_yield`. -/
def processYield (s : Sched P Q) : Sched P Q :=
  s.processSwitch .ready

/-- `process_exit`; `none` if `current` is null. -/
def processExit (s : Sched P Q) (code : Int) : Option (Sched P Q) := do
  let p ← s.current
  let s := { s with exitcode := Function.update s.exitcode p code }
  some (s.processSwitch .grave)

/-- `process_wait`; `none` if `current` is null. -/
def processWait (s : Sched P Q) (q : QueueId Q) : Option (Sched P Q) := do
  let p ← s.current
  let s := { s with lists := s.lists.listPushTail q p }
  some (s.processSwitch .blocked)

/-- `process_wakeup`. -/
def processWakeup (s : Sched P Q) (q : QueueId Q) : Sched P Q :=
  match s.lists.listPopHead q with
  | (m, some p) => { s with lists := m }.makeReady p
  | (m, none) => { s with lists := m }

/-- `process_wakeup_all`, with a bound on the rounds of its loop: `none` if
the loop has not ended by then. -/
def processWakeupAll (s : Sched P Q) (q : QueueId Q) : Nat → Option (Sched P Q)
  | 0 => none
  | fuel + 1 =>
    match s.lists.listPopHead q with
    | (m, some p) => ({ s with lists := m }.makeReady p).processWakeupAll q fuel
    | (m, none) => some { s with lists := m }

end Sched

/-! ## The scheduler as a transition system

Each operation is one atomic step. While the processor is in the loop of
`process_switch`, only interrupt handlers run: they wake processes (or try
to preempt), and the loop then looks at the ready list again. -/

/-- The steps of the scheduler. Operations on a queue take a wait queue. -/
inductive SchedOp (Q : Type) where
  | yield
  | preempt
  | exit (code : Int)
  | wait (q : Q)
  | wakeup (q : Q)
  | wakeupAll (q : Q)
  | idleLoop
  deriving DecidableEq

variable {P Q : Type} [DecidableEq P] [DecidableEq Q]

/-- `s'` is the state after the operation `op` in the state `s`. -/
def SchedStep (s : Sched P Q) : SchedOp Q → Sched P Q → Prop
  | .yield, s' => s.idle = false ∧ s' = s.processYield
  | .preempt, s' => s' = s.processPreempt
  | .exit code, s' => s.idle = false ∧ s.processExit code = some s'
  | .wait q, s' => s.idle = false ∧ s.processWait (.wait q) = some s'
  | .wakeup q, s' => s' = s.processWakeup (.wait q)
  | .wakeupAll q, s' => ∃ fuel, s.processWakeupAll (.wait q) fuel = some s'
  | .idleLoop, s' => s.idle = true ∧ s' = s.dispatch

end Hexos
