import Hexos.Libc.Printf
import Hexos.List.Local
import Hexos.Process.Invariant

/-!
# HexOS — listing the processes

`kernel/kernel/process.c`. `process_print_all` takes every process off the list with
`list_pop_head` to print it, as `process_wakeup_all` does to wake it, and puts none of
them back. The command `top` of the shell lists `ready_list` this way.

A process that was ready is then on no list with its state still READY. No operation
of the scheduler finds it again: none of them looks at the state of a process, so a run
from there is a run in which the process had exited (`Sched.SameButState`).

## Results

* `processPrintAll_of_popAll` — what is printed, and what is left.
* `not_schedulable_of_top` — a process that `top` printed never runs again.
-/

namespace Hexos

open Transition

variable {P Q : Type}

/-- The value of a `PROCESS_STATE_` constant. -/
def ProcState.value : ProcState → Nat
  | .cradle => 0
  | .ready => 1
  | .running => 2
  | .blocked => 3
  | .grave => 4

/-- The format of `process_print_all`. -/
def processFormat : List UInt8 := ascii "%s (state: %d)\n"

/-- The memory that `process_print_all` prints from: the address of its format, the
`name` of every process, and the string there. -/
structure ProcNames (P : Type) where
  mem      : Mem
  format   : Nat
  name     : P → Nat
  text     : P → List UInt8
  formatAt : StringAt mem format processFormat
  nameAt   : ∀ p, StringAt mem (name p) (text p)
  nonzero  : ∀ p, 0 ∉ text p

section

variable [DecidableEq P] [DecidableEq Q]

/-- The loop of `process_print_all` from the state `s`, with the text it prints; `fuel`
bounds the loops of `printf`. -/
def processPrintLoop (names : ProcNames P) (fuel : Nat) (q : QueueId Q) :
    Nat → Sched P Q → Outcome (Sched P Q × List UInt8)
  | 0, _ => .running
  | rounds + 1, s =>
    match s.lists.listPopHead q with
    | (m, some p) =>
      (printf fuel names.mem names.format [names.name p, (s.state p).value]).bind fun r =>
      (processPrintLoop names fuel q rounds { s with lists := m }).map fun (s, out) =>
        (s, r.out ++ out)
    | (m, none) => .done ({ s with lists := m }, [])

/-- `process_print_all`. -/
def processPrintAll (names : ProcNames P) (fuel : Nat) (s : Sched P Q) (q : QueueId Q) :
    Outcome (Sched P Q × List UInt8) :=
  processPrintLoop names fuel q fuel s

/-- `process_print_all_ready`, which is the command `top`. -/
def processPrintAllReady (names : ProcNames P) (fuel : Nat) (s : Sched P Q) :
    Outcome (Sched P Q × List UInt8) :=
  processPrintAll names fuel s .ready

end

-- ---------------------------------------------------------------------------
-- What is printed
-- ---------------------------------------------------------------------------

/-- The line of a process. -/
def processLine (text : List UInt8) (state : ProcState) : List UInt8 :=
  text ++ ascii " (state: " ++ UInt8.ofNat (48 + state.value) :: ascii ")\n"

theorem intText_value (state : ProcState) :
    intText state.value = [UInt8.ofNat (48 + state.value)] := by
  cases state <;> rfl

theorem expand_processFormat (text : List UInt8) (state : ProcState) :
    expand false processFormat [.string text, .int state.value] =
      some (processLine text state, []) := by
  have hFormat : processFormat = 37 :: 115 :: (ascii " (state: " ++ 37 :: 100 :: ascii ")\n") := rfl
  have hRun : ∀ c ∈ ascii " (state: ", c ≠ 37 := by
    rw [show ascii " (state: " = [32, 40, 115, 116, 97, 116, 101, 58, 32] from rfl]
    simp
  have hEnd : expand false (ascii ")\n") [] = some (ascii ")\n", []) := rfl
  have hState : expand false (37 :: 100 :: ascii ")\n") [.int state.value] =
      some (UInt8.ofNat (48 + state.value) :: ascii ")\n", []) := by
    rw [expand]
    simp [isConversion, takeArg, PrintfArg.convert, hEnd, intText_value]
  rw [hFormat, expand]
  simp only [ne_eq, not_true_eq_false, if_false]
  rw [if_neg (by decide), if_pos (by decide)]
  simp only [takeArg, PrintfArg.convert, if_true, Option.map_some, Option.bind_some]
  rw [expand_run hRun, hState]
  simp [processLine]

/-- One call of `printf`. -/
theorem printf_processLine (names : ProcNames P) {fuel : Nat} (p : P) (state : ProcState)
    (hFuel : (names.text p).length + 30 ≤ fuel) :
    ∃ r, printf fuel names.mem names.format [names.name p, state.value] = .done r ∧
      r.out = processLine (names.text p) state := by
  have hState : state.value < 2 ^ 32 ∧ intOf state.value = state.value := by
    cases state <;> decide
  have hArgs : List.Forall₂ (PrintfArg.Passes names.mem)
      [.string (names.text p), .int state.value] [names.name p, state.value] :=
    .cons ⟨names.nameAt p, names.nonzero p⟩ (.cons hState .nil)
  have hBound : ∀ text, PrintfArg.string text ∈
      [.string (names.text p), PrintfArg.int state.value] →
      text.length < (names.text p).length + 1 := by
    intro text hText
    obtain rfl : text = names.text p := by simpa using hText
    omega
  have hRoom : processFormat.length + ((names.text p).length + 1) + 14 ≤ fuel := by
    rw [show processFormat.length = 15 from rfl]
    omega
  obtain ⟨r, hRun, hOut, -, -⟩ := printf_done hRoom hBound names.formatAt (by decide) hArgs
    (expand_processFormat (names.text p) state)
  exact ⟨r, hRun, hOut⟩

-- ---------------------------------------------------------------------------
-- The loop
-- ---------------------------------------------------------------------------

/-- The lines of processes that are in the states `state`. -/
def processLines (names : ProcNames P) (state : P → ProcState) (ps : List P) : List UInt8 :=
  ps.flatMap fun p => processLine (names.text p) (state p)

/-- The rounds that are enough to print a list. -/
def printFuel (names : ProcNames P) (ps : List P) : Nat :=
  (ps.map fun p => (names.text p).length + 1).sum + 30

theorem length_lt_printFuel (names : ProcNames P) (ps : List P) :
    ps.length < printFuel names ps := by
  rw [printFuel]
  induction ps with
  | nil => simp
  | cons p ps ih =>
    rw [List.map_cons, List.sum_cons, List.length_cons]
    omega

section

variable [DecidableEq P] [DecidableEq Q] {names : ProcNames P} {q : QueueId Q}

/-- **The loop** prints what the calls of `list_pop_head` return, and does nothing
else. -/
theorem processPrintLoop_of_popAll {fuel rounds : Nat} {s : Sched P Q} {m : ListMem (QueueId Q) P}
    {ps : List P} (hPop : s.lists.popAll q rounds = some (m, ps))
    (hFuel : printFuel names ps ≤ fuel) :
    processPrintLoop names fuel q rounds s =
      .done ({ s with lists := m }, processLines names s.state ps) := by
  induction rounds generalizing s ps with
  | zero => exact absurd hPop (by simp [ListMem.popAll])
  | succ rounds ih =>
    rw [ListMem.popAll] at hPop
    rw [processPrintLoop]
    cases hHead : s.lists.listPopHead q with
    | mk m' r =>
      rw [hHead] at hPop
      cases r with
      | none =>
        cases hPop
        rfl
      | some p =>
        obtain ⟨⟨m'', ps'⟩, hRest, hEq⟩ := Option.map_eq_some_iff.mp hPop
        cases hEq
        simp only [printFuel, List.map_cons, List.sum_cons] at hFuel
        obtain ⟨r, hRun, hOut⟩ := printf_processLine names p (s.state p)
          (show (names.text p).length + 30 ≤ fuel by omega)
        have hLoop := ih (s := { s with lists := m' }) hRest (by rw [printFuel]; omega)
        simp only at hLoop ⊢
        rw [hRun, hLoop]
        simp [processLines, hOut]

/-- **process_print_all.** -/
theorem processPrintAll_of_popAll {fuel : Nat} {s : Sched P Q} {m : ListMem (QueueId Q) P}
    {ps : List P} (hPop : s.lists.popAll q fuel = some (m, ps))
    (hFuel : printFuel names ps ≤ fuel) :
    processPrintAll names fuel s q = .done ({ s with lists := m }, processLines names s.state ps) :=
  processPrintLoop_of_popAll hPop hFuel

end

-- ---------------------------------------------------------------------------
-- The states of the processes do not matter
-- ---------------------------------------------------------------------------

namespace Sched

/-- The two schedulers differ in the states of processes only. -/
def SameButState (s t : Sched P Q) : Prop := ∃ state, t = { s with state := state }

namespace SameButState

variable {s s' t : Sched P Q}

theorem setLists (h : s.SameButState t) (m : ListMem (QueueId Q) P) :
    SameButState { s with lists := m } { t with lists := m } := by
  obtain ⟨state, rfl⟩ := h
  exact ⟨state, rfl⟩

theorem lists_eq (h : s.SameButState t) : t.lists = s.lists := by
  obtain ⟨state, rfl⟩ := h
  rfl

theorem current_eq (h : s.SameButState t) : t.current = s.current := by
  obtain ⟨state, rfl⟩ := h
  rfl

variable [DecidableEq P] [DecidableEq Q] {q : QueueId Q}

theorem dispatch (h : s.SameButState t) : s.dispatch.SameButState t.dispatch := by
  obtain ⟨state, rfl⟩ := h
  unfold Sched.dispatch
  simp only
  cases s.lists.listPopHead .ready with
  | mk m r =>
    cases r with
    | none => exact ⟨state, rfl⟩
    | some p => exact ⟨Function.update state p .running, rfl⟩

theorem leave (h : s.SameButState t) (newstate : ProcState) :
    (s.leave newstate).SameButState (t.leave newstate) := by
  obtain ⟨state, rfl⟩ := h
  unfold Sched.leave
  simp only
  cases s.current with
  | none => exact ⟨state, rfl⟩
  | some p =>
    refine ⟨Function.update state p newstate, ?_⟩
    by_cases hReady : newstate = .ready
    · simp [hReady, Sched.setState]
    · simp [hReady, Sched.setState]

theorem processSwitch (h : s.SameButState t) (newstate : ProcState) :
    (s.processSwitch newstate).SameButState (t.processSwitch newstate) := by
  rw [processSwitch_eq, processSwitch_eq]
  exact (h.leave newstate).dispatch

theorem processPreempt (h : s.SameButState t) : s.processPreempt.SameButState t.processPreempt := by
  have hAllow : t.allowPreempt = s.allowPreempt := by
    obtain ⟨state, rfl⟩ := h
    rfl
  rw [Sched.processPreempt, Sched.processPreempt, hAllow, h.current_eq, h.lists_eq]
  split
  · exact h.processSwitch .ready
  · exact h

theorem processExit {code : Int} (h : s.SameButState t) (hExit : s.processExit code = some s') :
    ∃ t', t.processExit code = some t' ∧ s'.SameButState t' := by
  cases hc : s.current with
  | none => exact absurd hExit (by simp [Sched.processExit, hc])
  | some p =>
    have hEq : ∀ u : Sched P Q, u.current = some p → u.processExit code =
        some ({ u with exitcode := Function.update u.exitcode p code }.processSwitch .grave) := by
      intro u hu
      simp [Sched.processExit, hu]
    rw [hEq s hc] at hExit
    cases hExit
    refine ⟨_, hEq t (h.current_eq.trans hc), ?_⟩
    obtain ⟨state, rfl⟩ := h
    exact processSwitch ⟨state, rfl⟩ .grave

theorem processWait (h : s.SameButState t) (hWait : s.processWait q = some s') :
    ∃ t', t.processWait q = some t' ∧ s'.SameButState t' := by
  cases hc : s.current with
  | none => exact absurd hWait (by simp [Sched.processWait, hc])
  | some p =>
    have hEq : ∀ u : Sched P Q, u.current = some p → u.processWait q =
        some ({ u with lists := u.lists.listPushTail q p }.processSwitch .blocked) := by
      intro u hu
      simp [Sched.processWait, hu]
    rw [hEq s hc] at hWait
    cases hWait
    refine ⟨_, hEq t (h.current_eq.trans hc), ?_⟩
    obtain ⟨state, rfl⟩ := h
    exact processSwitch ⟨state, rfl⟩ .blocked

theorem makeReady (h : s.SameButState t) (p : P) :
    (s.makeReady p).SameButState (t.makeReady p) := by
  obtain ⟨state, rfl⟩ := h
  exact ⟨Function.update state p .ready, rfl⟩

theorem processWakeupAll {fuel : Nat} (h : s.SameButState t)
    (hAll : s.processWakeupAll q fuel = some s') :
    ∃ t', t.processWakeupAll q fuel = some t' ∧ s'.SameButState t' := by
  induction fuel generalizing s t with
  | zero => exact absurd hAll (by simp [Sched.processWakeupAll])
  | succ fuel ih =>
    rw [Sched.processWakeupAll] at hAll ⊢
    rw [h.lists_eq]
    cases hPop : s.lists.listPopHead q with
    | mk m r =>
      rw [hPop] at hAll
      cases r with
      | none =>
        cases hAll
        exact ⟨_, rfl, h.setLists m⟩
      | some p => exact ih ((h.setLists m).makeReady p) hAll

/-- **One step** of the one is a step of the other. -/
theorem step {op : SchedOp Q} (h : s.SameButState t) (hStep : SchedStep s op s') :
    ∃ t', SchedStep t op t' ∧ s'.SameButState t' := by
  have hIdle : t.idle = s.idle := by
    obtain ⟨state, rfl⟩ := h
    rfl
  cases op with
  | yield =>
    obtain ⟨hNotIdle, rfl⟩ := hStep
    exact ⟨_, ⟨hIdle.trans hNotIdle, rfl⟩, h.processSwitch .ready⟩
  | preempt =>
    obtain rfl : s' = s.processPreempt := hStep
    exact ⟨_, rfl, h.processPreempt⟩
  | exit code =>
    obtain ⟨hNotIdle, hExit⟩ := hStep
    obtain ⟨t', hExit', hSame⟩ := h.processExit hExit
    exact ⟨t', ⟨hIdle.trans hNotIdle, hExit'⟩, hSame⟩
  | wait q =>
    obtain ⟨hNotIdle, hWait⟩ := hStep
    obtain ⟨t', hWait', hSame⟩ := h.processWait hWait
    exact ⟨t', ⟨hIdle.trans hNotIdle, hWait'⟩, hSame⟩
  | wakeup q =>
    obtain rfl : s' = s.processWakeup (.wait q) := hStep
    refine ⟨_, rfl, ?_⟩
    rw [processWakeup, processWakeup, h.lists_eq]
    cases s.lists.listPopHead (.wait q) with
    | mk m r =>
      cases r with
      | none => exact h.setLists m
      | some p => exact (h.setLists m).makeReady p
  | wakeupAll q =>
    obtain ⟨fuel, hAll⟩ := hStep
    obtain ⟨t', hAll', hSame⟩ := h.processWakeupAll hAll
    exact ⟨t', ⟨fuel, hAll'⟩, hSame⟩
  | idleLoop =>
    obtain ⟨hWaiting, rfl⟩ := hStep
    exact ⟨_, ⟨hIdle.trans hWaiting, rfl⟩, h.dispatch⟩

end SameButState

end Sched

-- ---------------------------------------------------------------------------
-- A process that is on no list
-- ---------------------------------------------------------------------------

variable [DecidableEq P] [DecidableEq Q]

/-- The scheduler is as if `p` had exited. -/
def Sched.Lost (s : Sched P Q) (p : P) : Prop :=
  ∃ t a, s.SameButState t ∧ t.Abstracts a ∧ a.Inv ∧ ¬ a.Alive p

/-- Some run from `s` dispatches `p`. -/
def Sched.Schedulable (s : Sched P Q) (p : P) : Prop :=
  ∃ s', Relation.ReflTransGen schedSystem.step s s' ∧ s'.current = some p

/-- The step lemma. -/
theorem Sched.Lost.step {s s' : Sched P Q} {p : P} (h : s.Lost p) (hStep : schedSystem.step s s') :
    s'.Lost p := by
  obtain ⟨t, a, hSame, hAbs, hInv, hDead⟩ := h
  obtain ⟨op, hOp⟩ := hStep
  obtain ⟨t', hOp', hSame'⟩ := hSame.step hOp
  have hIdle := hOp'.idle_current hAbs hInv
  refine ⟨t', a.step op, hSame', hOp'.abstracts hAbs hInv, hInv.step op hIdle, ?_⟩
  intro hAlive
  exact hDead ((AbsSched.alive_step hInv hIdle p).mp hAlive).1

theorem Sched.Lost.run {s s' : Sched P Q} {p : P} (h : s.Lost p)
    (hRun : Relation.ReflTransGen schedSystem.step s s') : s'.Lost p := by
  induction hRun with
  | refl => exact h
  | tail _ hStep ih => exact ih.step hStep

/-- **A process that is lost** never runs again. -/
theorem Sched.Lost.not_schedulable {s : Sched P Q} {p : P} (h : s.Lost p) : ¬ s.Schedulable p := by
  rintro ⟨s', hRun, hCurrent⟩
  obtain ⟨t, a, hSame, hAbs, -, hDead⟩ := h.run hRun
  refine hDead (.inl ?_)
  rw [← hAbs.current, hSame.current_eq, hCurrent]

/-- The ready list is gone, and the processes that were on it count as exited. -/
def AbsSched.dropReady (a : AbsSched P Q) : AbsSched P Q :=
  { a.setQueue .ready [] with state := fun p => if p ∈ a.queue .ready then .grave else a.state p }

theorem AbsSched.mem_dropReady {a : AbsSched P Q} (hInv : a.Inv) {p : P} {l : QueueId Q} :
    p ∈ a.dropReady.queue l ↔ p ∈ a.queue l ∧ p ∉ a.queue .ready := by
  by_cases hl : l = .ready
  · subst hl
    simp [dropReady, setQueue]
  · have hUnique := hInv.unique p l .ready
    simp only [dropReady, setQueue, Function.update_of_ne hl]
    refine ⟨?_, ?_⟩
    · intro hp
      exact ⟨hp, fun hc => hl (hUnique hp hc)⟩
    · exact fun h => h.1

theorem AbsSched.Inv.dropReady {a : AbsSched P Q} (h : a.Inv) : a.dropReady.Inv := by
  refine ⟨?_, ?_, ?_, ?_, ?_, h.idle⟩
  · intro p hp
    obtain ⟨hState, hUnlinked⟩ := h.current p hp
    refine ⟨?_, ?_⟩
    · simp only [AbsSched.dropReady, if_neg (hUnlinked .ready), hState]
    · intro l hc
      exact hUnlinked l ((mem_dropReady h).mp hc).1
  · intro l p hp
    obtain ⟨hp, hNot⟩ := (mem_dropReady h).mp hp
    simp only [AbsSched.dropReady, if_neg hNot, h.linked l p hp]
  · intro p hp hUnlinked
    by_cases hReady : p ∈ a.queue .ready
    · exact .inr (if_pos hReady)
    · have hState : a.dropReady.state p = a.state p := if_neg hReady
      rw [hState]
      refine h.others p hp ?_
      intro l hc
      exact hUnlinked l ((mem_dropReady h).mpr ⟨hc, hReady⟩)
  · intro l
    by_cases hl : l = .ready
    · simp [AbsSched.dropReady, setQueue, hl]
    · simpa [AbsSched.dropReady, setQueue, hl] using h.nodup l
  · intro p l l' hp hp'
    exact h.unique p l l' ((mem_dropReady h).mp hp).1 ((mem_dropReady h).mp hp').1

/-- **Emptying the ready list** loses every process on it. -/
theorem Sched.Abstracts.lost_of_drop {s : Sched P Q} {a : AbsSched P Q} {m : ListMem (QueueId Q) P}
    {pri : P → Int} (h : s.Abstracts a) (hInv : a.Inv) {p : P} (hp : p ∈ a.queue .ready)
    (hRef : Refines m ⟨Function.update a.queue .ready [], pri⟩) :
    Sched.Lost { s with lists := m } p := by
  refine ⟨{ s with lists := m, state := a.dropReady.state }, a.dropReady, ⟨_, rfl⟩,
    ⟨⟨pri, hRef⟩, h.current, rfl, h.allowPreempt, h.idle⟩, hInv.dropReady, ?_⟩
  rintro (hCurrent | hLinked)
  · exact (hInv.current p hCurrent).2 .ready hp
  · refine hLinked ?_
    intro l hc
    exact ((AbsSched.mem_dropReady hInv).mp hc).2 hp

-- ---------------------------------------------------------------------------
-- What listing changes
-- ---------------------------------------------------------------------------

/-- `process_print_all` prints the processes `ps` in their order, one line for each, and
leaves the scheduler as it is: every list, every link and every state. -/
def ListsOnly (names : ProcNames P) (s : Sched P Q) (q : QueueId Q) (ps : List P) : Prop :=
  ∃ fuel₀, ∀ fuel ≥ fuel₀, processPrintAll names fuel s q =
    .done (s, processLines names s.state ps)

/-- After `top`, every process that was ready can still be dispatched. -/
def TopKeepsReady (names : ProcNames P) (s : Sched P Q) : Prop :=
  ∃ fuel₀, ∀ fuel ≥ fuel₀, ∃ s' out, processPrintAllReady names fuel s =
    .done (s', out) ∧
    ∀ p, s.lists.list p = some .ready → s'.Schedulable p

/-- The listing of an empty list. -/
theorem processPrintAll_empty (names : ProcNames P) {s : Sched P Q} {q : QueueId Q}
    (h : s.lists.head q = none) {fuel : Nat} (hFuel : 1 ≤ fuel) :
    processPrintAll names fuel s q = .done (s, []) := by
  obtain ⟨rounds, rfl⟩ : ∃ k, fuel = k + 1 := ⟨fuel - 1, by omega⟩
  have hPop : s.lists.listPopHead q = (s.lists, none) := by
    simp [ListMem.listPopHead, h]
  rw [processPrintAll, processPrintLoop, hPop]

/-- The listing of a well-formed list empties it. -/
theorem processPrintAll_of_holds (names : ProcNames P) {s : Sched P Q} {q : QueueId Q} {ps : List P}
    (h : s.lists.Holds q ps) {fuel : Nat} (hFuel : printFuel names ps ≤ fuel) :
    ∃ m, processPrintAll names fuel s q =
      .done ({ s with lists := m }, processLines names s.state ps) ∧
      m.head q = none := by
  have hLength := length_lt_printFuel names ps
  obtain ⟨m, hPop, hEmpty⟩ := h.popAll (show ps.length < fuel by omega)
  exact ⟨m, processPrintAll_of_popAll hPop hFuel, hEmpty⟩

theorem not_listsOnly (names : ProcNames P) {s : Sched P Q} {q : QueueId Q} {p : P} {ps : List P}
    (h : s.lists.Holds q (p :: ps)) : ¬ ListsOnly names s q (p :: ps) := by
  rintro ⟨fuel₀, hOnly⟩
  obtain ⟨m, hPrint, hEmpty⟩ :=
    processPrintAll_of_holds names h (show _ ≤ fuel₀ + printFuel names (p :: ps) by omega)
  rw [hOnly _ (by omega)] at hPrint
  have hSame : s.lists = m := congrArg (fun r => r.1.lists) (Outcome.done.inj hPrint)
  have hHead := h.head
  rw [hSame, hEmpty] at hHead
  simp at hHead

/-- **top** makes every process that is ready unschedulable. -/
theorem not_schedulable_of_top (names : ProcNames P) {s s' : Sched P Q} {a : AbsSched P Q}
    (h : s.Abstracts a) (hInv : a.Inv) {p : P} (hp : p ∈ a.queue .ready) {fuel : Nat}
    {out : List UInt8} (hFuel : printFuel names (a.queue .ready) ≤ fuel)
    (hTop : processPrintAllReady names fuel s = .done (s', out)) : ¬ s'.Schedulable p := by
  obtain ⟨pri, hRef⟩ := h.lists
  obtain ⟨m, hEmpty, hPops⟩ := hRef.popAll .ready
  have hLength := length_lt_printFuel names (a.queue .ready)
  have hPrint := processPrintAll_of_popAll (hPops fuel (by simpa using by omega)) hFuel
  rw [processPrintAllReady, hPrint] at hTop
  cases hTop
  exact (h.lost_of_drop hInv hp hEmpty).not_schedulable

theorem not_topKeepsReady (names : ProcNames P) {s : Sched P Q}
    (hs : Reachable schedSystem s) {p : P} (hHead : s.lists.head .ready = some p) :
    ¬ TopKeepsReady names s := by
  rintro ⟨fuel₀, hKeeps⟩
  obtain ⟨a, hAbs, hInv⟩ := reachable_abstracts hs
  have hp : p ∈ a.queue .ready := by
    rw [hAbs.head_eq] at hHead
    exact List.mem_of_mem_head? hHead
  obtain ⟨s', out, hTop, hRuns⟩ :=
    hKeeps (fuel₀ + printFuel names (a.queue .ready)) (by omega)
  exact not_schedulable_of_top names hAbs hInv hp (by omega) hTop
    (hRuns p ((hAbs.list_some_iff p .ready).mpr hp))

/-- **Listing processes.** `process_print_all` only prints a list if and only if the list
is empty, and `top` keeps the processes that are ready if and only if there are none. -/
theorem process_print_all_iff (names : ProcNames P) :
    (∀ (s : Sched P Q) (q : QueueId Q) (ps : List P), s.lists.Holds q ps →
      (ListsOnly names s q ps ↔ ps = [])) ∧
    ∀ s : Sched P Q, Reachable schedSystem s →
      (TopKeepsReady names s ↔ s.lists.head .ready = none) := by
  refine ⟨?_, ?_⟩
  · intro s q ps h
    cases ps with
    | nil =>
      exact ⟨fun _ => rfl, fun _ =>
        ⟨1, fun fuel hFuel => processPrintAll_empty names h.head hFuel⟩⟩
    | cons p ps =>
      exact ⟨fun hOnly => absurd hOnly (not_listsOnly names h), fun hNil => by cases hNil⟩
  · intro s hs
    cases hHead : s.lists.head .ready with
    | some p =>
      exact ⟨fun hKeeps => absurd hKeeps (not_topKeepsReady names hs hHead),
        fun hNone => by cases hNone⟩
    | none =>
      refine ⟨fun _ => rfl, fun _ => ⟨1, ?_⟩⟩
      intro fuel hFuel
      refine ⟨s, [], processPrintAll_empty names hHead hFuel, ?_⟩
      -- nobody is ready
      intro p hp
      obtain ⟨a, hAbs, -⟩ := reachable_abstracts hs
      rw [hAbs.list_some_iff] at hp
      rw [hAbs.head_eq, List.head?_eq_none_iff] at hHead
      simp [hHead] at hp

/-- Every process has the name `test`. -/
def testNames : ProcNames (Fin 2) where
  mem      := fun a => (processFormat ++ 0 :: ascii "test").getD a 0
  format   := 0
  name     := fun _ => 16
  text     := fun _ => ascii "test"
  formatAt := by
    unfold StringAt
    decide
  nameAt   := by
    unfold StringAt
    decide
  nonzero  := by decide

/-- A wait queue that nobody is in. -/
theorem process_print_all_nobody : ListsOnly testNames twoReady (.wait ()) [] :=
  ((process_print_all_iff testNames).1 twoReady (.wait ()) []
    (by simpa using twoReady_refines.holds (.wait ()))).mpr rfl

/-- Two processes that are ready, which never run again after `top`. -/
theorem process_print_all_two_ready :
    Reachable schedSystem twoReady ∧ twoReady.lists.Holds .ready [0, 1] ∧
      ¬ ListsOnly testNames twoReady .ready [0, 1] ∧ ¬ TopKeepsReady testNames twoReady := by
  have hHolds : twoReady.lists.Holds .ready [0, 1] := by
    simpa using twoReady_refines.holds .ready
  have hReach : Reachable schedSystem twoReady := .init twoReady_init
  exact ⟨hReach, hHolds, not_listsOnly testNames hHolds,
    not_topKeepsReady testNames hReach hHolds.head⟩

end Hexos
