import Hexos.List.Refinement
import Hexos.Process.Abstract

/-!
# HexOS — the scheduler invariant

Every step of `process.c` on linked lists is the step of the abstract
scheduler on sequences (`SchedStep.abstracts`), so the invariant of the
abstract scheduler holds in every reachable state of the code.

## Results

* `SchedStep.abstracts` — the simulation, one case for each operation.
* `Sched.Abstracts.processWakeupAll` — the loop of `process_wakeup_all` ends.
* `scheduler_invariant` — the invariant, and that no step loses or
  duplicates a process, in every reachable state.
-/

namespace Hexos

open Transition

variable {P Q : Type}

/-! ## The simulation relation -/

/-- The state `s` of the code represents the abstract state `a`. -/
structure Sched.Abstracts (s : Sched P Q) (a : AbsSched P Q) : Prop where
  lists        : ∃ pri, Refines s.lists ⟨a.queue, pri⟩
  current      : s.current = a.current
  state        : s.state = a.state
  allowPreempt : s.allowPreempt = a.allowPreempt
  idle         : s.idle = a.idle

namespace Sched.Abstracts

variable {s : Sched P Q} {a : AbsSched P Q}

theorem list_none_iff (h : s.Abstracts a) (p : P) : s.lists.list p = none ↔ a.Unlinked p := by
  obtain ⟨pri, hRef⟩ := h.lists
  exact hRef.list_none_iff p

theorem list_some_iff (h : s.Abstracts a) (p : P) (l : QueueId Q) :
    s.lists.list p = some l ↔ p ∈ a.queue l := by
  obtain ⟨pri, hRef⟩ := h.lists
  exact hRef.owner p l

theorem head_eq (h : s.Abstracts a) (l : QueueId Q) : s.lists.head l = (a.queue l).head? := by
  obtain ⟨pri, hRef⟩ := h.lists
  exact hRef.head l

variable [DecidableEq P] [DecidableEq Q]

omit [DecidableEq Q] in
theorem setState (h : s.Abstracts a) (p : P) (st : ProcState) :
    (s.setState p st).Abstracts (a.setState p st) :=
  ⟨h.lists,
    h.current, by simp [Sched.setState, AbsSched.setState, h.state], h.allowPreempt, h.idle⟩

theorem pushTail (h : s.Abstracts a) {p : P} (hp : a.Unlinked p) (l : QueueId Q) :
    Sched.Abstracts { s with lists := s.lists.listPushTail l p }
      (a.setQueue l (a.queue l ++ [p])) := by
  obtain ⟨pri, hRef⟩ := h.lists
  exact ⟨⟨_, hRef.listPushTail ((hRef.list_none_iff p).mpr hp)⟩, h.current, h.state,
    h.allowPreempt, h.idle⟩

theorem popHead_nil (h : s.Abstracts a) {l : QueueId Q} (hq : a.queue l = []) :
    s.lists.listPopHead l = (s.lists, none) := by
  have hHead := h.head_eq l
  rw [hq] at hHead
  simp [ListMem.listPopHead, hHead]

theorem popHead_cons (h : s.Abstracts a) {l : QueueId Q} {p : P} {ps : List P}
    (hq : a.queue l = p :: ps) :
    ∃ m, s.lists.listPopHead l = (m, some p) ∧
      Sched.Abstracts { s with lists := m } (a.setQueue l ps) := by
  obtain ⟨pri, hRef⟩ := h.lists
  obtain ⟨hMem, hRes⟩ := hRef.listPopHead (l := l)
  simp only [ListSeqs.exec, hq, List.head?_cons, List.tail_cons] at hMem hRes
  exact ⟨(s.lists.listPopHead l).1, by rw [← hRes],
    ⟨_, hMem⟩, h.current, h.state, h.allowPreempt, h.idle⟩

theorem makeReady (h : s.Abstracts a) {p : P} (hp : a.Unlinked p) :
    (s.makeReady p).Abstracts (a.makeReady p) :=
  (h.setState p .ready).pushTail (a := a.setState p .ready) hp .ready

theorem dispatch (h : s.Abstracts a) : s.dispatch.Abstracts a.dispatch := by
  cases hq : a.queue .ready with
  | nil =>
    simp only [Sched.dispatch, h.popHead_nil hq, AbsSched.dispatch, hq]
    exact ⟨h.lists, rfl, h.state, h.allowPreempt, rfl⟩
  | cons p ps =>
    obtain ⟨m, hPop, hm⟩ := h.popHead_cons hq
    simp only [Sched.dispatch, hPop, AbsSched.dispatch, hq]
    exact ⟨hm.lists, rfl, (h.setState p .running).state, h.allowPreempt, rfl⟩

theorem leave (h : s.Abstracts a) {st : ProcState}
    (hp : st = .ready → ∀ p, a.current = some p → a.Unlinked p) :
    (s.leave st).Abstracts (a.leave st) := by
  have hc := h.current
  unfold Sched.leave AbsSched.leave
  cases hcur : a.current with
  | none =>
    rw [hcur] at hc
    simp only [hc]
    refine ⟨h.lists, ?_, h.state, h.allowPreempt, h.idle⟩
    rw [hcur]
  | some p =>
    rw [hcur] at hc
    simp only [hc]
    by_cases hst : st = .ready
    · subst hst
      have hReady := h.makeReady (hp rfl p hcur)
      rw [if_pos rfl, if_pos rfl]
      exact ⟨hReady.lists, rfl, hReady.state, hReady.allowPreempt, hReady.idle⟩
    · have hSet := h.setState p st
      rw [if_neg hst, if_neg hst]
      exact ⟨hSet.lists, rfl, hSet.state, hSet.allowPreempt, hSet.idle⟩

theorem processSwitch (h : s.Abstracts a) {st : ProcState}
    (hp : st = .ready → ∀ p, a.current = some p → a.Unlinked p) :
    (s.processSwitch st).Abstracts (a.switch st) := by
  rw [Sched.processSwitch_eq]
  exact (h.leave hp).dispatch

theorem processPreempt (h : s.Abstracts a) (hInv : a.Inv) :
    s.processPreempt.Abstracts a.preempt := by
  have hIff : (s.allowPreempt ≠ 0 ∧ s.current ≠ none ∧ s.lists.head .ready ≠ none) ↔
      (a.allowPreempt ≠ 0 ∧ a.current ≠ none ∧ a.queue .ready ≠ []) := by
    rw [h.allowPreempt, h.current, h.head_eq, Ne, Ne, Ne, List.head?_eq_none_iff]
  unfold Sched.processPreempt AbsSched.preempt
  by_cases hc : a.allowPreempt ≠ 0 ∧ a.current ≠ none ∧ a.queue .ready ≠ []
  · rw [if_pos hc, if_pos (hIff.mpr hc)]
    exact h.processSwitch fun _ p hp => (hInv.current p hp).2
  · rw [if_neg hc, if_neg (mt hIff.mp hc)]
    exact h

theorem processExit {s' : Sched P Q} (h : s.Abstracts a) {code : Int}
    (hs : s.processExit code = some s') : s'.Abstracts (a.switch .grave) := by
  cases hc : s.current with
  | none => simp [Sched.processExit, hc] at hs
  | some p =>
    simp only [Sched.processExit, hc, Option.bind_eq_bind, Option.bind_some,
      Option.some.injEq] at hs
    subst hs
    have hExit : Sched.Abstracts { s with exitcode := Function.update s.exitcode p code } a :=
      ⟨h.lists, h.current, h.state, h.allowPreempt, h.idle⟩
    rw [hc] at hExit
    exact hExit.processSwitch (by simp)

theorem processWait {s' : Sched P Q} (h : s.Abstracts a) (hInv : a.Inv) {l : QueueId Q}
    (hs : s.processWait l = some s') : s'.Abstracts (a.wait l) := by
  cases hc : s.current with
  | none => simp [Sched.processWait, hc] at hs
  | some p =>
    have hca : a.current = some p := h.current ▸ hc
    simp only [Sched.processWait, hc, Option.bind_eq_bind, Option.bind_some,
      Option.some.injEq] at hs
    subst hs
    simp only [AbsSched.wait, hca]
    have hPush := h.pushTail (hInv.current p hca).2 l
    rw [hc] at hPush
    exact hPush.processSwitch (by simp)

theorem processWakeup (h : s.Abstracts a) (hInv : a.Inv) (q : Q) :
    (s.processWakeup (.wait q)).Abstracts (a.wakeup (.wait q)) := by
  cases hq : a.queue (.wait q) with
  | nil =>
    simp only [Sched.processWakeup, h.popHead_nil hq, AbsSched.wakeup, hq]
    exact h
  | cons p ps =>
    obtain ⟨m, hPop, hm⟩ := h.popHead_cons hq
    simp only [Sched.processWakeup, hPop, AbsSched.wakeup, hq]
    exact hm.makeReady (hInv.unlinked_tail hq)

/-- The loop of `process_wakeup_all` ends, and has then woken all of the
queue: the induction is on the processes still in it. -/
theorem processWakeupAll (h : s.Abstracts a) (hInv : a.Inv) (q : Q) :
    ∃ s', s.processWakeupAll (.wait q) ((a.queue (.wait q)).length + 1) = some s' ∧
      s'.Abstracts (a.wakeupAll (.wait q)) := by
  induction hq : a.queue (.wait q) generalizing s a with
  | nil =>
    refine ⟨s, ?_, by rwa [AbsSched.wakeupAll_nil hq]⟩
    simp [Sched.processWakeupAll, h.popHead_nil hq]
  | cons p ps ih =>
    obtain ⟨m, hPop, -⟩ := h.popHead_cons hq
    have hStep := h.processWakeup hInv q
    have hNext : s.processWakeup (.wait q) = { s with lists := m }.makeReady p := by
      simp [Sched.processWakeup, hPop]
    rw [hNext] at hStep
    obtain ⟨s', hs', hAbs⟩ := ih hStep (hInv.wakeup q)
      (by simp [AbsSched.wakeup, hq, AbsSched.makeReady, AbsSched.setQueue, AbsSched.setState])
    refine ⟨s', ?_, by rwa [AbsSched.wakeupAll_cons hq]⟩
    rw [List.length_cons, Sched.processWakeupAll, hPop]
    exact hs'

end Sched.Abstracts

/-- The loop of `process_wakeup_all` gives the same result with every bound
that is large enough. -/
theorem Sched.processWakeupAll_mono [DecidableEq P] [DecidableEq Q] {s s' : Sched P Q}
    {l : QueueId Q} {n k : Nat} (h : s.processWakeupAll l n = some s') :
    s.processWakeupAll l (n + k) = some s' := by
  induction n generalizing s with
  | zero => simp [processWakeupAll] at h
  | succ n ih =>
    rw [Nat.add_right_comm, processWakeupAll]
    rw [processWakeupAll] at h
    split
    · next m p hPop =>
      rw [hPop] at h
      exact ih h
    · next m hPop =>
      rw [hPop] at h
      exact h

/-- **Simulation.** A step of the code from a state with the invariant is the
abstract step of the same operation. -/
theorem SchedStep.abstracts [DecidableEq P] [DecidableEq Q] {s s' : Sched P Q}
    {a : AbsSched P Q} {op : SchedOp Q} (hs : SchedStep s op s') (h : s.Abstracts a)
    (hInv : a.Inv) : s'.Abstracts (a.step op) := by
  cases op with
  | yield =>
    rw [hs.2]
    exact h.processSwitch fun _ p hp => (hInv.current p hp).2
  | preempt =>
    rw [show s' = s.processPreempt from hs]
    exact h.processPreempt hInv
  | exit code => exact h.processExit hs.2
  | wait q => exact h.processWait hInv hs.2
  | wakeup q =>
    rw [show s' = s.processWakeup (.wait q) from hs]
    exact h.processWakeup hInv q
  | wakeupAll q =>
    obtain ⟨fuel, hf⟩ := hs
    obtain ⟨s₁, hs₁, hAbs⟩ := h.processWakeupAll hInv q
    have h1 := Sched.processWakeupAll_mono (k := (a.queue (.wait q)).length + 1) hf
    have h2 := Sched.processWakeupAll_mono (k := fuel) hs₁
    rw [Nat.add_comm, h1] at h2
    rw [Option.some.inj h2]
    exact hAbs
  | idleLoop =>
    rw [hs.2]
    exact h.dispatch

/-- The processor idles only when no process is current. -/
theorem SchedStep.idle_current [DecidableEq P] [DecidableEq Q] {s s' : Sched P Q}
    {a : AbsSched P Q} {op : SchedOp Q} (hs : SchedStep s op s') (h : s.Abstracts a)
    (hInv : a.Inv) : op = .idleLoop → a.current = none := by
  rintro rfl
  exact hInv.idle (h.idle ▸ hs.1)

/-! ## Runs -/

/-- The states a run may start in: any number of ready processes, at most one
running process, all wait queues empty, every other process not started. -/
structure Sched.Init [DecidableEq Q] (s : Sched P Q) : Prop where
  lists   : ∃ rs pri, Refines s.lists ⟨Function.update (fun _ => []) .ready rs, pri⟩
  current : ∀ p, s.current = some p → s.state p = .running ∧ s.lists.list p = none
  ready   : ∀ p, s.lists.list p = some .ready → s.state p = .ready
  others  : ∀ p, s.current ≠ some p → s.lists.list p = none → s.state p = .cradle
  idle    : s.idle = false

/-- Any interleaving of the scheduler operations. -/
def schedSystem [DecidableEq P] [DecidableEq Q] : System (Sched P Q) where
  init := Sched.Init
  step s s' := ∃ op, SchedStep s op s'

/-- Current pointer, list membership and process states agree. -/
structure Sched.WellScheduled (s : Sched P Q) : Prop where
  current : ∀ p, s.current = some p → s.state p = .running ∧ s.lists.list p = none
  ready   : ∀ p, s.lists.list p = some .ready → s.state p = .ready
  blocked : ∀ p q, s.lists.list p = some (.wait q) → s.state p = .blocked
  others  : ∀ p, s.current ≠ some p → s.lists.list p = none →
              s.state p = .cradle ∨ s.state p = .grave
  lists   : ∃ a, Refines s.lists a

/-- `p` is running or linked in a list. -/
def Sched.Alive (s : Sched P Q) (p : P) : Prop := s.current = some p ∨ s.lists.list p ≠ none

theorem Sched.Abstracts.wellScheduled {s : Sched P Q} {a : AbsSched P Q} (h : s.Abstracts a)
    (hInv : a.Inv) : s.WellScheduled where
  current p hp := by
    rw [h.list_none_iff, h.state]
    exact hInv.current p (h.current ▸ hp)
  ready p hp := by
    rw [h.list_some_iff] at hp
    rw [h.state]
    exact hInv.linked _ p hp
  blocked p q hp := by
    rw [h.list_some_iff] at hp
    rw [h.state]
    exact hInv.linked _ p hp
  others p hp hl := by
    rw [h.list_none_iff] at hl
    rw [h.state]
    exact hInv.others p (h.current ▸ hp) hl
  lists := by
    obtain ⟨pri, hRef⟩ := h.lists
    exact ⟨_, hRef⟩

theorem Sched.Abstracts.alive_iff {s : Sched P Q} {a : AbsSched P Q} (h : s.Abstracts a) (p : P) :
    s.Alive p ↔ a.Alive p := by
  rw [Sched.Alive, AbsSched.Alive, h.current, Ne, h.list_none_iff]

variable [DecidableEq P] [DecidableEq Q]

omit [DecidableEq P] in
/-- The invariant holds when a run starts. -/
theorem Sched.Init.abstracts {s : Sched P Q} (h : s.Init) : ∃ a, s.Abstracts a ∧ a.Inv := by
  obtain ⟨rs, pri, hRef⟩ := h.lists
  refine ⟨⟨s.current, Function.update (fun _ => []) .ready rs, s.state,
    s.allowPreempt, s.idle⟩, ⟨⟨pri, hRef⟩, rfl, rfl, rfl, rfl⟩, ?_⟩
  refine ⟨fun p hp => ⟨(h.current p hp).1, (hRef.list_none_iff p).mp (h.current p hp).2⟩, ?_,
    fun p hp hl => Or.inl (h.others p hp ((hRef.list_none_iff p).mpr hl)), hRef.nodup,
    fun p l l' hl hl' => hRef.list_unique hl hl', fun hi => by simp [h.idle] at hi⟩
  intro l p hp
  cases l with
  | ready => exact h.ready p ((hRef.owner p _).mpr hp)
  | wait q => simp at hp

/-- Every reachable state represents an abstract state with the invariant. -/
theorem reachable_abstracts {s : Sched P Q} (hs : Reachable schedSystem s) :
    ∃ a, s.Abstracts a ∧ a.Inv := by
  refine hs.invariant (fun s (h : s.Init) => h.abstracts) ?_
  rintro s s' - ⟨a, hAbs, hInv⟩ ⟨op, hStep⟩
  exact ⟨a.step op, hStep.abstracts hAbs hInv, hInv.step op (hStep.idle_current hAbs hInv)⟩

/-- **Scheduler invariant.** In every reachable state: `current`, if any, is
RUNNING and linked in no list, every process linked in the ready list is
READY, every process linked in a wait queue is BLOCKED, every other process
is CRADLE or GRAVE, and the lists are well formed with each process in one
list at most. No step loses or duplicates a process: those running or linked
stay the same but for the one that exits. `process_wakeup_all` returns,
appends the whole queue to the ready list in order and leaves it empty. -/
theorem scheduler_invariant (s : Sched P Q) (hs : Reachable schedSystem s) :
    s.WellScheduled ∧
    (∀ op s', SchedStep s op s' →
      ∀ p, s'.Alive p ↔ s.Alive p ∧
        ¬ ((∃ code, op = .exit code) ∧ s.current = some p)) ∧
    (∀ q, (∃ s', SchedStep s (.wakeupAll q) s') ∧
      ∀ s', SchedStep s (.wakeupAll q) s' →
        ∀ v pri, Refines s.lists ⟨v, pri⟩ →
          ∃ pri', Refines s'.lists
            ⟨Function.update (Function.update v (.wait q) []) .ready
              (v .ready ++ v (.wait q)), pri'⟩) := by
  obtain ⟨a, hAbs, hInv⟩ := reachable_abstracts hs
  refine ⟨hAbs.wellScheduled hInv, fun op s' hStep p => ?_, fun q => ⟨?_, ?_⟩⟩
  · rw [(hStep.abstracts hAbs hInv).alive_iff, hAbs.alive_iff, hAbs.current]
    exact AbsSched.alive_step hInv (hStep.idle_current hAbs hInv) p
  · obtain ⟨s', hs', -⟩ := hAbs.processWakeupAll hInv q
    exact ⟨s', _, hs'⟩
  · intro s' hStep v pri hRef
    obtain ⟨pri₀, hRef₀⟩ := hAbs.lists
    have hv : v = a.queue := hRef.seq_unique hRef₀
    rw [hv]
    exact (hStep.abstracts hAbs hInv).lists

/-- Two processes in the ready list, before the first dispatch. -/
def twoReady : Sched (Fin 2) Unit where
  current      := none
  lists        := (ListMem.init.listPushTail .ready 0).listPushTail .ready 1
  state        := fun _ => .ready
  exitcode     := fun _ => 0
  allowPreempt := 0
  idle         := false

theorem twoReady_refines :
    Refines twoReady.lists ⟨Function.update (fun _ => []) .ready [0, 1], fun _ => 0⟩ := by
  have hRef := ((Refines.init (L := QueueId Unit) (N := Fin 2) (m := .init) (fun _ => rfl)
    (fun _ => rfl) (fun _ => rfl)).listPushTail (l := .ready) (n := 0) rfl).listPushTail
    (l := .ready) (n := 1) (by decide)
  convert hRef using 2
  · rfl
  · funext l
    cases l <;> simp [ListSeqs.exec, ListSeqs.set, ListSeqs.setPriority]
  · funext p
    revert p
    decide

theorem twoReady_init : twoReady.Init :=
  ⟨⟨[0, 1], fun _ => 0,
    twoReady_refines⟩, by simp [twoReady], by simp [twoReady], by decide, rfl⟩

/-- Two ready processes: the first is dispatched and blocks on a wait queue,
the second runs. -/
theorem scheduler_invariant_two_processes :
    ∃ s : Sched (Fin 2) Unit, Reachable schedSystem s ∧ s.current = some 1 ∧
      s.state 0 = .blocked ∧ s.lists.list 0 = some (.wait ()) ∧ s.WellScheduled := by
  have hYield : SchedStep twoReady .yield twoReady.processYield := ⟨rfl, rfl⟩
  have hWait : SchedStep twoReady.processYield (.wait ())
      ((twoReady.processYield.processWait (.wait ())).get (by decide)) := ⟨by decide, by simp⟩
  have hReach :
      Reachable schedSystem ((twoReady.processYield.processWait (.wait ())).get (by decide)) :=
    .step (.step (.init twoReady_init) ⟨_, hYield⟩) ⟨_, hWait⟩
  exact ⟨_, hReach, by decide, by decide, by decide, (scheduler_invariant _ hReach).1⟩

end Hexos
