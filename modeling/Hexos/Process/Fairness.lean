import Hexos.Process.Invariant

/-!
# HexOS — the order of dispatch

Every operation touches the ready list in two ways only: it appends processes
to its end, and `process_switch` takes its head. What was in the list before a
run, followed by what was appended during it, is therefore what was dispatched
followed by what is in the list after it.

## Results

* `SchedStep.ready_fifo` — the equation for one step.
* `SchedRun.ready_fifo` — the equation for a run.
* `dispatch_in_order` — a process at position `k` is dispatched by the
  `(k+1)`-th dispatch.
-/

namespace Hexos

open Transition

variable {P Q : Type} [DecidableEq P] [DecidableEq Q]

-- ---------------------------------------------------------------------------
-- Dispatches
-- ---------------------------------------------------------------------------

/-- The state in which an operation enters the loop of `process_switch`, if it
calls it. -/
def Sched.enters (s : Sched P Q) : SchedOp Q → Option (Sched P Q)
  | .yield => some (s.leave .ready)
  | .preempt =>
    if s.allowPreempt ≠ 0 ∧ s.current ≠ none ∧ s.lists.head .ready ≠ none then
      some (s.leave .ready)
    else none
  | .exit code =>
    s.current.map fun p => { s with exitcode := Function.update s.exitcode p code }.leave .grave
  | .wait q =>
    s.current.map fun p => { s with lists := s.lists.listPushTail (.wait q) p }.leave .blocked
  | .wakeup _ => none
  | .wakeupAll _ => none
  | .idleLoop => some s

/-- The process that an operation dispatches. -/
def Sched.dispatched (s : Sched P Q) (op : SchedOp Q) : Option P :=
  (s.enters op).bind fun b => (b.lists.listPopHead .ready).2

/-- A run from `s` to `s'`, with the processes it dispatches in their order. -/
inductive SchedRun (s : Sched P Q) : List P → Sched P Q → Prop
  | nil : SchedRun s [] s
  | step {ds : List P} {s' s'' : Sched P Q} {op : SchedOp Q} : SchedRun s ds s' →
      SchedStep s' op s'' → SchedRun s (ds ++ (s'.dispatched op).toList) s''

/-- An operation that enters the loop takes one round of it. -/
theorem SchedStep.eq_dispatch {s s' b : Sched P Q} {op : SchedOp Q} (hs : SchedStep s op s')
    (hb : s.enters op = some b) : s' = b.dispatch := by
  cases op with
  | yield =>
    obtain rfl := Option.some.inj hb
    exact hs.2
  | preempt =>
    rw [Sched.enters] at hb
    split at hb
    · next hc =>
      obtain rfl := Option.some.inj hb
      rw [show s' = s.processPreempt from hs, Sched.processPreempt, if_pos hc]
      rfl
    · cases hb
  | exit code =>
    obtain ⟨p, hp, rfl⟩ := Option.map_eq_some_iff.mp hb
    have hExit := hs.2
    simp only [Sched.processExit, hp, Option.bind_eq_bind, Option.bind_some,
      Option.some.injEq] at hExit
    rw [← hExit, Sched.processSwitch_eq, hp]
  | wait q =>
    obtain ⟨p, hp, rfl⟩ := Option.map_eq_some_iff.mp hb
    have hWait := hs.2
    simp only [Sched.processWait, hp, Option.bind_eq_bind, Option.bind_some,
      Option.some.injEq] at hWait
    rw [← hWait, Sched.processSwitch_eq, hp]
  | wakeup q => cases hb
  | wakeupAll q => cases hb
  | idleLoop =>
    obtain rfl := Option.some.inj hb
    exact hs.2

-- ---------------------------------------------------------------------------
-- The ready list in one step
-- ---------------------------------------------------------------------------

variable {s s' : Sched P Q} {a : AbsSched P Q} {op : SchedOp Q}

omit [DecidableEq P] [DecidableEq Q] in
/-- A state represents one family of queues. -/
theorem Sched.Abstracts.queue_unique {a' : AbsSched P Q} (h : s.Abstracts a) (h' : s.Abstracts a') :
    a.queue = a'.queue := by
  obtain ⟨pri, hRef⟩ := h.lists
  obtain ⟨pri', hRef'⟩ := h'.lists
  exact hRef.seq_unique hRef'

/-- Leaving the processor appends to the ready list, if it changes it at all. -/
theorem AbsSched.leave_ready (a : AbsSched P Q) (st : ProcState) :
    ∃ new, (a.leave st).queue .ready = a.queue .ready ++ new := by
  unfold AbsSched.leave
  split
  · exact ⟨[], by simp⟩
  · next p hp =>
    by_cases hst : st = .ready
    · exact ⟨[p], by simp [hst, AbsSched.makeReady, AbsSched.setQueue]⟩
    · exact ⟨[], by simp [hst, AbsSched.setState]⟩

/-- So does everything that comes before the loop of `process_switch`. -/
theorem Sched.Abstracts.enters {b : Sched P Q} (h : s.Abstracts a) (hInv : a.Inv)
    (hb : s.enters op = some b) :
    ∃ a' new, b.Abstracts a' ∧ a'.queue .ready = a.queue .ready ++ new := by
  have hYield : ∃ a' new, (s.leave .ready).Abstracts a' ∧
      a'.queue .ready = a.queue .ready ++ new := by
    obtain ⟨new, hNew⟩ := a.leave_ready .ready
    exact ⟨a.leave .ready, new, h.leave fun _ p hp => (hInv.current p hp).2, hNew⟩
  cases op with
  | yield =>
    obtain rfl := Option.some.inj hb
    exact hYield
  | preempt =>
    rw [Sched.enters] at hb
    split at hb
    · obtain rfl := Option.some.inj hb
      exact hYield
    · cases hb
  | exit code =>
    obtain ⟨p, hp, rfl⟩ := Option.map_eq_some_iff.mp hb
    have hExit : Sched.Abstracts { s with exitcode := Function.update s.exitcode p code } a :=
      ⟨h.lists, h.current, h.state, h.allowPreempt, h.idle⟩
    obtain ⟨new, hNew⟩ := a.leave_ready .grave
    exact ⟨_, new, hExit.leave (by simp), hNew⟩
  | wait q =>
    obtain ⟨p, hp, rfl⟩ := Option.map_eq_some_iff.mp hb
    have hPush := h.pushTail (hInv.current p (h.current ▸ hp)).2 (.wait q)
    obtain ⟨new, hNew⟩ := (a.setQueue (.wait q) (a.queue (.wait q) ++ [p])).leave_ready .blocked
    exact ⟨_, new, hPush.leave (by simp), by rw [hNew]; simp [AbsSched.setQueue]⟩
  | wakeup q => cases hb
  | wakeupAll q => cases hb
  | idleLoop =>
    obtain rfl := Option.some.inj hb
    exact ⟨a, [], h, by simp⟩

/-- A step that does not enter the loop appends to the ready list at most. -/
theorem SchedStep.ready_of_not_enters {a' : AbsSched P Q} (hs : SchedStep s op s')
    (h : s.Abstracts a) (hInv : a.Inv) (h' : s'.Abstracts a') (hb : s.enters op = none) :
    ∃ new, a'.queue .ready = a.queue .ready ++ new := by
  rw [h'.queue_unique (hs.abstracts h hInv)]
  cases op with
  | yield => cases hb
  | preempt =>
    rw [Sched.enters] at hb
    split at hb
    · cases hb
    · next hc =>
      have hSame : s' = s := by
        rw [show s' = s.processPreempt from hs, Sched.processPreempt, if_neg hc]
      subst hSame
      rw [(hs.abstracts h hInv).queue_unique h]
      exact ⟨[], by simp⟩
  | exit code =>
    have hNone := Option.map_eq_none_iff.mp hb
    have hExit := hs.2
    simp [Sched.processExit, hNone] at hExit
  | wait q =>
    have hNone := Option.map_eq_none_iff.mp hb
    have hWait := hs.2
    simp [Sched.processWait, hNone] at hWait
  | wakeup q =>
    simp only [AbsSched.step, AbsSched.wakeup]
    split
    · next p ps hq =>
        exact ⟨[p], by simp [AbsSched.makeReady, AbsSched.setQueue, AbsSched.setState]⟩
    · exact ⟨[], by simp⟩
  | wakeupAll q =>
    exact ⟨a.queue (.wait q), by simp [AbsSched.step, AbsSched.wakeupAll, AbsSched.setQueue]⟩
  | idleLoop => cases hb

/-- **Step lemma.** The ready list before the step, followed by what the step
appends, is what it dispatches, followed by the ready list after it. -/
theorem SchedStep.ready_fifo {a' : AbsSched P Q} (hs : SchedStep s op s') (h : s.Abstracts a)
    (hInv : a.Inv) (h' : s'.Abstracts a') :
    ∃ new, a.queue .ready ++ new = (s.dispatched op).toList ++ a'.queue .ready := by
  cases hb : s.enters op with
  | none =>
    obtain ⟨new, hNew⟩ := hs.ready_of_not_enters h hInv h' hb
    exact ⟨new, by simp [Sched.dispatched, hb, hNew]⟩
  | some b =>
    obtain ⟨c, new, hc, hNew⟩ := h.enters hInv hb
    obtain rfl := hs.eq_dispatch hb
    have hQueue := h'.queue_unique hc.dispatch
    refine ⟨new, ?_⟩
    rw [← hNew, hQueue, Sched.dispatched, hb, Option.bind_some]
    cases hq : c.queue .ready with
    | nil => simp [hc.popHead_nil hq, AbsSched.dispatch, hq]
    | cons p ps =>
      obtain ⟨m, hPop, -⟩ := hc.popHead_cons hq
      simp [hPop, AbsSched.dispatch, hq, AbsSched.setQueue]

/-- The process that a step dispatches is current after it. -/
theorem SchedStep.dispatched_current {p : P} (hs : SchedStep s op s')
    (hp : s.dispatched op = some p) :
    s'.current = some p ∧ s'.state p = .running := by
  obtain ⟨b, hb, hPop⟩ := Option.bind_eq_some_iff.mp hp
  rw [hs.eq_dispatch hb]
  unfold Sched.dispatch
  split
  · next m q hq =>
    rw [hq] at hPop
    obtain rfl := Option.some.inj hPop
    simp [Sched.setState]
  · next m hq =>
    rw [hq] at hPop
    cases hPop

-- ---------------------------------------------------------------------------
-- Runs
-- ---------------------------------------------------------------------------

/-- **Run lemma.** The equation of one step, for a whole run. -/
theorem SchedRun.ready_fifo {ds : List P} (hRun : SchedRun s ds s') (h : s.Abstracts a)
    (hInv : a.Inv) :
    ∃ a' new, s'.Abstracts a' ∧ a'.Inv ∧ a.queue .ready ++ new = ds ++ a'.queue .ready := by
  induction hRun with
  | nil => exact ⟨a, [], h, hInv, by simp⟩
  | @step ds s' s'' op hRun hs ih =>
    obtain ⟨b, new, hb, hbInv, hNew⟩ := ih
    have hb' := hs.abstracts hb hbInv
    obtain ⟨new', hNew'⟩ := hs.ready_fifo hb hbInv hb'
    refine ⟨b.step op, new ++ new', hb', hbInv.step op (hs.idle_current hb hbInv), ?_⟩
    rw [← List.append_assoc, hNew, List.append_assoc, hNew', List.append_assoc]

/-- **First come, first served.** Let `p` be at position `k` of the ready list of
a reachable state. After any run with at most `k` dispatches it has moved up by
one position for each of them; a dispatch before the `(k+1)`-th takes a process
that was ahead of it, and the `(k+1)`-th dispatch makes it current. -/
theorem dispatch_in_order (s : Sched P Q) (hs : Reachable schedSystem s)
    (v : QueueId Q → List P) (pri : P → Int) (hRef : Refines s.lists ⟨v, pri⟩)
    (k : Nat) (p : P) (hp : (v .ready)[k]? = some p) (ds : List P) (s' : Sched P Q)
    (hRun : SchedRun s ds s') (hLe : ds.length ≤ k) :
    (∀ v' pri', Refines s'.lists ⟨v', pri'⟩ → (v' .ready)[k - ds.length]? = some p) ∧
    (∀ op s'' q, SchedStep s' op s'' → s'.dispatched op = some q →
      s''.current = some q ∧ s''.state q = .running ∧
      (ds.length < k → q ≠ p ∧ (v .ready)[ds.length]? = some q) ∧
        (ds.length = k → q = p)) := by
  obtain ⟨a, hAbs, hInv⟩ := reachable_abstracts hs
  obtain ⟨a', new, hAbs', hInv', hFifo⟩ := hRun.ready_fifo hAbs hInv
  have hQueue : v = a.queue := by
    obtain ⟨pri₀, hRef₀⟩ := hAbs.lists
    exact hRef.seq_unique hRef₀
  rw [hQueue] at hp ⊢
  have hLength : k < (a.queue .ready).length := (List.getElem?_eq_some_iff.mp hp).1
  -- what is still ahead at the end of the run was ahead at its start
  have hAhead : ∀ j, ds.length ≤ j → j ≤ k →
      (a'.queue .ready)[j - ds.length]? = (a.queue .ready)[j]? := by
    intro j hdj hjk
    rw [← List.getElem?_append_right hdj, ← hFifo, List.getElem?_append_left (by omega)]
  refine ⟨?_, ?_⟩
  · intro v' pri' hRef'
    obtain ⟨pri₀, hRef₀⟩ := hAbs'.lists
    rw [show v' = a'.queue from hRef'.seq_unique hRef₀, hAhead k hLe (Nat.le_refl k), hp]
  · intro op s'' q hStep hq
    obtain ⟨hCurrent, hState⟩ := hStep.dispatched_current hq
    obtain ⟨new', hFifo'⟩ := hStep.ready_fifo hAbs' hInv' (hStep.abstracts hAbs' hInv')
    have hNonempty : 0 < (a'.queue .ready).length := by
      have := hAhead k hLe (Nat.le_refl k)
      rw [hp] at this
      have := (List.getElem?_eq_some_iff.mp this).1
      omega
    -- the head of the list is dispatched
    have hHead : (a.queue .ready)[ds.length]? = some q := by
      rw [← hAhead ds.length (Nat.le_refl _) hLe,
        Nat.sub_self, ← List.getElem?_append_left hNonempty, hFifo',
        hq]
      rfl
    refine ⟨hCurrent, hState, fun hLt => ⟨?_, hHead⟩, ?_⟩
    · rintro rfl
      have := (List.getElem?_inj (by omega) (hInv.nodup .ready)).mp (hHead.trans hp.symm)
      omega
    · intro hEq
      rw [hEq, hp] at hHead
      exact (Option.some.inj hHead).symm

/-- Two ready processes: the second is current after the second dispatch, and
not before it. -/
theorem dispatch_in_order_two_processes :
    SchedRun twoReady [0] twoReady.processYield ∧ twoReady.processYield.current = some 0 ∧
      twoReady.processYield.processYield.current = some 1 := by
  have hFirst : SchedStep twoReady .yield twoReady.processYield := ⟨rfl, rfl⟩
  have hSecond : SchedStep twoReady.processYield .yield twoReady.processYield.processYield :=
    ⟨by decide, rfl⟩
  have hRun : SchedRun twoReady [0] twoReady.processYield := .step .nil hFirst
  have hOrder := dispatch_in_order twoReady (.init twoReady_init) _ _ twoReady_refines 1 1 rfl [0]
    twoReady.processYield hRun (by decide)
  exact ⟨hRun, by decide, (hOrder.2 .yield _ 1 hSecond (by decide)).1⟩

end Hexos
