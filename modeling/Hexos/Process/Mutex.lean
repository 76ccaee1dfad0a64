import Hexos.Process.Invariant

/-!
# HexOS — mutexes

`kernel/kernel/mutex.c` over the scheduler: any number of processes that
repeatedly lock a mutex, run a critical section and unlock it. Each section
between `disable_interrupts` and `enable_interrupts` is one atomic step;
interrupts and other scheduler operations may happen between any two of
them, also between the return of `process_wait` inside `mutex_lock` and the
next test of `locked`.

## Results

* `MutexState.Inv.step` — the mutex invariant is preserved.
* `mutex_safety` — mutual exclusion, the meaning of `locked`, and that no
  waiter is forgotten, in every reachable state.
-/

namespace Hexos

open Transition

/-- Where a process is in its use of the mutex. -/
inductive MutexPc where
  /-- Outside `mutex_lock`, not holding the mutex. -/
  | out
  /-- Blocked in the `process_wait` of `mutex_lock`. -/
  | waiting
  /-- Taken from the wait queue by an unlock; has not tested `locked` again. -/
  | woken
  /-- Between the return of `mutex_lock` and the call of `mutex_unlock`. -/
  | critical
  deriving DecidableEq, Repr

/-- The scheduler, the `locked` field of the mutex and the place of each
process. The `waitqueue` of the mutex is a wait queue of the scheduler. -/
structure MutexState (P Q : Type) where
  sched  : Sched P Q
  locked : Int
  pc     : P → MutexPc

namespace MutexState

variable {P Q : Type} [DecidableEq P] [DecidableEq Q]

def setPc (s : MutexState P Q) (p : P) (pc : MutexPc) : MutexState P Q :=
  { s with pc := Function.update s.pc p pc }

/-- `mutex_lock` by `p` from the test of its `while` to the return, or to the
`process_wait` it blocks in. -/
def mutexLock (s : MutexState P Q) (waitqueue : Q) (p : P) : Option (MutexState P Q) :=
  if s.locked ≠ 0 then do
    let sched ← s.sched.processWait (.wait waitqueue)
    some { s.setPc p .waiting with sched := sched }
  else some { s.setPc p .critical with locked := 1 }

/-- `mutex_unlock` by `p`; the process it takes from the wait queue, if any,
is the one marked `woken`. -/
def mutexUnlock (s : MutexState P Q) (waitqueue : Q) (p : P) : MutexState P Q :=
  let s := { s with locked := 0 }
  let s := match s.sched.lists.head (.wait waitqueue) with
    | some w => s.setPc w .woken
    | none => s
  { s.setPc p .out with sched := s.sched.processWakeup (.wait waitqueue) }

end MutexState

/-! ## The system -/

/-- A step: the running process locks or unlocks, or the scheduler acts. -/
inductive MutexOp (Q : Type) where
  | lock
  | unlock
  | sched (op : SchedOp Q)

variable {P Q : Type} [DecidableEq P] [DecidableEq Q]

/-- `s'` is the state after `op`. Locking starts outside or resumes at the
test; a process unlocks what it holds. Only `mutex_lock` and `mutex_unlock`
use the wait queue of the mutex. A process waits elsewhere outside of
`mutex_lock` only, and does not exit with the mutex held. -/
def MutexStep (waitqueue : Q) (s : MutexState P Q) : MutexOp Q → MutexState P Q → Prop
  | .lock, s' => ∃ p, s.sched.current = some p ∧ (s.pc p = .out ∨ s.pc p = .woken) ∧
      s.mutexLock waitqueue p = some s'
  | .unlock, s' => ∃ p, s.sched.current = some p ∧ s.pc p = .critical ∧
      s' = s.mutexUnlock waitqueue p
  | .sched op, s' =>
      op ≠ .wait waitqueue ∧ op ≠ .wakeup waitqueue ∧ op ≠ .wakeupAll waitqueue ∧
      (∀ p, s.sched.current = some p →
        ((∃ q, op = .wait q) → s.pc p ≠ .woken) ∧
        ((∃ code, op = .exit code) → s.pc p = .out)) ∧
      ∃ sched, SchedStep s.sched op sched ∧ s' = { s with sched := sched }

/-- All processes start outside and the mutex is `MUTEX_INIT`. -/
def mutexSystem (waitqueue : Q) : System (MutexState P Q) where
  init s := s.sched.Init ∧ s.locked = 0 ∧ ∀ p, s.pc p = .out
  step s s' := ∃ op, MutexStep waitqueue s op s'

/-! ## The invariant -/

/-- The mutex invariant over the abstract scheduler state. -/
structure MutexState.Inv (waitqueue : Q) (s : MutexState P Q) (a : AbsSched P Q) : Prop where
  abstracts : s.sched.Abstracts a
  sched     : a.Inv
  waiting   : ∀ p, s.pc p = .waiting ↔ p ∈ a.queue (.wait waitqueue)
  woken     : ∀ p, s.pc p = .woken → a.Runnable p
  locked    : (s.locked = 0 ∧ ∀ p, s.pc p ≠ .critical) ∨
              (s.locked = 1 ∧
                ∃ p, s.pc p = .critical ∧ ∀ p', s.pc p' = .critical → p' = p)
  waiters   : a.queue (.wait waitqueue) ≠ [] → s.locked = 1 ∨ ∃ p, s.pc p = .woken

namespace MutexState.Inv

variable {waitqueue : Q} {s s' : MutexState P Q} {a : AbsSched P Q}

/-- Scheduler steps leave the mutex alone. -/
theorem schedStep (h : s.Inv waitqueue a) {op : SchedOp Q} {sched : Sched P Q}
    (hq : op ≠ .wait waitqueue ∧ op ≠ .wakeup waitqueue ∧ op ≠ .wakeupAll waitqueue)
    (hSelf : ∀ p, s.sched.current = some p →
      ((∃ q, op = .wait q) → s.pc p ≠ .woken) ∧
        ((∃ code, op = .exit code) → s.pc p = .out))
    (hs : SchedStep s.sched op sched) :
    MutexState.Inv waitqueue { s with sched := sched } (a.step op) := by
  have hIdle := hs.idle_current h.abstracts h.sched
  have hQueue := AbsSched.step_queue_wait hIdle hq
  refine ⟨hs.abstracts h.abstracts h.sched, h.sched.step op hIdle, ?_, ?_, h.locked, ?_⟩
  · intro p
    rw [hQueue]
    exact h.waiting p
  · intro p hp
    refine AbsSched.runnable_step op hIdle (h.woken p hp) ?_
    intro hc
    obtain ⟨hWait, hExit⟩ := hSelf p (h.abstracts.current ▸ hc)
    refine ⟨?_, fun q ho => hWait ⟨q, ho⟩ hp⟩
    intro code ho
    have := hExit ⟨code, ho⟩
    rw [hp] at this
    cases this
  · rw [hQueue]
    exact h.waiters

omit [DecidableEq Q] in
theorem lockAcquire (h : s.Inv waitqueue a) {p : P} (hc : s.sched.current = some p)
    (hl : s.locked = 0) :
    MutexState.Inv waitqueue { s.setPc p .critical with locked := 1 } a := by
  have hca : a.current = some p := h.abstracts.current ▸ hc
  have hNone : ∀ p, s.pc p ≠ .critical := by
    rcases h.locked with ⟨-, hNone⟩ | ⟨h1, -⟩
    · exact hNone
    · rw [hl] at h1
      cases h1
  refine ⟨h.abstracts, h.sched, ?_, ?_, Or.inr ⟨rfl, p, ?_, ?_⟩, fun _ => Or.inl rfl⟩
  · intro x
    by_cases hxp : x = p
    · subst hxp
      simp [setPc, (h.sched.current x hca).2 _]
    · simpa [setPc, hxp] using h.waiting x
  · intro x hx
    by_cases hxp : x = p
    · exact Or.inl (hxp ▸ hca)
    · exact h.woken x (by simpa [setPc, hxp] using hx)
  · simp [setPc]
  · intro x hx
    by_contra hxp
    exact hNone x (by simpa [setPc, hxp] using hx)

theorem lockBlock (h : s.Inv waitqueue a) {p : P} {sched : Sched P Q}
    (hc : s.sched.current = some p) (hpc : s.pc p = .out ∨ s.pc p = .woken)
    (hl : s.locked ≠ 0) (hs : s.sched.processWait (.wait waitqueue) = some sched) :
    MutexState.Inv waitqueue { s.setPc p .waiting with sched := sched }
      (a.wait (.wait waitqueue)) := by
  have hca : a.current = some p := h.abstracts.current ▸ hc
  have hQueue : (a.wait (.wait waitqueue)).queue (.wait waitqueue) =
      a.queue (.wait waitqueue) ++ [p] := by
    rw [AbsSched.wait_eq_park hca, AbsSched.dispatch_queue_wait]
    simp [AbsSched.park, AbsSched.setQueue]
  have hInv : (a.wait (.wait waitqueue)).Inv := h.sched.step (.wait waitqueue) (by simp)
  -- the holder is another process, so it stays where it is
  obtain ⟨hl1, r, hr, hUnique⟩ : s.locked = 1 ∧
      ∃ r, s.pc r = .critical ∧ ∀ p', s.pc p' = .critical → p' = r := by
    rcases h.locked with ⟨h0, -⟩ | h1
    · exact absurd h0 hl
    · exact h1
  have hrp : r ≠ p := by
    rintro rfl
    rcases hpc with hpc | hpc <;> simp [hpc] at hr
  refine ⟨h.abstracts.processWait h.sched hs, hInv, ?_, ?_,
    Or.inr ⟨hl1, r, ?_, ?_⟩, fun _ => Or.inl hl1⟩
  · intro x
    rw [hQueue, List.mem_append, List.mem_singleton, ← h.waiting x]
    by_cases hxp : x = p <;> simp [setPc, hxp]
  · intro x hx
    have hxp : x ≠ p := by
      rintro rfl
      simp [setPc] at hx
    have hRun := h.woken x (by simpa [setPc, hxp] using hx)
    refine AbsSched.runnable_step (.wait waitqueue) (by simp) hRun ?_
    intro hc
    rw [hca] at hc
    exact absurd (Option.some.inj hc).symm hxp
  · simpa [setPc, hrp] using hr
  · intro x hx
    by_cases hxp : x = p
    · subst hxp
      simp [setPc] at hx
    · exact hUnique x (by simpa [setPc, hxp] using hx)

omit [DecidableEq P] [DecidableEq Q] in
/-- Only one process is in the critical section. -/
theorem only (h : s.Inv waitqueue a) {p : P} (hpc : s.pc p = .critical) {x : P} (hxp : x ≠ p) :
    s.pc x ≠ .critical := by
  rcases h.locked with ⟨-, hNone⟩ | ⟨-, r, -, hUnique⟩
  · exact hNone x
  · intro hx
    exact hxp ((hUnique x hx).trans (hUnique p hpc).symm)

/-- `mutex_unlock` when nobody waits. -/
theorem unlock_nobody (h : s.Inv waitqueue a) {p : P} (hca : a.current = some p)
    (hpc : s.pc p = .critical) (hq : a.queue (.wait waitqueue) = []) :
    (s.mutexUnlock waitqueue p).Inv waitqueue (a.wakeup (.wait waitqueue)) := by
  have hUn := (h.sched.current p hca).2
  have hAbs := h.abstracts.processWakeup h.sched waitqueue
  have hHead := h.abstracts.head_eq (.wait waitqueue)
  rw [hq, List.head?_nil] at hHead
  have hSame : a.wakeup (.wait waitqueue) = a := by simp only [AbsSched.wakeup, hq]
  rw [hSame] at hAbs ⊢
  simp only [mutexUnlock, hHead]
  refine ⟨hAbs, h.sched, ?_, ?_, Or.inl ⟨rfl, ?_⟩, by simp [hq]⟩
  · intro x
    by_cases hxp : x = p
    · subst hxp
      simp [setPc, hUn _]
    · simpa [setPc, hxp] using h.waiting x
  · intro x hx
    have hxp : x ≠ p := by
      rintro rfl
      simp [setPc] at hx
    exact h.woken x (by simpa [setPc, hxp] using hx)
  · intro x
    by_cases hxp : x = p
    · simp [setPc, hxp]
    · simpa [setPc, hxp] using h.only hpc hxp

/-- `mutex_unlock` that wakes the process that has waited longest. -/
theorem unlock_waiter (h : s.Inv waitqueue a) {p w : P} {ws : List P} (hca : a.current = some p)
    (hpc : s.pc p = .critical) (hq : a.queue (.wait waitqueue) = w :: ws) :
    (s.mutexUnlock waitqueue p).Inv waitqueue (a.wakeup (.wait waitqueue)) := by
  have hUn := (h.sched.current p hca).2
  have hAbs := h.abstracts.processWakeup h.sched waitqueue
  have hHead := h.abstracts.head_eq (.wait waitqueue)
  rw [hq, List.head?_cons] at hHead
  have hwp : w ≠ p := by
    rintro rfl
    exact hUn (.wait waitqueue) (by simp [hq])
  have hNodup := List.nodup_cons.mp (hq ▸ h.sched.nodup (.wait waitqueue))
  have hQueue : (a.wakeup (.wait waitqueue)).queue (.wait waitqueue) = ws := by
    simp [AbsSched.wakeup, hq, AbsSched.makeReady, AbsSched.setQueue, AbsSched.setState]
  have hRunW : (a.wakeup (.wait waitqueue)).Runnable w :=
    Or.inr (by simp [AbsSched.wakeup, hq, AbsSched.makeReady, AbsSched.setQueue])
  simp only [mutexUnlock, hHead]
  refine ⟨hAbs, h.sched.wakeup waitqueue, ?_, ?_, Or.inl ⟨rfl, ?_⟩,
    fun _ => Or.inr ⟨w, by simp [setPc, hwp]⟩⟩
  · intro x
    rw [hQueue]
    by_cases hxp : x = p
    · subst hxp
      have hxws : x ∉ ws := fun hx => hUn (.wait waitqueue) (by simp [hq, hx])
      simp [setPc, hxws]
    · by_cases hxw : x = w
      · subst hxw
        simp [setPc, hxp, hNodup.1]
      · simpa [setPc, hxp, hxw, hq] using h.waiting x
  · intro x hx
    by_cases hxw : x = w
    · exact hxw ▸ hRunW
    · have hxp : x ≠ p := by
        rintro rfl
        simp [setPc] at hx
      have hRun := h.woken x (by simpa [setPc, hxp, hxw] using hx)
      exact AbsSched.runnable_step (.wakeup waitqueue) (by simp) hRun (by simp)
  · intro x
    by_cases hxp : x = p
    · simp [setPc, hxp]
    · by_cases hxw : x = w
      · simp [setPc, hxw, hwp]
      · simpa [setPc, hxp, hxw] using h.only hpc hxp

theorem unlock (h : s.Inv waitqueue a) {p : P} (hc : s.sched.current = some p)
    (hpc : s.pc p = .critical) :
    (s.mutexUnlock waitqueue p).Inv waitqueue (a.wakeup (.wait waitqueue)) := by
  have hca : a.current = some p := h.abstracts.current ▸ hc
  cases hq : a.queue (.wait waitqueue) with
  | nil => exact h.unlock_nobody hca hpc hq
  | cons w ws => exact h.unlock_waiter hca hpc hq

/-- **Step lemma.** Every step keeps the invariant. -/
theorem step (h : s.Inv waitqueue a) {op : MutexOp Q} (hs : MutexStep waitqueue s op s') :
    ∃ a', s'.Inv waitqueue a' := by
  cases op with
  | lock =>
    obtain ⟨p, hc, hpc, hl⟩ := hs
    by_cases hLocked : s.locked = 0
    · simp only [mutexLock, hLocked, ne_eq, not_true_eq_false, if_false, Option.some.injEq] at hl
      exact ⟨a, hl ▸ h.lockAcquire hc hLocked⟩
    · simp only [mutexLock, hLocked, ne_eq, not_false_eq_true, if_true, Option.bind_eq_bind,
        Option.bind_eq_some_iff, Option.some.injEq] at hl
      obtain ⟨sched, hSched, rfl⟩ := hl
      exact ⟨_, h.lockBlock hc hpc hLocked hSched⟩
  | unlock =>
    obtain ⟨p, hc, hpc, rfl⟩ := hs
    exact ⟨_, h.unlock hc hpc⟩
  | sched op =>
    obtain ⟨h1, h2, h3, hSelf, sched, hStep, rfl⟩ := hs
    exact ⟨_, h.schedStep ⟨h1, h2, h3⟩ hSelf hStep⟩

end MutexState.Inv

/-- Every reachable state satisfies the mutex invariant. -/
theorem mutex_reachable_inv {waitqueue : Q} {s : MutexState P Q}
    (hs : Reachable (mutexSystem waitqueue) s) : ∃ a, s.Inv waitqueue a := by
  refine Reachable.invariant (I := fun s => ∃ a, s.Inv waitqueue a) ?_ ?_ hs
  · rintro s ⟨hInit, hLocked, hOut⟩
    obtain ⟨a, hAbs, hInv⟩ := hInit.abstracts
    have hEmpty : a.queue (.wait waitqueue) = [] := by
      obtain ⟨rs, pri, hRef⟩ := hInit.lists
      obtain ⟨pri', hRef'⟩ := hAbs.lists
      have hSeq := congrFun (hRef'.seq_unique hRef) (.wait waitqueue)
      simpa using hSeq
    exact ⟨a, hAbs, hInv, by simp [hOut, hEmpty], by simp [hOut],
      Or.inl ⟨hLocked, by simp [hOut]⟩, by simp [hEmpty]⟩
  · rintro s s' - ⟨a, hInv⟩ ⟨op, hStep⟩
    exact hInv.step hStep

/-- **Mutex safety.** In every reachable state at most one process is between
the return of `mutex_lock` and its call of `mutex_unlock`, `locked` is 1
exactly while there is one and 0 otherwise, and no waiter is forgotten: while
`locked` is 0 and the wait queue is not empty, a process that an unlock took
from it is READY or RUNNING and has not tested `locked` again. -/
theorem mutex_safety (waitqueue : Q) (s : MutexState P Q)
    (hs : Reachable (mutexSystem waitqueue) s) :
    (∀ p p', s.pc p = .critical → s.pc p' = .critical → p = p') ∧
    (s.locked = 1 ↔ ∃ p, s.pc p = .critical) ∧
    (s.locked = 0 ∨ s.locked = 1) ∧
    (s.locked = 0 → s.sched.lists.head (.wait waitqueue) ≠ none →
      ∃ p, s.pc p = .woken ∧ (s.sched.state p = .ready ∨ s.sched.state p = .running)) := by
  obtain ⟨a, h⟩ := mutex_reachable_inv hs
  refine ⟨?_, ?_, ?_, ?_⟩
  · intro p p' hp hp'
    rcases h.locked with ⟨-, hNone⟩ | ⟨-, r, -, hUnique⟩
    · exact absurd hp (hNone p)
    · rw [hUnique p hp, hUnique p' hp']
  · rcases h.locked with ⟨h0, hNone⟩ | ⟨h1, r, hr, -⟩
    · simp [h0, hNone]
    · exact ⟨fun _ => ⟨r, hr⟩, fun _ => h1⟩
  · rcases h.locked with ⟨h0, -⟩ | ⟨h1, -⟩
    · exact Or.inl h0
    · exact Or.inr h1
  · intro h0 hHead
    rw [h.abstracts.head_eq, Ne, List.head?_eq_none_iff] at hHead
    rcases h.waiters hHead with h1 | ⟨p, hp⟩
    · rw [h0] at h1
      cases h1
    · refine ⟨p, hp, ?_⟩
      rw [h.abstracts.state]
      rcases h.woken p hp with hRun | hReady
      · exact Or.inr (h.sched.current p hRun).1
      · exact Or.inl (h.sched.linked _ p hReady)

/-- Process 0 holds the mutex while 1 and 2 block on it, and unlocks: `locked`
is 0, process 2 still waits, and process 1 is ready to test again. -/
theorem mutex_safety_three_processes :
    ∃ s : MutexState (Fin 3) Unit, Reachable (mutexSystem ()) s ∧ s.locked = 0 ∧
      s.pc 2 = .waiting ∧
      ∃ p, s.pc p = .woken ∧ (s.sched.state p = .ready ∨ s.sched.state p = .running) := by
  let s₀ : MutexState (Fin 3) Unit :=
    { sched :=
        { current := none
          lists :=
          ((ListMem.init.listPushTail .ready 0).listPushTail .ready 1).listPushTail .ready 2
          state := fun _ => .ready
          exitcode := fun _ => 0
          allowPreempt := 0
          idle := false }
      locked := 0
      pc := fun _ => .out }
  let s₁ : MutexState (Fin 3) Unit := { s₀ with sched := s₀.sched.processYield }
  let s₂ : MutexState (Fin 3) Unit := (s₁.mutexLock () 0).get (by decide)
  let s₃ : MutexState (Fin 3) Unit := { s₂ with sched := s₂.sched.processYield }
  let s₄ : MutexState (Fin 3) Unit := (s₃.mutexLock () 1).get (by decide)
  let s₅ : MutexState (Fin 3) Unit := (s₄.mutexLock () 2).get (by decide)
  have hRef := (((Refines.init (L := QueueId Unit) (N := Fin 3) (m := .init) (fun _ => rfl)
    (fun _ => rfl) (fun _ => rfl)).listPushTail (l := .ready) (n := 0) rfl).listPushTail
    (l := .ready) (n := 1) (by decide)).listPushTail (l := .ready) (n := 2) (by decide)
  have hInit : s₀.sched.Init := by
    refine ⟨⟨[0, 1, 2], fun _ => 0, ?_⟩, by simp [s₀], by simp [s₀], by decide, rfl⟩
    convert hRef using 2
    · funext l
      cases l <;> simp [ListSeqs.exec, ListSeqs.set, ListSeqs.setPriority]
    · funext p
      revert p
      decide
  have h₁ : Reachable (mutexSystem ()) s₁ :=
    .step (.init ⟨hInit, rfl, fun _ => rfl⟩)
      ⟨.sched .yield, by simp, by simp, by simp, by simp, _, ⟨rfl, rfl⟩, rfl⟩
  have h₂ : Reachable (mutexSystem ()) s₂ :=
    .step h₁ ⟨.lock, 0, by decide, by decide, by simp [s₂]⟩
  have h₃ : Reachable (mutexSystem ()) s₃ :=
    .step h₂
      ⟨.sched .yield, by simp, by simp, by simp, by simp, _, ⟨by decide +kernel, rfl⟩, rfl⟩
  have h₄ : Reachable (mutexSystem ()) s₄ :=
    .step h₃ ⟨.lock, 1, by decide +kernel, by decide +kernel, by simp [s₄]⟩
  have h₅ : Reachable (mutexSystem ()) s₅ :=
    .step h₄ ⟨.lock, 2, by decide +kernel, by decide +kernel, by simp [s₅]⟩
  have h₆ : Reachable (mutexSystem ()) (s₅.mutexUnlock () 0) :=
    .step h₅ ⟨.unlock, 0, by decide +kernel, by decide +kernel, rfl⟩
  exact ⟨_, h₆, by decide +kernel, by decide +kernel,
    (mutex_safety () _ h₆).2.2.2 (by decide +kernel) (by decide +kernel)⟩

end Hexos
