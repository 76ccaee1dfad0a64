import Hexos.Process.Definitions

/-!
# HexOS — the abstract scheduler

The scheduler of `process.c` with a sequence of processes in place of each
linked list, and the scheduler invariant: what is running, ready, blocked or
neither agrees with the state field of every process.

## Results

* `AbsSched.step_cases` — what one step can do.
* `AbsSched.Inv.step` — every step keeps the invariant.
* `AbsSched.alive_step` — no step loses or duplicates a process; only
  `process_exit` takes one away.
* `AbsSched.runnable_step`, `AbsSched.step_queue_wait` — the frame of a
  step: who stays runnable, which queues stay as they are.
-/

namespace Hexos

variable {P Q : Type}

/-! ## The abstract scheduler -/

/-- The scheduler with a sequence of processes for each list. -/
structure AbsSched (P Q : Type) where
  current      : Option P
  queue        : QueueId Q → List P
  state        : P → ProcState
  allowPreempt : Int
  idle         : Bool

/-- The state of the processes linked in a list. -/
def QueueId.procState : QueueId Q → ProcState
  | .ready => .ready
  | .wait _ => .blocked

namespace AbsSched

/-- `p` is linked in no list. -/
def Unlinked (a : AbsSched P Q) (p : P) : Prop := ∀ l, p ∉ a.queue l

/-- The scheduler invariant. -/
structure Inv (a : AbsSched P Q) : Prop where
  current  : ∀ p, a.current = some p → a.state p = .running ∧ a.Unlinked p
  linked   : ∀ l, ∀ p ∈ a.queue l, a.state p = l.procState
  others   : ∀ p, a.current ≠ some p → a.Unlinked p → a.state p = .cradle ∨
      a.state p = .grave
  nodup    : ∀ l, (a.queue l).Nodup
  unique   : ∀ p l l', p ∈ a.queue l → p ∈ a.queue l' → l = l'
  idle     : a.idle = true → a.current = none

variable [DecidableEq P] [DecidableEq Q]

def setState (a : AbsSched P Q) (p : P) (st : ProcState) : AbsSched P Q :=
  { a with state := Function.update a.state p st }

/-- The list `l` holds `ps`. -/
def setQueue (a : AbsSched P Q) (l : QueueId Q) (ps : List P) : AbsSched P Q :=
  { a with queue := Function.update a.queue l ps }

def makeReady (a : AbsSched P Q) (p : P) : AbsSched P Q :=
  (a.setState p .ready).setQueue .ready (a.queue .ready ++ [p])

def dispatch (a : AbsSched P Q) : AbsSched P Q :=
  match a.queue .ready with
  | p :: ps => { (a.setState p .running).setQueue .ready ps with current := some p, idle := false }
  | [] => { a with current := none, idle := true }

/-- The part of `process_switch` before its loop: `current` leaves the
processor with the state `newstate`. -/
def leave (a : AbsSched P Q) (newstate : ProcState) : AbsSched P Q :=
  match a.current with
  | none => a
  | some p =>
    { (if newstate = .ready then a.makeReady p else a.setState p newstate) with current := none }

def switch (a : AbsSched P Q) (newstate : ProcState) : AbsSched P Q :=
  (a.leave newstate).dispatch

def preempt (a : AbsSched P Q) : AbsSched P Q :=
  if a.allowPreempt ≠ 0 ∧ a.current ≠ none ∧ a.queue .ready ≠ [] then
    a.switch .ready
  else a

/-- `current` enters the queue `l` and then leaves the processor. -/
def wait (a : AbsSched P Q) (l : QueueId Q) : AbsSched P Q :=
  match a.current with
  | none => a
  | some p => (a.setQueue l (a.queue l ++ [p])).switch .blocked

def wakeup (a : AbsSched P Q) (l : QueueId Q) : AbsSched P Q :=
  match a.queue l with
  | p :: ps => (a.setQueue l ps).makeReady p
  | [] => a

/-- The whole queue `l` goes to the end of the ready list, in order. -/
def wakeupAll (a : AbsSched P Q) (l : QueueId Q) : AbsSched P Q :=
  { (a.setQueue l []).setQueue .ready (a.queue .ready ++ a.queue l) with
    state := fun p => if p ∈ a.queue l then .ready else a.state p }

/-- The abstract step of each operation. -/
def step (a : AbsSched P Q) : SchedOp Q → AbsSched P Q
  | .yield => a.switch .ready
  | .preempt => a.preempt
  | .exit _ => a.switch .grave
  | .wait q => a.wait (.wait q)
  | .wakeup q => a.wakeup (.wait q)
  | .wakeupAll q => a.wakeupAll (.wait q)
  | .idleLoop => a.dispatch

/-! ## The invariant is preserved -/

variable {a : AbsSched P Q}

/-- `p` leaves the processor for the end of the list `l`. -/
def park (a : AbsSched P Q) (p : P) (l : QueueId Q) : AbsSched P Q :=
  { (a.setState p l.procState).setQueue l (a.queue l ++ [p]) with current := none }

omit [DecidableEq Q] in
/-- `p` leaves the processor for good. -/
def retire (a : AbsSched P Q) (p : P) : AbsSched P Q :=
  { a.setState p .grave with current := none }

omit [DecidableEq P] in
/-- A list that gains `p` at its end and nothing else. -/
private theorem mem_append_queue {l : QueueId Q} {p : P} (x : P) (l' : QueueId Q) :
    x ∈ Function.update a.queue l (a.queue l ++ [p]) l' ↔
      x ∈ a.queue l' ∨ (x = p ∧ l' = l) := by
  by_cases hl : l' = l
  · subst hl
    simp
  · simp [hl]

omit [DecidableEq P] in
/-- A list that loses its head and nothing else. -/
private theorem mem_tail_queue (h : a.Inv) {l : QueueId Q} {p : P} {ps : List P}
    (hq : a.queue l = p :: ps) (x : P) (l' : QueueId Q) :
    x ∈ Function.update a.queue l ps l' ↔ x ∈ a.queue l' ∧ x ≠ p := by
  have hNodup := List.nodup_cons.mp (hq ▸ h.nodup l)
  have hp : p ∈ a.queue l := by simp [hq]
  by_cases hl : l' = l
  · subst hl
    simp only [Function.update_self, hq, List.mem_cons]
    grind
  · have hUnique := h.unique p l l' hp
    simp only [Function.update_of_ne hl]
    grind

omit [DecidableEq P] in
/-- The head of a queue is in no list once it is taken out. -/
theorem Inv.unlinked_tail (h : a.Inv) {l : QueueId Q} {p : P} {ps : List P}
    (hq : a.queue l = p :: ps) : (a.setQueue l ps).Unlinked p := by
  intro l'
  rw [setQueue, mem_tail_queue h hq]
  simp

theorem Inv.park (h : a.Inv) {p : P} (hp : a.current = some p) (l : QueueId Q) :
    (a.park p l).Inv := by
  obtain ⟨-, hUn⟩ := h.current p hp
  have hne : ∀ l x, x ∈ a.queue l → x ≠ p := fun l x hx hc => hUn l (hc ▸ hx)
  constructor <;> simp only [AbsSched.park, setState, setQueue, Unlinked, mem_append_queue]
  · simp
  · rintro l' x (hx | ⟨rfl, rfl⟩)
    · rw [Function.update_of_ne (hne l' x hx)]
      exact h.linked l' x hx
    · simp
  · intro x _ hx
    have hxp : x ≠ p := fun hc => hx l (Or.inr ⟨hc, rfl⟩)
    rw [Function.update_of_ne hxp]
    refine h.others x ?_ fun l' hl' => hx l' (Or.inl hl')
    rw [hp]
    exact fun hc => hxp (Option.some.inj hc).symm
  · intro l'
    have hOld := h.nodup l'
    by_cases hl : l' = l
    · subst hl
      rw [Function.update_self, List.nodup_append]
      exact ⟨hOld, by simp, fun x hx y hy => by rw [List.mem_singleton.mp hy]; exact hne _ x hx⟩
    · rwa [Function.update_of_ne hl]
  · have hUnique := h.unique
    grind
  · simp

omit [DecidableEq Q] in
theorem Inv.retire (h : a.Inv) {p : P} (hp : a.current = some p) : (a.retire p).Inv := by
  obtain ⟨-, hUn⟩ := h.current p hp
  have hne : ∀ l x, x ∈ a.queue l → x ≠ p := fun l x hx hc => hUn l (hc ▸ hx)
  constructor <;> simp only [AbsSched.retire, setState, Unlinked]
  · simp
  · intro l x hx
    rw [Function.update_of_ne (hne l x hx)]
    exact h.linked l x hx
  · intro x _ hx
    by_cases hxp : x = p
    · subst hxp
      simp
    · rw [Function.update_of_ne hxp]
      refine h.others x ?_ hx
      rw [hp]
      exact fun hc => hxp (Option.some.inj hc).symm
  · exact h.nodup
  · exact h.unique
  · simp

theorem Inv.dispatch (h : a.Inv) (hc : a.current = none) : a.dispatch.Inv := by
  cases hq : a.queue .ready with
  | nil =>
    simp only [AbsSched.dispatch, hq]
    exact ⟨by simp, h.linked, fun p _ => h.others p (by simp [hc]), h.nodup, h.unique,
      fun _ => rfl⟩
  | cons p ps =>
    simp only [AbsSched.dispatch, hq]
    constructor <;> simp only [setState, setQueue, Unlinked, mem_tail_queue h hq]
    · rintro x ⟨rfl⟩
      simp
    · rintro l x ⟨hx, hxp⟩
      rw [Function.update_of_ne hxp]
      exact h.linked l x hx
    · intro x hx hUn
      have hxp : x ≠ p := fun hc => hx (by rw [hc])
      rw [Function.update_of_ne hxp]
      exact h.others x (by simp [hc]) fun l hl => hUn l ⟨hl, hxp⟩
    · intro l
      by_cases hl : l = .ready
      · subst hl
        rw [Function.update_self]
        exact (List.nodup_cons.mp (hq ▸ h.nodup .ready)).2
      · rw [Function.update_of_ne hl]
        exact h.nodup l
    · exact fun x l l' hl hl' => h.unique x l l' hl.1 hl'.1
    · simp

/-- Waking the head of a queue moves it to the ready list and nothing else. -/
private theorem mem_wakeup (h : a.Inv) {q : Q} {p : P} {ps : List P}
    (hq : a.queue (.wait q) = p :: ps) (x : P) (l : QueueId Q) :
    x ∈ ((a.setQueue (.wait q) ps).makeReady p).queue l ↔
      (x ∈ a.queue l ∧ x ≠ p) ∨ (x = p ∧ l = .ready) := by
  have hTail := mem_tail_queue h hq x
  by_cases hl : l = .ready
  · subst hl
    simp only [makeReady, setQueue, setState, Function.update_self, List.mem_append, hTail]
    simp
  · simp only [makeReady, setQueue, setState, Function.update_of_ne hl, hTail]
    simp [hl]

theorem Inv.wakeup (h : a.Inv) (q : Q) : (a.wakeup (.wait q)).Inv := by
  cases hq : a.queue (.wait q) with
  | nil => simpa only [AbsSched.wakeup, hq] using h
  | cons p ps =>
    have hp : p ∈ a.queue (.wait q) := by simp [hq]
    -- `p` is not running: it is linked
    have hpc : a.current ≠ some p := fun hc => (h.current p hc).2 _ hp
    simp only [AbsSched.wakeup, hq]
    constructor <;> try simp only [Unlinked, mem_wakeup h hq]
    · intro x hx
      have hxp : x ≠ p := fun hc => hpc (hc ▸ hx)
      obtain ⟨hSt, hUn⟩ := h.current x hx
      refine ⟨?_, ?_⟩
      · simpa [makeReady, setQueue, setState, hxp] using hSt
      · intro l hl
        rcases hl with hl | hl
        · exact hUn l hl.1
        · exact hxp hl.1
    · rintro l x (⟨hx, hxp⟩ | ⟨rfl, rfl⟩)
      · simpa [makeReady, setQueue, setState, hxp] using h.linked l x hx
      · simp [makeReady, setQueue, setState, QueueId.procState]
    · intro x hx hUn
      have hxp : x ≠ p := fun hc => hUn .ready (Or.inr ⟨hc, rfl⟩)
      have := h.others x hx fun l hl => hUn l (Or.inl ⟨hl, hxp⟩)
      simpa [makeReady, setQueue, setState, hxp] using this
    · intro l
      have hTail : ∀ l, (Function.update a.queue (.wait q) ps l).Nodup := by
        intro l
        by_cases hl : l = .wait q
        · subst hl
          rw [Function.update_self]
          exact (List.nodup_cons.mp (hq ▸ h.nodup _)).2
        · rw [Function.update_of_ne hl]
          exact h.nodup l
      by_cases hl : l = .ready
      · subst hl
        have := mem_tail_queue h hq p .ready
        simp only [makeReady, setQueue, setState, Function.update_self, List.nodup_append]
        refine ⟨hTail _, by simp, ?_⟩
        intro x hx y hy hxy
        rw [hxy, List.mem_singleton.mp hy, this] at hx
        exact hx.2 rfl
      · simpa [makeReady, setQueue, setState, hl] using hTail l
    · have hUnique := h.unique
      grind
    · exact h.idle

/-- `process_wakeup_all` of an empty queue. -/
theorem wakeupAll_nil {l : QueueId Q} (hq : a.queue l = []) : a.wakeupAll l = a := by
  have hQueue : Function.update (Function.update a.queue l []) .ready (a.queue .ready) =
      a.queue := by
    rw [← hq, Function.update_eq_self, Function.update_eq_self]
  simp only [wakeupAll, setQueue, hq, List.append_nil, hQueue]
  simp

/-- `process_wakeup_all` wakes the head first and then the rest. -/
theorem wakeupAll_cons {q : Q} {p : P} {ps : List P} (hq : a.queue (.wait q) = p :: ps) :
    a.wakeupAll (.wait q) = (a.wakeup (.wait q)).wakeupAll (.wait q) := by
  simp only [wakeup, hq, wakeupAll, makeReady, setQueue, setState]
  congr 1
  · funext l
    cases l with
    | ready => simp
    | wait q' => by_cases hl : q' = q <;> simp [hl]
  · funext x
    by_cases hx : x = p <;> simp [hx]

theorem Inv.wakeupAll (h : a.Inv) (q : Q) : (a.wakeupAll (.wait q)).Inv := by
  induction hq : a.queue (.wait q) generalizing a with
  | nil => rwa [wakeupAll_nil hq]
  | cons p ps ih =>
    rw [wakeupAll_cons hq]
    apply ih (h.wakeup q)
    simp [AbsSched.wakeup, hq, makeReady, setQueue, setState]

/-! ## What one step can do -/

/-- Waiting parks `current` in the queue. -/
theorem wait_eq_park {p : P} (hc : a.current = some p) (q : Q) :
    a.wait (.wait q) = (a.park p (.wait q)).dispatch := by
  simp [wait, hc, switch, leave, setQueue, setState, park, QueueId.procState]

/-- A step leaves the state alone, dispatches with or without parking or
retiring `current` first, or wakes one process or all processes of a queue. -/
theorem step_cases (a : AbsSched P Q) (op : SchedOp Q)
    (hIdle : op = .idleLoop → a.current = none) :
    ((∀ code, op ≠ .exit code) ∧ a.step op = a) ∨
    (a.current = none ∧ a.step op = a.dispatch) ∨
    (∃ p l, a.current = some p ∧
      ((op = .yield ∨ op = .preempt) ∧ l = .ready ∨ ∃ q, op = .wait q ∧ l = .wait q) ∧
      a.step op = (a.park p l).dispatch) ∨
    (∃ p code, a.current = some p ∧ op = .exit code ∧ a.step op = (a.retire p).dispatch) ∨
    (∃ q, op = .wakeup q ∧ a.step op = a.wakeup (.wait q)) ∨
    (∃ q, op = .wakeupAll q ∧ a.step op = a.wakeupAll (.wait q)) := by
  -- yielding and preempting park `current` in the ready list
  have hReady : a.current = none ∧ a.switch .ready = a.dispatch ∨
      ∃ p, a.current = some p ∧ a.switch .ready = (a.park p .ready).dispatch := by
    cases hc : a.current with
    | none => exact Or.inl ⟨rfl, by simp [switch, leave, hc]⟩
    | some p => exact Or.inr ⟨p, rfl, by simp [switch, leave, hc]; rfl⟩
  cases op with
  | yield =>
    rcases hReady with ⟨hc, hs⟩ | ⟨p, hc, hs⟩
    · exact Or.inr (Or.inl ⟨hc, hs⟩)
    · exact Or.inr (Or.inr (Or.inl ⟨p, .ready, hc, Or.inl ⟨by simp, rfl⟩, hs⟩))
  | preempt =>
    simp only [step, preempt]
    split
    · rcases hReady with ⟨hc, hs⟩ | ⟨p, hc, hs⟩
      · exact Or.inr (Or.inl ⟨hc, hs⟩)
      · exact Or.inr (Or.inr (Or.inl ⟨p, .ready, hc, Or.inl ⟨by simp, rfl⟩, hs⟩))
    · exact Or.inl ⟨by simp, rfl⟩
  | exit code =>
    cases hc : a.current with
    | none => exact Or.inr (Or.inl ⟨rfl, by simp [step, switch, leave, hc]⟩)
    | some p =>
      refine Or.inr (Or.inr (Or.inr (Or.inl ⟨p, code, rfl, rfl, ?_⟩)))
      simp [step, switch, leave, hc, retire]
  | wait q =>
    cases hc : a.current with
    | none => exact Or.inl ⟨by simp, by simp [step, wait, hc]⟩
    | some p =>
      exact Or.inr (Or.inr (Or.inl ⟨p, .wait q, rfl, Or.inr ⟨q, rfl, rfl⟩,
        wait_eq_park hc q⟩))
  | wakeup q => exact Or.inr (Or.inr (Or.inr (Or.inr (Or.inl ⟨q, rfl, rfl⟩))))
  | wakeupAll q => exact Or.inr (Or.inr (Or.inr (Or.inr (Or.inr ⟨q, rfl, rfl⟩))))
  | idleLoop => exact Or.inr (Or.inl ⟨hIdle rfl, rfl⟩)

/-- **Step lemma.** Every step keeps the invariant. -/
theorem Inv.step (h : a.Inv) (op : SchedOp Q) (hIdle : op = .idleLoop → a.current = none) :
    (a.step op).Inv := by
  rcases a.step_cases op
    hIdle with ⟨-, hs⟩ | ⟨hc, hs⟩ | ⟨p, l, hc, -, hs⟩ | ⟨p, code, hc, -, hs⟩ |
    ⟨q, -, hs⟩ | ⟨q, -, hs⟩ <;> rw [hs]
  · exact h
  · exact h.dispatch hc
  · exact (h.park hc l).dispatch rfl
  · exact (h.retire hc).dispatch rfl
  · exact h.wakeup q
  · exact h.wakeupAll q

/-! ## No process is lost -/

omit [DecidableEq P] [DecidableEq Q] in
/-- `p` is running or linked in a list. -/
def Alive (a : AbsSched P Q) (p : P) : Prop := a.current = some p ∨ ¬ a.Unlinked p

theorem alive_dispatch (h : a.Inv) (hc : a.current = none) (x : P) :
    a.dispatch.Alive x ↔ a.Alive x := by
  cases hq : a.queue .ready with
  | nil => simp [AbsSched.dispatch, hq, Alive, Unlinked, hc]
  | cons p ps =>
    have hp : p ∈ a.queue .ready := by simp [hq]
    simp only [AbsSched.dispatch, hq, Alive, Unlinked, setState, setQueue,
      mem_tail_queue h hq, hc, Option.some.injEq]
    constructor
    · rintro (rfl | hx)
      · exact Or.inr fun hc => hc _ hp
      · exact Or.inr fun hc => hx fun l hl => hc l hl.1
    · rintro (hx | hx)
      · cases hx
      · by_cases hxp : p = x
        · exact Or.inl hxp
        · exact Or.inr fun hc => hx fun l hl => hc l ⟨hl, fun h => hxp h.symm⟩

theorem alive_park {p : P} (hp : a.current = some p) (l : QueueId Q) (x : P) :
    (a.park p l).Alive x ↔ a.Alive x := by
  simp only [park, Alive, Unlinked, setState, setQueue, mem_append_queue, hp, Option.some.injEq]
  constructor
  · rintro (hx | hx)
    · cases hx
    · by_cases hxp : p = x
      · exact Or.inl hxp
      · exact Or.inr fun hc => hx fun l' => by
          rintro (hl | ⟨rfl, -⟩)
          · exact hc l' hl
          · exact hxp rfl
  · rintro (rfl | hx)
    · exact Or.inr fun hc => hc l (Or.inr ⟨rfl, rfl⟩)
    · exact Or.inr fun hc => hx fun l' hl => hc l' (Or.inl hl)

omit [DecidableEq Q] in
theorem alive_retire (h : a.Inv) (p x : P) :
    (a.retire p).Alive x ↔ a.Alive x ∧ a.current ≠ some x := by
  constructor
  · rintro (hx | hx)
    · cases hx
    · exact ⟨Or.inr hx, fun hc => hx (h.current x hc).2⟩
  · rintro ⟨hx | hx, hne⟩
    · exact absurd hx hne
    · exact Or.inr hx

theorem alive_wakeup (h : a.Inv) (q : Q) (x : P) :
    (a.wakeup (.wait q)).Alive x ↔ a.Alive x := by
  cases hq : a.queue (.wait q) with
  | nil => simp only [wakeup, hq]
  | cons p ps =>
    have hp : p ∈ a.queue (.wait q) := by simp [hq]
    simp only [wakeup, hq, Alive, Unlinked, mem_wakeup h hq]
    constructor
    · rintro (hx | hx)
      · exact Or.inl hx
      · exact Or.inr fun hc => hx fun l => by
          rintro (⟨hl, -⟩ | ⟨rfl, -⟩)
          · exact hc l hl
          · exact hc _ hp
    · rintro (hx | hx)
      · exact Or.inl hx
      · refine Or.inr fun hc => hx fun l hl => ?_
        by_cases hxp : x = p
        · exact hc .ready (Or.inr ⟨hxp, rfl⟩)
        · exact hc l (Or.inl ⟨hl, hxp⟩)

theorem alive_wakeupAll (h : a.Inv) (q : Q) (x : P) :
    (a.wakeupAll (.wait q)).Alive x ↔ a.Alive x := by
  induction hq : a.queue (.wait q) generalizing a with
  | nil => rw [wakeupAll_nil hq]
  | cons p ps ih =>
    rw [wakeupAll_cons hq, ih (h.wakeup q), alive_wakeup h]
    simp [AbsSched.wakeup, hq, makeReady, setQueue, setState]

/-- **No step loses or duplicates a process.** The processes that are running
or linked are the same before and after, but for the one that exits. -/
theorem alive_step (h : a.Inv) {op : SchedOp Q} (hIdle : op = .idleLoop → a.current = none)
    (x : P) :
    (a.step op).Alive x ↔ a.Alive x ∧
    ¬ ((∃ code, op = .exit code) ∧ a.current = some x) := by
  rcases a.step_cases op hIdle with ⟨hne, hs⟩ | ⟨hc, hs⟩ | ⟨p, l, hc, hop, hs⟩ |
    ⟨p, code, hc, ho, hs⟩ | ⟨q, ho, hs⟩ | ⟨q, ho, hs⟩ <;> rw [hs]
  · simp [hne]
  · rw [alive_dispatch h hc]
    simp [hc]
  · rw [alive_dispatch (h.park hc l) rfl, alive_park hc]
    rcases hop with ⟨rfl | rfl, -⟩ | ⟨q, rfl, -⟩ <;> simp
  · rw [alive_dispatch (h.retire hc) rfl, alive_retire h]
    simp [ho]
  · rw [alive_wakeup h]
    simp [ho]
  · rw [alive_wakeupAll h]
    simp [ho]

/-! ## Runnable processes and untouched queues -/

omit [DecidableEq P] [DecidableEq Q] in
/-- `p` is running or in the ready list. -/
def Runnable (a : AbsSched P Q) (p : P) : Prop := a.current = some p ∨ p ∈ a.queue .ready

theorem runnable_dispatch {x : P} (hx : x ∈ a.queue .ready) : a.dispatch.Runnable x := by
  cases hq : a.queue .ready with
  | nil => simp [hq] at hx
  | cons p ps =>
    rw [hq, List.mem_cons] at hx
    simp only [AbsSched.dispatch, hq, Runnable, setQueue, setState, Function.update_self]
    rcases hx with rfl | hx
    · exact Or.inl rfl
    · exact Or.inr hx

theorem dispatch_queue_wait (a : AbsSched P Q) (q : Q) :
    a.dispatch.queue (.wait q) = a.queue (.wait q) := by
  cases hq : a.queue .ready <;> simp [AbsSched.dispatch, hq, setQueue, setState]

/-- A runnable process stays runnable unless it exits or waits itself. -/
theorem runnable_step (op : SchedOp Q) (hIdle : op = .idleLoop → a.current = none) {x : P}
    (hx : a.Runnable x)
    (hSelf : a.current = some x → (∀ code, op ≠ .exit code) ∧ ∀ q, op ≠ .wait q) :
    (a.step op).Runnable x := by
  rcases a.step_cases op hIdle with ⟨-, hs⟩ | ⟨hc, hs⟩ | ⟨p, l, hc, hop, hs⟩ |
    ⟨p, code, hc, rfl, hs⟩ | ⟨q, -, hs⟩ | ⟨q, -, hs⟩ <;> rw [hs]
  · exact hx
  · rcases hx with hx | hx
    · simp [hc] at hx
    · exact runnable_dispatch hx
  · apply runnable_dispatch
    rcases hop with ⟨-, rfl⟩ | ⟨q, rfl, rfl⟩
    · rcases hx with hx | hx
      · rw [hc] at hx
        simp [park, setQueue, setState, Option.some.inj hx]
      · simp [park, setQueue, setState, hx]
    · rcases hx with hx | hx
      · exact absurd rfl ((hSelf hx).2 q)
      · simpa [park, setQueue, setState] using hx
  · apply runnable_dispatch
    rcases hx with hx | hx
    · exact absurd rfl ((hSelf hx).1 code)
    · exact hx
  · cases hq : a.queue (.wait q) with
    | nil => simpa only [wakeup, hq] using hx
    | cons p ps =>
      simp only [wakeup, hq, Runnable, makeReady, setQueue, setState, Function.update_self]
      rcases hx with hx | hx
      · exact Or.inl hx
      · exact Or.inr (by simp [hx])
  · rcases hx with hx | hx
    · exact Or.inl hx
    · exact Or.inr (by simp [wakeupAll, setQueue, hx])

/-- A wait queue changes only by the operations on it. -/
theorem step_queue_wait {op : SchedOp Q} (hIdle : op = .idleLoop → a.current = none) {q : Q}
    (hq : op ≠ .wait q ∧ op ≠ .wakeup q ∧ op ≠ .wakeupAll q) :
    (a.step op).queue (.wait q) = a.queue (.wait q) := by
  obtain ⟨hWait, hWake, hAll⟩ := hq
  rcases a.step_cases op hIdle with ⟨-, hs⟩ | ⟨-, hs⟩ | ⟨p, l, -, hop, hs⟩ |
    ⟨p, code, -, -, hs⟩ | ⟨q', rfl, hs⟩ | ⟨q', rfl, hs⟩ <;> rw [hs]
  · exact dispatch_queue_wait a q
  · rw [dispatch_queue_wait]
    rcases hop with ⟨-, rfl⟩ | ⟨q', rfl, rfl⟩
    · simp [park, setQueue, setState]
    · have hne : q ≠ q' := fun hc => hWait (by rw [hc])
      simp [park, setQueue, setState, hne]
  · rw [dispatch_queue_wait]
    rfl
  · have hne : q ≠ q' := fun hc => hWake (by rw [hc])
    cases hq' : a.queue (.wait q') <;> simp [wakeup, hq', makeReady, setQueue, setState, hne]
  · have hne : q ≠ q' := fun hc => hAll (by rw [hc])
    simp [wakeupAll, setQueue, hne]

end AbsSched

end Hexos
