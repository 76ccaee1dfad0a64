import Mathlib.Data.List.Basic
import Mathlib.Logic.Basic

/-!
# Programs that log events, and monitors of their logs

A program over a state appends events to a log and returns, or is still running
when the bound on its loops is used up; the log is there in either case. A
monitor is an automaton over events that rejects a log by having no next phase.
A triple says that the log of a program is accepted from every phase and state of
the precondition, and in which phases and states it ends.

* `Triple.bind`, `Triple.emit` — the rules for programs.
* `rejects_bind` — what is rejected stays rejected.
* `Returns.bind` — programs that return from every state.
* `Runs.bind` — programs that return from one state.
-/

universe u v w x

/-- A program over the state `σ` that logs events `ε`: the value it returns, if it
does, the state and the log. -/
def Traced (σ : Type u) (ε : Type v) (α : Type w) : Type (max u v w) :=
  σ → Option α × σ × List ε

namespace Traced

variable {σ : Type u} {ε : Type v} {α β : Type w} {q : Type x}

/-- Return a value. -/
def ret (a : α) : Traced σ ε α := fun s => (some a, s, [])

/-- One program after another; the second does not start while the first one is
running. -/
def andThen (f : Traced σ ε α) (g : α → Traced σ ε β) : Traced σ ε β := fun s =>
  match f s with
  | (none, s, log) => (none, s, log)
  | (some a, s, log) => ((g a s).1, (g a s).2.1, log ++ (g a s).2.2)

instance : Monad (Traced σ ε) where
  pure := ret
  bind := andThen

/-- Still running. -/
def running : Traced σ ε α := fun s => (none, s, [])

/-- Log an event. -/
def emit (e : ε) : Traced σ ε PUnit := fun s => (some ⟨⟩, s, [e])

/-- Compute a value and a state. -/
def update (f : σ → α × σ) : Traced σ ε α := fun s => (some (f s).1, (f s).2, [])

-- ---------------------------------------------------------------------------
-- Monitors
-- ---------------------------------------------------------------------------

/-- The phase after a log, or `none` if the monitor rejects it. -/
def monitor (δ : q → ε → Option q) : q → List ε → Option q
  | p, [] => some p
  | p, e :: log => (δ p e).bind fun p => monitor δ p log

theorem monitor_append (δ : q → ε → Option q) (p : q) (l l' : List ε) :
    monitor δ p (l ++ l') = (monitor δ p l).bind fun p => monitor δ p l' := by
  induction l generalizing p with
  | nil => rfl
  | cons e l ih =>
    rw [List.cons_append, monitor, monitor, Option.bind_assoc]
    congr 1
    funext p'
    exact ih p'

/-- From the phases and states `P` the log of the program is accepted, and it ends
in a phase and a state of `Q`. -/
def Triple (δ : q → ε → Option q) (P : q → σ → Prop) (f : Traced σ ε α)
    (Q : Option α → q → σ → Prop) : Prop :=
  ∀ p s, P p s → ∃ p', monitor δ p (f s).2.2 = some p' ∧ Q (f s).1 p' (f s).2.1

variable {δ : q → ε → Option q} {P P' : q → σ → Prop} {f : Traced σ ε α}
  {g : α → Traced σ ε β}

theorem Triple.strengthen {Q : Option α → q → σ → Prop} (h : Triple δ P f Q)
    (hPre : ∀ p s, P' p s → P p s) : Triple δ P' f Q :=
  fun p s hp => h p s (hPre p s hp)

/-- The run itself is part of what a triple gives. -/
theorem Triple.exact {Q : Option α → q → σ → Prop} (h : Triple δ P f Q) (s₀ : σ) :
    Triple δ (fun p s => P p s ∧ s = s₀) f fun r p s => Q r p s ∧
    ∃ log, f s₀ = (r, s, log) := by
  rintro p s ⟨hp, rfl⟩
  obtain ⟨p', hLog, hQ⟩ := h p s hp
  exact ⟨p', hLog, hQ, (f s).2.2, rfl⟩

/-- A triple for each phase and state of the precondition. -/
theorem Triple.of_forall {Q : Option α → q → σ → Prop}
    (h : ∀ p s, P p s → Triple δ (fun p' s' => p' = p ∧ s' = s) f Q) : Triple δ P f Q :=
  fun p s hp => h p s hp p s ⟨rfl, rfl⟩

theorem Triple.pure {Q : Option α → q → σ → Prop} {a : α}
    (h : ∀ p s, P p s → Q (some a) p s) :
    Triple δ P (pure a : Traced σ ε α) Q :=
  fun p s hp => ⟨p, rfl, h p s hp⟩

theorem Triple.running {Q : Option α → q → σ → Prop} (h : ∀ p s, P p s → Q none p s) :
    Triple δ P (running : Traced σ ε α) Q :=
  fun p s hp => ⟨p, rfl, h p s hp⟩

theorem Triple.update {Q : Option α → q → σ → Prop} {f : σ → α × σ}
    (h : ∀ p s, P p s → Q (some (f s).1) p (f s).2) :
    Triple δ P (update f : Traced σ ε α) Q :=
  fun p s hp => ⟨p, rfl, h p s hp⟩

theorem Triple.emit {Q : Option PUnit → q → σ → Prop} {e : ε}
    (h : ∀ p s, P p s → ∃ p', δ p e = some p' ∧ Q (some ⟨⟩) p' s) :
    Triple δ P (emit e : Traced σ ε PUnit) Q := by
  intro p s hp
  obtain ⟨p', hNext, hQ⟩ := h p s hp
  refine ⟨p', ?_, hQ⟩
  show (δ p e).bind (fun p => some p) = some p'
  rw [hNext, Option.bind_some]

/-- **Sequence.** -/
theorem Triple.bind {R : Option α → q → σ → Prop} {Q : Option β → q → σ → Prop}
    (hf : Triple δ P f R) (hg : ∀ a, Triple δ (R (some a)) (g a) Q)
    (hRunning : ∀ p s, R none p s → Q none p s) : Triple δ P (f >>= g) Q := by
  intro p s hp
  obtain ⟨p', hLog, hR⟩ := hf p s hp
  show ∃ p', monitor δ p (andThen f g s).2.2 = some p' ∧
    Q (andThen f g s).1 p' (andThen f g s).2.1
  unfold andThen
  rcases hRun : f s with ⟨_ | a, s', log⟩
  · rw [hRun] at hLog hR
    exact ⟨p', hLog, hRunning p' s' hR⟩
  · rw [hRun] at hLog hR
    obtain ⟨p'', hLog', hQ⟩ := hg a p' s' hR
    refine ⟨p'', ?_, hQ⟩
    show monitor δ p (log ++ (g a s').2.2) = some p''
    rw [monitor_append, hLog, Option.bind_some, hLog']

/-- A value computed first. -/
theorem Triple.bind_update {R : α → q → σ → Prop} {Q : Option β → q → σ → Prop}
    {f : σ → α × σ} (hf : ∀ p s, P p s → R (f s).1 p (f s).2)
    (hg : ∀ a, Triple δ (R a) (g a) Q) :
    Triple δ P (Traced.update f >>= g) Q := by
  intro p s hp
  exact hg (f s).1 p (f s).2 (hf p s hp)

/-- An event first. -/
theorem Triple.bind_emit {R : q → σ → Prop} {Q : Option β → q → σ → Prop} {e : ε}
    {g : PUnit → Traced σ ε β} (he : ∀ p s, P p s → ∃ p', δ p e = some p' ∧ R p' s)
    (hg : Triple δ R (g ⟨⟩) Q) : Triple δ P (Traced.emit e >>= g) Q := by
  intro p s hp
  obtain ⟨p', hNext, hR⟩ := he p s hp
  obtain ⟨p'', hLog, hQ⟩ := hg p' s hR
  refine ⟨p'', ?_, hQ⟩
  show (δ p e).bind (fun p => monitor δ p (g ⟨⟩ s).2.2) = some p''
  rw [hNext, Option.bind_some, hLog]

-- ---------------------------------------------------------------------------
-- Rejected logs
-- ---------------------------------------------------------------------------

/-- The monitor rejects the log of the program from the phase `p` and the state `s`. -/
def Rejects (δ : q → ε → Option q) (p : q) (f : Traced σ ε α) (s : σ) : Prop :=
  monitor δ p (f s).2.2 = none

/-- A program that starts with a rejected one. -/
theorem rejects_bind {p : q} {s : σ} (h : Rejects δ p f s) : Rejects δ p (f >>= g) s := by
  show monitor δ p (andThen f g s).2.2 = none
  unfold Rejects at h
  unfold andThen
  rcases hRun : f s with ⟨_ | a, s', log⟩
  · rwa [hRun] at h
  · rw [hRun] at h
    show monitor δ p (log ++ (g a s').2.2) = none
    rw [monitor_append, h, Option.bind_none]

/-- A program that goes on with a rejected one. -/
theorem rejects_bind_of_done {p p' : q} {s s' : σ} {a : α} {log : List ε}
    (hRun : f s = (some a, s', log)) (hLog : monitor δ p log = some p')
    (h : Rejects δ p' (g a) s') :
    Rejects δ p (f >>= g) s := by
  show monitor δ p (andThen f g s).2.2 = none
  unfold andThen
  rw [hRun]
  show monitor δ p (log ++ (g a s').2.2) = none
  rw [monitor_append, hLog, Option.bind_some]
  exact h

-- ---------------------------------------------------------------------------
-- Programs that return
-- ---------------------------------------------------------------------------

/-- From every state the program returns `a`. -/
def Returns (f : Traced σ ε α) (a : α) : Prop := ∀ s, (f s).1 = some a

theorem Returns.pure (a : α) : Returns (Pure.pure a : Traced σ ε α) a := fun _ => rfl

theorem Returns.emit (e : ε) : Returns (emit e : Traced σ ε PUnit) ⟨⟩ := fun _ => rfl

/-- **Sequence.** -/
theorem Returns.bind {a : α} {b : β} (hf : Returns f a) (hg : Returns (g a) b) :
    Returns (f >>= g) b := by
  intro s
  show (andThen f g s).1 = some b
  unfold andThen
  have hRun := hf s
  rcases hCase : f s with ⟨_ | a', s', log⟩
  · rw [hCase] at hRun
    cases hRun
  · rw [hCase] at hRun
    obtain rfl := Option.some.inj hRun
    exact hg s'

/-- From the state `s` the program returns `a` and leaves `s'`. -/
def Runs (f : Traced σ ε α) (s : σ) (a : α) (s' : σ) : Prop :=
  ∃ log, f s = (some a, s', log)

theorem Runs.pure (a : α) (s : σ) : Runs (Pure.pure a : Traced σ ε α) s a s := ⟨[], rfl⟩

theorem Runs.emit (e : ε) (s : σ) : Runs (Traced.emit e : Traced σ ε PUnit) s ⟨⟩ s :=
  ⟨[e], rfl⟩

theorem Runs.update (f : σ → α × σ) (s : σ) :
    Runs (Traced.update f : Traced σ ε α) s (f s).1 (f s).2 := ⟨[], rfl⟩

/-- **Sequence.** -/
theorem Runs.bind {s s' s'' : σ} {a : α} {b : β} (hf : Runs f s a s')
    (hg : Runs (g a) s' b s'') :
    Runs (f >>= g) s b s'' := by
  obtain ⟨log, hf⟩ := hf
  obtain ⟨log', hg⟩ := hg
  refine ⟨log ++ log', ?_⟩
  show andThen f g s = _
  unfold andThen
  rw [hf]
  simp only [hg]

end Traced
