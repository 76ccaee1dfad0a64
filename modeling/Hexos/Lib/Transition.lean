import Mathlib.Logic.Basic
import Mathlib.Logic.Relation

/-!
# Transition systems and dialogues

A system is a set of initial states and a step relation. A property of
every reachable state is proved by an inductive invariant: it holds
initially and every step from a reachable state keeps it.

A dialogue is a sequence of turns: an input, the answer to it, and the state it
leaves. What may be answered is a relation, so a system that fails on some inputs
has no turn there, and one that leaves a choice open has several. A system keeps to
a specification when every turn of it is one of the specification, up to a relation
between the states. Then every dialogue with the system could have been one with
the specification, word for word.

* `Reachable.invariant` — the invariant rule.
* `Simulates.run` — from turns to dialogues.
-/

universe u v w x

-- ---------------------------------------------------------------------------
-- Invariants
-- ---------------------------------------------------------------------------

namespace Transition

variable {σ : Type u}

/-- A transition system over the states `σ`. -/
structure System (σ : Type u) where
  init : σ → Prop
  step : σ → σ → Prop

/-- The states that some finite run of the system reaches. -/
inductive Reachable (S : System σ) : σ → Prop
  | init {s : σ} : S.init s → Reachable S s
  | step {s s' : σ} : Reachable S s → S.step s s' → Reachable S s'

/-- **Invariant rule.** A property that holds initially and that every step
from a reachable state keeps holds in every reachable state. -/
theorem Reachable.invariant {S : System σ} {I : σ → Prop}
    (hInit : ∀ s, S.init s → I s)
    (hStep : ∀ s s', Reachable S s → I s → S.step s s' → I s')
    {s : σ} (h : Reachable S s) : I s := by
  induction h with
  | init hs => exact hInit _ hs
  | step hr hst ih => exact hStep _ _ hr ih hst

end Transition

-- ---------------------------------------------------------------------------
-- Dialogues
-- ---------------------------------------------------------------------------

namespace Dialogue

variable {σ : Type u} {τ : Type v} {ι : Type w} {ω : Type x}

/-- In the state `s` the input `i` may be answered with `o`, which leaves `s'`. -/
abbrev Turn (σ : Type u) (ι : Type w) (ω : Type x) := σ → ι → ω → σ → Prop

/-- What was said from one state to another, in its order. -/
inductive Run (turn : Turn σ ι ω) : σ → List (ι × ω) → σ → Prop
  | nil (s : σ) : Run turn s [] s
  | cons {s s' s'' : σ} {i : ι} {o : ω} {log : List (ι × ω)} :
      turn s i o s' → Run turn s' log s'' → Run turn s ((i, o) :: log) s''

theorem Run.append {turn : Turn σ ι ω} {s s' s'' : σ} {log log' : List (ι × ω)}
    (h : Run turn s log s') (h' : Run turn s' log' s'') : Run turn s (log ++ log') s'' := by
  induction h with
  | nil _ => exact h'
  | cons hTurn _ ih => exact .cons hTurn (ih h')

/-- Every turn of the system is a turn of the specification. -/
def Simulates (turn : Turn σ ι ω) (spec : Turn τ ι ω) (R : τ → σ → Prop) : Prop :=
  ∀ t s i o s', R t s → turn s i o s' → ∃ t', spec t i o t' ∧ R t' s'

/-- **Run lemma.** The induction is on the turns. -/
theorem Simulates.run {turn : Turn σ ι ω} {spec : Turn τ ι ω} {R : τ → σ → Prop}
    (h : Simulates turn spec R) {s s' : σ} {log : List (ι × ω)}
    (hRun : Run turn s log s') {t : τ} (hR : R t s) : ∃ t', Run spec t log t' ∧ R t' s' := by
  induction hRun generalizing t with
  | nil s => exact ⟨t, .nil t, hR⟩
  | cons hTurn _ ih =>
    obtain ⟨t₁, hSpec, hR₁⟩ := h _ _ _ _ _ hR hTurn
    obtain ⟨t', hRest, hR'⟩ := ih hR₁
    exact ⟨t', .cons hSpec hRest, hR'⟩

end Dialogue
