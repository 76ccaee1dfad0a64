import Mathlib.Logic.Basic

/-!
# Outcomes of code that may stop or loop

A call of imperative code returns, stops with a message, or is still running
when the bound on the rounds of its loops is used up.

* `Outcome.bind_eq_done` — a sequence of two calls returns exactly when both
  do.
-/

universe u v

/-- What has become of a call. -/
inductive Outcome (α : Type u) where
  | done (a : α)
  | panic (msg : String)
  | running

namespace Outcome

variable {α : Type u} {β : Type v}

/-- Go on with the value returned. -/
def bind (x : Outcome α) (f : α → Outcome β) : Outcome β :=
  match x with
  | .done a => f a
  | .panic msg => .panic msg
  | .running => .running

/-- Change the value returned. -/
def map (f : α → β) (x : Outcome α) : Outcome β :=
  x.bind fun a => .done (f a)

@[simp] theorem bind_done (a : α) (f : α → Outcome β) : (Outcome.done a).bind f = f a := rfl

@[simp] theorem map_done (f : α → β) (a : α) : (Outcome.done a).map f = .done (f a) := rfl

theorem map_map {γ : Type u} (f : α → β) (g : β → γ) (x : Outcome α) :
    (x.map f).map g = x.map fun a => g (f a) := by
  cases x <;> rfl

/-- A change of the value that is taken back. -/
theorem map_map_self {f : α → β} {g : β → α} (h : ∀ a, g (f a) = a) (x : Outcome α) :
    (x.map f).map g = x := by
  cases x with
  | done a => exact congrArg Outcome.done (h a)
  | panic msg => rfl
  | running => rfl

/-- Two sequences of calls, the second of which sees the values of the first through
`k`. -/
theorem map_bind_congr {α' : Type u} {β' : Type v} {x : Outcome α} {g : α → Outcome β}
    {f : β → β'} {k : α → α'} {g' : α' → Outcome β'}
    (h : ∀ a, (g a).map f = g' (k a)) :
    (x.bind g).map f = (x.map k).bind g' := by
  cases x with
  | done a => exact h a
  | panic msg => rfl
  | running => rfl

theorem map_bind {β' : Type v} {x : Outcome α} {g : α → Outcome β} {f : β → β'}
    {g' : α → Outcome β'} (h : ∀ a, (g a).map f = g' a) : (x.bind g).map f = x.bind g' := by
  cases x with
  | done a => exact h a
  | panic msg => rfl
  | running => rfl

theorem bind_eq_done {x : Outcome α} {f : α → Outcome β} {c : β} :
    x.bind f = .done c ↔ ∃ a, x = .done a ∧ f a = .done c := by
  cases x with
  | done a => simp
  | panic msg => simp [bind]
  | running => simp [bind]

theorem map_eq_done {f : α → β} {x : Outcome α} {c : β} :
    x.map f = .done c ↔ ∃ a, x = .done a ∧ f a = c := by
  unfold map
  rw [bind_eq_done]
  simp

theorem bind_eq_panic {x : Outcome α} {f : α → Outcome β} {msg : String} :
    x.bind f = .panic msg ↔ x = .panic msg ∨ ∃ a, x = .done a ∧ f a = .panic msg := by
  cases x with
  | done a => simp
  | panic msg' => simp [bind]
  | running => simp [bind]

theorem map_eq_panic {f : α → β} {x : Outcome α} {msg : String} :
    x.map f = .panic msg ↔ x = .panic msg := by
  unfold map
  rw [bind_eq_panic]
  simp

/-- The value returned, if the call returned. -/
def toOption : Outcome α → Option α
  | .done a => some a
  | _ => none

/-- The message, if the call stopped with one. -/
def message : Outcome α → Option String
  | .panic msg => some msg
  | _ => none

theorem toOption_eq_some {x : Outcome α} {a : α} : x.toOption = some a ↔ x = .done a := by
  cases x <;> simp [toOption]

theorem message_eq_some {x : Outcome α} {msg : String} :
    x.message = some msg ↔ x = .panic msg := by
  cases x <;> simp [message]

end Outcome
