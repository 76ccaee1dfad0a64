import Mathlib.Data.List.Pairwise
import Mathlib.Logic.Function.Basic

/-!
# Moves between cells

A move copies one cell to another. Moves that are made one after the other leave what
they would leave if all were made at once, when each of them spares the ones behind
it: it writes no cell that they read or write. What a move overwrites may have been
read before it.

* `Move.run_atOnce` — the rule.
* `Move.up_spares`, `Move.down_spares` — a range that is copied from its lower end up,
  and one from its upper end down.
* `Move.AtOnce.copies` — the cells after a range has been copied.
-/

universe u v

/-- Copy the cell `source` to the cell `target`. -/
structure Move (α : Type u) where
  target : α
  source : α

namespace Move

variable {α : Type u} {β : Type v} {m m' : α → β} {moves moves' : List (Move α)}

/-- `m'` is what the moves leave if all of them are made at once. -/
structure AtOnce (moves : List (Move α)) (m m' : α → β) : Prop where
  targets : ∀ move ∈ moves, m' move.target = m move.source
  others  : ∀ x, (∀ move ∈ moves, move.target ≠ x) → m' x = m x

/-- Which move comes first does not matter. -/
theorem AtOnce.perm (h : AtOnce moves m m') (hPerm : moves.Perm moves') : AtOnce moves' m m' := by
  refine ⟨?_, ?_⟩
  · intro move hMove
    exact h.targets move (hPerm.mem_iff.mpr hMove)
  · intro x hOther
    exact h.others x fun move hMove => hOther move (hPerm.mem_iff.mp hMove)

/-- The move `a` writes nothing that `b` reads or writes. -/
def Spares (a b : Move α) : Prop := a.target ≠ b.source ∧ a.target ≠ b.target

-- ---------------------------------------------------------------------------
-- One after the other
-- ---------------------------------------------------------------------------

variable [DecidableEq α]

/-- The moves, one after the other. -/
def run (m : α → β) : List (Move α) → α → β
  | [] => m
  | move :: moves => run (Function.update m move.target (m move.source)) moves

theorem run_other {x : α} (h : ∀ move ∈ moves, move.target ≠ x) : run m moves x = m x := by
  induction moves generalizing m with
  | nil => rfl
  | cons move moves ih =>
    obtain ⟨hFirst, hRest⟩ := List.forall_mem_cons.mp h
    rw [run, ih hRest, Function.update_of_ne (Ne.symm hFirst)]

theorem run_target (h : moves.Pairwise Spares) :
    ∀ move ∈ moves, run m moves move.target = m move.source := by
  induction moves generalizing m with
  | nil => exact fun move hMove => absurd hMove List.not_mem_nil
  | cons first moves ih =>
    obtain ⟨hFirst, hRest⟩ := List.pairwise_cons.mp h
    intro move hMove
    rw [run]
    rcases List.mem_cons.mp hMove with rfl | hMove
    · -- no later move writes the target of the first one again
      rw [run_other fun later hLater => Ne.symm (hFirst later hLater).2, Function.update_self]
    · -- the first move has not written what this one reads
      rw [ih hRest move hMove, Function.update_of_ne (Ne.symm (hFirst move hMove).1)]

/-- **The rule.** -/
theorem run_atOnce (h : moves.Pairwise Spares) : AtOnce moves m (run m moves) :=
  ⟨run_target h, fun _ => run_other⟩

-- ---------------------------------------------------------------------------
-- Ranges
-- ---------------------------------------------------------------------------

/-- The cell `k` of the range at `src` to the one of the range at `dst`. -/
def between (dst src k : Nat) : Move Nat := ⟨dst + k, src + k⟩

variable {dst src i n : Nat}

/-- The cells `i` to `i + n` of the range at `dst` are those of the range at `src`, and all
others are as they were. -/
theorem AtOnce.copies {m m' : Nat → β}
    (h : AtOnce ((List.range' i n).map (between dst src)) m m') :
    (∀ k, i ≤ k → k < i + n → m' (dst + k) = m (src + k)) ∧
      ∀ x, x < dst + i ∨ dst + i + n ≤ x → m' x = m x := by
  refine ⟨?_, ?_⟩
  · intro k hLow hHigh
    exact h.targets _ (List.mem_map_of_mem (List.mem_range'_1.mpr ⟨hLow, hHigh⟩))
  · intro x hx
    refine h.others x ?_
    intro move hMove
    obtain ⟨k, hk, rfl⟩ := List.mem_map.mp hMove
    rw [List.mem_range'_1] at hk
    show dst + k ≠ x
    omega

/-- **Up.** The targets lie below the sources, or behind all of them. -/
theorem up_spares (h : dst ≤ src ∨ src + n ≤ dst) :
    ((List.range' i n).map (between dst src)).Pairwise Spares := by
  rw [List.pairwise_map]
  refine List.Pairwise.imp_of_mem ?_ List.pairwise_lt_range'
  intro j k hj hk hjk
  rw [List.mem_range'_1] at hj hk
  refine ⟨?_, ?_⟩
  · show dst + j ≠ src + k
    omega
  · show dst + j ≠ dst + k
    omega

/-- **Down.** The targets lie above the sources, or are the sources. -/
theorem down_spares (h : src ≤ dst) :
    ((List.range' i n).reverse.map (between dst src)).Pairwise Spares := by
  rw [List.pairwise_map, List.pairwise_reverse]
  refine List.Pairwise.imp ?_ List.pairwise_lt_range'
  intro j k hjk
  refine ⟨?_, ?_⟩
  · show dst + k ≠ src + j
    omega
  · show dst + k ≠ dst + j
    omega

end Move
