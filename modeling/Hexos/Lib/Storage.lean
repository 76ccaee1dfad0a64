import Mathlib.Algebra.Group.Nat.Defs
import Mathlib.Logic.Basic

/-!
# Blocks and directories

Several devices, each with blocks that are numbered from 0. A request moves some of
its blocks, from the first one on, and all of them if it is reported as done.

A directory has a list of names, and a name may stand for a directory below or for a
file with its content. Who goes down to a directory can go up again to where it came
from: this is part of what a tree is.

* `put_put`, `put_get`, `put_other` — ranges of blocks.
* `Run.untouched` — a block that no write of a run asks for.
* `FileTree.up_down` — a way down, and as many steps up.
-/

universe u v w

-- ---------------------------------------------------------------------------
-- Stores of numbered blocks
-- ---------------------------------------------------------------------------

namespace BlockStore

variable {δ : Type u} {β : Type v} [DecidableEq δ]

/-- The contents of the blocks. -/
abbrev Store (δ : Type u) (β : Type v) := δ → Nat → β

/-- The `n` blocks of `d` from `a` on replaced. -/
def Store.put (S : Store δ β) (d : δ) (a n : Nat) (data : Nat → β) : Store δ β := fun d' b =>
  if d' = d ∧ a ≤ b ∧ b < a + n then data (b - a) else S d' b

variable {S S' S'' : Store δ β} {d d' : δ} {a n b k : Nat} {data : Nat → β}

theorem put_zero : S.put d a 0 data = S := by
  funext d' b
  exact if_neg (by omega)

theorem put_get (h : k < n) : S.put d a n data d (a + k) = data k := by
  unfold Store.put
  rw [if_pos ⟨rfl, by omega, by omega⟩, Nat.add_sub_cancel_left]

theorem put_other (h : d' = d → b < a ∨ a + n ≤ b) : S.put d a n data d' b = S d' b := by
  refine if_neg fun hIn => ?_
  have hOut := h hIn.1
  omega

/-- One block, and then those after it. -/
theorem put_put :
    (S.put d a 1 fun _ => data 0).put d (a + 1) n (fun i => data (i + 1)) =
      S.put d a (n + 1) data := by
  funext d' b
  unfold Store.put
  by_cases hRest : d' = d ∧ a + 1 ≤ b ∧ b < a + 1 + n
  · rw [if_pos hRest, if_pos ⟨hRest.1, by omega, by omega⟩]
    exact congrArg data (by omega)
  · rw [if_neg hRest]
    by_cases hFirst : d' = d ∧ a ≤ b ∧ b < a + 1
    · rw [if_pos hFirst, if_pos ⟨hFirst.1, by omega, by omega⟩]
      exact congrArg data (by omega)
    · rw [if_neg hFirst, if_neg]
      rintro ⟨hEq, hl, hr⟩
      by_cases hb : b = a
      · exact hFirst ⟨hEq, by omega, by omega⟩
      · exact hRest ⟨hEq, by omega, by omega⟩

/-- A request for `count` blocks of `device` from `first` on; `data` is what a write asks
for. -/
structure Request (δ : Type u) (β : Type v) where
  device : δ
  first  : Nat
  count  : Nat
  data   : Option (Nat → β)

/-- What a request does to the store: a write replaces the first blocks it asks for, all of them
if it is reported as done. -/
def Request.Does (r : Request δ β) (done : Bool) (S S' : Store δ β) : Prop :=
  match r.data with
  | none => S' = S
  | some data =>
    ∃ j ≤ r.count, S' = S.put r.device r.first j data ∧ (done = true → j = r.count)

/-- A run of requests, each with its report. -/
inductive Run : Store δ β → List (Request δ β × Bool) → Store δ β → Prop
  | nil (S : Store δ β) : Run S [] S
  | cons {S S' S'' : Store δ β} {r : Request δ β} {done : Bool}
      {rs : List (Request δ β × Bool)}
      (hFirst : r.Does done S S') (hRest : Run S' rs S'') : Run S ((r, done) :: rs) S''

/-- The request writes the block. -/
def Request.Writes (r : Request δ β) (d : δ) (b : Nat) : Prop :=
  r.data.isSome ∧ r.device = d ∧ r.first ≤ b ∧ b < r.first + r.count

theorem Request.Does.other {r : Request δ β} {done : Bool} (h : r.Does done S S')
    (hOther : ¬ r.Writes d b) : S' d b = S d b := by
  unfold Request.Does at h
  unfold Request.Writes at hOther
  cases hData : r.data with
  | none =>
    rw [hData] at h
    exact congrFun (congrFun h d) b
  | some data =>
    rw [hData] at h
    obtain ⟨j, hj, hPut, -⟩ := h
    rw [hPut]
    refine put_other fun hDevice => ?_
    by_cases hLow : b < r.first
    · exact Or.inl hLow
    · by_cases hHigh : b < r.first + r.count
      · exact absurd ⟨by rw [hData]; rfl, hDevice.symm, by omega, hHigh⟩ hOther
      · exact Or.inr (by omega)

/-- **Run lemma.** A block that no request of the run writes keeps its contents. -/
theorem Run.untouched {rs : List (Request δ β × Bool)} (h : Run S rs S')
    (hOther : ∀ p ∈ rs, ¬ p.1.Writes d b) : S' d b = S d b := by
  induction h with
  | nil => rfl
  | cons hFirst _ ih =>
    rw [ih fun p hp => hOther p (List.mem_cons_of_mem _ hp),
      hFirst.other (hOther _ List.mem_cons_self)]

end BlockStore

-- ---------------------------------------------------------------------------
-- Trees of directories
-- ---------------------------------------------------------------------------

/-- What a name stands for. -/
inductive FileTree.Entry (δ : Type u) (β : Type w)
  | dir (d : δ)
  | file (content : List β)

/-- A tree of directories `δ`, with names `ν` and files of `β`. -/
structure FileTree (δ : Type u) (ν : Type v) (β : Type w) where
  root    : δ
  above   : δ → Option δ
  listing : δ → List ν
  find    : δ → ν → Option (FileTree.Entry δ β)
  back    : ∀ {d e n}, find d n = some (.dir e) → above e = some d

namespace FileTree

variable {δ : Type u} {ν : Type v} {β : Type w} (t : FileTree δ ν β)

/-- The names lead from one directory down to the other. -/
inductive Down : δ → List ν → δ → Prop
  | nil (d : δ) : Down d [] d
  | cons {d e f : δ} {n : ν} {names : List ν} : t.find d n = some (.dir e) → Down e names f →
      Down d (n :: names) f

/-- So many steps lead from one directory up to the other. -/
inductive Up : δ → Nat → δ → Prop
  | zero (d : δ) : Up d 0 d
  | succ {d e f : δ} {k : Nat} : t.above d = some e → Up e k f → Up d (k + 1) f

variable {t} {d e f : δ} {names : List ν} {k : Nat}

/-- One step more. -/
theorem Up.concat (h : t.Up d k e) (hLast : t.above e = some f) : t.Up d (k + 1) f := by
  induction h with
  | zero d => exact .succ hLast (.zero f)
  | succ hStep _ ih => exact .succ hStep (ih hLast)

theorem Up.unique (h : t.Up d k e) (h' : t.Up d k f) : e = f := by
  induction h with
  | zero d =>
    cases h' with
    | zero d => rfl
  | succ hStep _ ih =>
    cases h' with
    | succ hStep' hRest' =>
      obtain rfl := Option.some.inj (hStep.symm.trans hStep')
      exact ih hRest'

/-- **Down and up.** -/
theorem up_down (h : t.Down d names e) : t.Up e names.length d := by
  induction h with
  | nil d => exact .zero d
  | cons hFind _ ih => exact ih.concat (t.back hFind)

end FileTree
