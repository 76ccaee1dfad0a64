import Mathlib.Data.Finset.Max
import Mathlib.Data.List.Induction
import Mathlib.Data.List.Pairwise
import Mathlib.Data.List.Sort
import Mathlib.Order.Basic

/-!
# Orders by priority

A list is a stable order of the arrivals when its keys do not increase and the
elements of one key stand as they arrived. An element that arrives last goes before the
first one with a smaller key, which is `List.orderedInsert` for the strict order.

A stack of levels is nested when each entry has a higher priority, that is a smaller
level, than those below it. A controller that keeps the set of these levels and removes
its least element ends the innermost entry.

* `StableOrder.arrive` — one more arrival.
* `StableOrder.fold` — all arrivals, one after the other.
* `Nested.push`, `Nested.pop` — one more entry, and the end of the innermost one.
-/

universe u v

-- ---------------------------------------------------------------------------
-- Stable orders
-- ---------------------------------------------------------------------------

section

variable {α : Type u} {κ : Type v} [LinearOrder κ] {key : α → κ}

/-- The list `order` has the elements of `arrivals`, by `key` from the largest to the
smallest, and first come first served where the keys are equal. -/
structure StableOrder (key : α → κ) (arrivals order : List α) : Prop where
  descending : order.Pairwise fun x y => key y ≤ key x
  fifo       : ∀ k, order.filter (fun x => key x = k) = arrivals.filter (fun x => key x = k)

namespace StableOrder

/-- Put `x` before the first element of a smaller key. -/
def arriving (key : α → κ) (order : List α) (x : α) : List α :=
  order.orderedInsert (fun x y => key y < key x) x

theorem nil : StableOrder key [] [] :=
  ⟨.nil, fun _ => rfl⟩

theorem mem_iff {arrivals order : List α} (h : StableOrder key arrivals order) (x : α) :
    x ∈ order ↔ x ∈ arrivals := by
  have hMem : ∀ l : List α, x ∈ l ↔ x ∈ l.filter fun y => key y = key x := by simp
  rw [hMem, h.fifo, ← hMem]

theorem descending_arriving {order : List α} (x : α)
    (h : order.Pairwise fun x y => key y ≤ key x) :
    (arriving key order x).Pairwise fun x y => key y ≤ key x := by
  induction order with
  | nil => exact List.pairwise_singleton _ _
  | cons y ys ih =>
    rw [List.pairwise_cons] at h
    rw [arriving, List.orderedInsert_cons]
    split
    · rename_i hLt
      rw [List.pairwise_cons, List.pairwise_cons]
      refine ⟨?_, h⟩
      intro z hz
      rcases List.mem_cons.mp hz with rfl | hz
      · exact hLt.le
      · exact (h.1 z hz).trans hLt.le
    · rename_i hLt
      rw [List.pairwise_cons]
      refine ⟨?_, ih h.2⟩
      intro z hz
      rcases (List.mem_orderedInsert _).mp hz with rfl | hz
      · exact not_lt.mp hLt
      · exact h.1 z hz

/-- Behind the elements of its own key the new one comes last. -/
theorem filter_arriving {order : List α} (x : α) (k : κ)
    (h : order.Pairwise fun x y => key y ≤ key x) :
    (arriving key order x).filter (fun y => key y = k) =
      (order ++ [x]).filter (fun y => key y = k) := by
  induction order with
  | nil => rfl
  | cons y ys ih =>
    rw [List.pairwise_cons] at h
    rw [arriving, List.orderedInsert_cons]
    split
    · -- all keys from here on are smaller than that of `x`
      rename_i hLt
      rw [List.filter_append, List.filter_cons]
      by_cases hk : key x = k
      · have hNone : (y :: ys).filter (fun z => key z = k) = [] := by
          rw [List.filter_eq_nil_iff]
          intro z hz
          have hz : key z ≤ key y := by
            rcases List.mem_cons.mp hz with rfl | hz
            · exact le_rfl
            · exact h.1 z hz
          simpa [← hk] using (hz.trans_lt hLt).ne
        simp [hNone, hk]
      · simp [hk]
    · have hRest := ih h.2
      rw [arriving] at hRest
      rw [List.cons_append, List.filter_cons, List.filter_cons, hRest]

/-- **One more arrival.** -/
theorem arrive {arrivals order : List α} (h : StableOrder key arrivals order) (x : α) :
    StableOrder key (arrivals ++ [x]) (arriving key order x) := by
  refine ⟨descending_arriving x h.descending, ?_⟩
  intro k
  rw [filter_arriving x k h.descending, List.filter_append, List.filter_append, h.fifo]

/-- **All arrivals.** -/
theorem fold (arrivals : List α) :
    StableOrder key arrivals (arrivals.foldl (arriving key) []) := by
  induction arrivals using List.reverseRecOn with
  | nil => exact .nil
  | append_singleton arrivals x ih =>
    rw [List.foldl_append]
    exact ih.arrive x

end StableOrder

-- ---------------------------------------------------------------------------
-- Where an insertion ends
-- ---------------------------------------------------------------------------

namespace List

variable {r : α → α → Prop} [DecidableRel r]

/-- An insertion does not go past an element that it is to come before. -/
theorem orderedInsert_append_cons {x y : α} (h : r x y) (xs ys : List α) :
    (xs ++ y :: ys).orderedInsert r x = xs.orderedInsert r x ++ y :: ys := by
  induction xs with
  | nil => simp [h]
  | cons z xs ih =>
    rw [cons_append, orderedInsert_cons, orderedInsert_cons, ih]
    split
    · rfl
    · rfl

/-- It goes to the end where it is to come before nothing. -/
theorem orderedInsert_eq_concat {x : α} {xs : List α} (h : ∀ y ∈ xs, ¬ r x y) :
    xs.orderedInsert r x = xs ++ [x] := by
  induction xs with
  | nil => rfl
  | cons y xs ih =>
    rw [orderedInsert_of_not_le _ xs (h y (by simp)), ih fun z hz => h z (by simp [hz])]
    rfl

end List

end

-- ---------------------------------------------------------------------------
-- Nested levels
-- ---------------------------------------------------------------------------

namespace Nesting

variable {α : Type u} [LinearOrder α]

/-- The set without its least element. -/
def dropMin (s : Finset α) : Finset α := if h : s.Nonempty then s.erase (s.min' h) else s

theorem dropMin_empty : dropMin (∅ : Finset α) = ∅ := dif_neg Finset.not_nonempty_empty

/-- The stack `l`, innermost entry first, is sorted, and `s` is the set of its levels. -/
structure Nested (l : List α) (s : Finset α) : Prop where
  sorted : l.Pairwise fun a b => a < b
  levels : s = l.toFinset

variable {l : List α} {s : Finset α} {a : α}

theorem Nested.nil : Nested ([] : List α) ∅ := ⟨List.Pairwise.nil, rfl⟩

theorem Nested.mem_iff (h : Nested l s) : a ∈ s ↔ a ∈ l := by
  rw [h.levels, List.mem_toFinset]

/-- **Step lemma.** A new innermost entry. -/
theorem Nested.push (h : Nested l s) (hLeast : ∀ b ∈ s, a < b) :
    Nested (a :: l) (insert a s) := by
  refine ⟨List.pairwise_cons.mpr ⟨fun b hb => hLeast b (h.mem_iff.mpr hb), h.sorted⟩, ?_⟩
  rw [h.levels, List.toFinset_cons]

/-- **Step lemma.** The least element is the innermost entry: without it the rest of the
stack remains. -/
theorem Nested.pop (h : Nested (a :: l) s) : dropMin s = s.erase a ∧ Nested l (s.erase a) := by
  obtain ⟨hLeast, hRest⟩ := List.pairwise_cons.mp h.sorted
  have hMem : a ∈ s := h.mem_iff.mpr (List.mem_cons_self)
  have hMin : s.min' ⟨a, hMem⟩ = a := by
    refine le_antisymm (s.min'_le a hMem) (Finset.le_min' _ _ _ fun b hb => ?_)
    rcases List.mem_cons.mp (h.mem_iff.mp hb) with rfl | hb
    · exact le_rfl
    · exact le_of_lt (hLeast b hb)
  have hNotIn : a ∉ l := fun hIn => lt_irrefl a (hLeast a hIn)
  refine ⟨?_, hRest, ?_⟩
  · rw [dropMin, dif_pos ⟨a, hMem⟩, hMin]
  · rw [h.levels, List.toFinset_cons, Finset.erase_insert]
    rwa [List.mem_toFinset]

end Nesting
