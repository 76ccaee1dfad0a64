import Hexos.Lib.Order
import Hexos.List.Local

/-!
# HexOS — the order of `list_push_priority`

`kernel/kernel/list.c`. A list that is filled by `list_push_priority` alone and emptied
by `list_pop_head` is a priority queue, except that two of its pushes store priority 0:
the first one, which is a `list_push_head`, and one that passes every node, which is a
`list_push_tail`.

A stored priority is therefore never negative. Later pushes with a positive priority
form a stable order in front of the first node, and the others go behind it as they
arrive (`priorityOrder`). The bound 5000 of the loop is not reached with at most
5000 nodes.

## Results

* `Queued.push` — the step lemma: what one more push leaves.
* `popAll_pushAll` — the order in which the nodes of any sequence of pushes come back.
* `stableOrder_priorityOrder_iff` — when it is the order of the priorities.
-/

namespace Hexos

variable {L N : Type}

section

variable [DecidableEq L] [DecidableEq N]

/-- A call of `list_push_priority` for every node and priority of `pushes`. -/
def ListMem.pushAll (m : ListMem L N) (list : L) (pushes : List (N × Int)) : ListMem L N :=
  pushes.foldl (fun m x => m.listPushPriority list x.1 x.2) m

theorem ListMem.pushAll_concat (m : ListMem L N) (l : L) (pushes : List (N × Int)) (x : N × Int) :
    m.pushAll l (pushes ++ [x]) = (m.pushAll l pushes).listPushPriority l x.1 x.2 := by
  rw [pushAll, List.foldl_append]
  rfl

theorem ListMem.Agree.pushAll {m m' : ListMem L N} {l : L} (h : Agree l m m')
    (pushes : List (N × Int)) :
    Agree l (m.pushAll l pushes) (m'.pushAll l pushes) := by
  induction pushes generalizing m m' with
  | nil => exact h
  | cons x pushes ih => exact ih (h.listPushPriority x.1 x.2)

end

-- ---------------------------------------------------------------------------
-- One push on the sequences
-- ---------------------------------------------------------------------------

/-- The bound of the loop is not reached in a list of at most 5001 nodes. -/
theorem findIdx_zipIdx {priority : N → Int} {pri : Int} {ns : List N} {i : Nat}
    (h : i + ns.length ≤ 5001) :
    ((ns.zipIdx i).findIdx fun k => decide (pri > priority k.1 ∨ k.2 > 5000)) =
      ns.findIdx fun n => decide (priority n < pri) := by
  induction ns generalizing i with
  | nil => rfl
  | cons n ns ih =>
    rw [List.length_cons] at h
    have hi : ¬ i > 5000 := by omega
    rw [List.zipIdx_cons, List.findIdx_cons, List.findIdx_cons, ih (by omega)]
    simp [hi]

/-- **One push.** -/
theorem ListSeqs.exec_pushPriority [DecidableEq L] [DecidableEq N] {a : ListSeqs L N} {l : L}
    (n : N) (pri : Int) (h : (a.seq l).length ≤ 5001) :
    (a.exec (.pushPriority l n pri)).1 =
      (a.set l ((a.seq l).orderedInsert (fun _ y => a.priority y < pri) n)).setPriority n
        (if ∃ y ∈ a.seq l, a.priority y < pri then pri else 0) := by
  have hIndex : insertionIndex a.priority pri (a.seq l) =
      (a.seq l).findIdx fun y => decide (a.priority y < pri) := findIdx_zipIdx (by omega)
  have hStop : (fun y => !decide (¬ a.priority y < pri)) = fun y =>
      decide (a.priority y < pri) := by
    funext y
    rw [decide_not, Bool.not_not]
  rw [exec, hIndex, List.orderedInsert_eq_take_drop, List.takeWhile_eq_take_findIdx_not,
    List.dropWhile_eq_drop_findIdx_not, hStop]
  simp only [List.findIdx_lt_length, decide_eq_true_eq]

-- ---------------------------------------------------------------------------
-- All pushes
-- ---------------------------------------------------------------------------

/-- The pushes with a positive priority, in a stable order. -/
def positives (pushes : List (N × Int)) : List (N × Int) :=
  (pushes.filter fun x => 0 < x.2).foldl (StableOrder.arriving Prod.snd) []

/-- The others, as they arrived. -/
def nonpositives (pushes : List (N × Int)) : List (N × Int) := pushes.filter fun x => x.2 ≤ 0

/-- The order of the nodes in the list. -/
def priorityOrder : List (N × Int) → List (N × Int)
  | [] => []
  | first :: rest => positives rest ++ first :: nonpositives rest

theorem mem_positives {pushes : List (N × Int)} {x : N × Int} :
    x ∈ positives pushes ↔ x ∈ pushes ∧ 0 < x.2 := by
  rw [positives, (StableOrder.fold _).mem_iff, List.mem_filter, decide_eq_true_eq]

theorem mem_nonpositives {pushes : List (N × Int)} {x : N × Int} :
    x ∈ nonpositives pushes ↔ x ∈ pushes ∧ x.2 ≤ 0 := by
  rw [nonpositives, List.mem_filter, decide_eq_true_eq]

theorem mem_cons_of_nonpositives {first x : N × Int} {rest : List (N × Int)}
    (h : x ∈ first :: nonpositives rest) : x ∈ first :: rest := by
  rcases List.mem_cons.mp h with rfl | h
  · exact List.mem_cons_self
  · exact List.mem_cons_of_mem first (mem_nonpositives.mp h).1

theorem mem_priorityOrder {pushes : List (N × Int)} {x : N × Int} :
    x ∈ priorityOrder pushes ↔ x ∈ pushes := by
  cases pushes with
  | nil => rfl
  | cons first rest =>
    rw [priorityOrder, List.mem_append, List.mem_cons, List.mem_cons, mem_positives,
      mem_nonpositives]
    refine ⟨?_, ?_⟩
    · rintro (⟨h, -⟩ | h | ⟨h, -⟩)
      · exact .inr h
      · exact .inl h
      · exact .inr h
    · rintro (h | h)
      · exact .inr (.inl h)
      · rcases lt_or_ge 0 x.2 with hPos | hPos
        · exact .inl ⟨h, hPos⟩
        · exact .inr (.inr ⟨h, hPos⟩)

theorem length_arriving (order : List (N × Int)) (x : N × Int) :
    (StableOrder.arriving Prod.snd order x).length = order.length + 1 :=
  List.orderedInsert_length _ order x

theorem positives_concat {pushes : List (N × Int)} {x : N × Int} (h : 0 < x.2) :
    positives (pushes ++ [x]) = StableOrder.arriving Prod.snd (positives pushes) x := by
  simp [positives, List.filter_append, h]

theorem positives_concat_of_le {pushes : List (N × Int)} {x : N × Int} (h : x.2 ≤ 0) :
    positives (pushes ++ [x]) = positives pushes := by
  simp [positives, List.filter_append, not_lt.mpr h]

theorem nonpositives_concat {pushes : List (N × Int)} {x : N × Int} (h : 0 < x.2) :
    nonpositives (pushes ++ [x]) = nonpositives pushes := by
  simp [nonpositives, List.filter_append, not_le.mpr h]

theorem nonpositives_concat_of_le {pushes : List (N × Int)} {x : N × Int} (h : x.2 ≤ 0) :
    nonpositives (pushes ++ [x]) = nonpositives pushes ++ [x] := by
  simp [nonpositives, List.filter_append, h]

theorem length_priorityOrder (pushes : List (N × Int)) :
    (priorityOrder pushes).length = pushes.length := by
  cases pushes with
  | nil => rfl
  | cons first rest =>
    rw [priorityOrder, List.length_append, List.length_cons, List.length_cons]
    suffices h : (positives rest).length + (nonpositives rest).length = rest.length by omega
    induction rest using List.reverseRecOn with
    | nil => rfl
    | append_singleton rest x ih =>
      rw [List.length_append, List.length_singleton]
      rcases lt_or_ge 0 x.2 with hPos | hPos
      · rw [positives_concat hPos, nonpositives_concat hPos, length_arriving]
        omega
      · rw [positives_concat_of_le hPos, nonpositives_concat_of_le hPos, List.length_append,
          List.length_singleton]
        omega

-- ---------------------------------------------------------------------------
-- When it is the order of the priorities
-- ---------------------------------------------------------------------------

/-- The first priority is smaller than every later positive one, and the first one with
the later ones that are not positive do not increase. -/
def FirstFits : List (N × Int) → Prop
  | [] => True
  | first :: rest =>
    (∀ x ∈ rest, 0 < x.2 → first.2 < x.2) ∧
      (first :: nonpositives rest).Pairwise fun x y => y.2 ≤ x.2

/-- The pushes with a positive key are among `positives` only. -/
theorem filter_priorityOrder_of_pos {first : N × Int} {rest : List (N × Int)} {k : Int}
    (hk : 0 < k) :
    (priorityOrder (first :: rest)).filter (fun x => x.2 = k) =
      rest.filter (fun x => x.2 = k) ++ [first].filter (fun x => x.2 = k) := by
  have hPositives : (positives rest).filter (fun x => x.2 = k) = rest.filter fun x => x.2 = k := by
    rw [positives, (StableOrder.fold _).fifo, List.filter_filter]
    apply List.filter_congr
    intro x _
    by_cases hx : x.2 = k
    · simp [hx, hk]
    · simp [hx]
  have hNone : (nonpositives rest).filter (fun x => x.2 = k) = [] := by
    rw [List.filter_eq_nil_iff]
    intro x hx
    have := (mem_nonpositives.mp hx).2
    simp only [decide_eq_true_eq]
    omega
  rw [priorityOrder, List.filter_append, hPositives, ← List.singleton_append, List.filter_append,
    hNone, List.append_nil]

/-- All others are where they arrived. -/
theorem filter_priorityOrder_of_le {first : N × Int} {rest : List (N × Int)} {k : Int}
    (hk : k ≤ 0) :
    (priorityOrder (first :: rest)).filter (fun x => x.2 = k) =
      (first :: rest).filter (fun x => x.2 = k) := by
  have hNone : (positives rest).filter (fun x => x.2 = k) = [] := by
    rw [List.filter_eq_nil_iff]
    intro x hx
    have := (mem_positives.mp hx).2
    simp only [decide_eq_true_eq]
    omega
  have hOthers : (nonpositives rest).filter (fun x => x.2 = k) = rest.filter fun x => x.2 = k := by
    rw [nonpositives, List.filter_filter]
    apply List.filter_congr
    intro x _
    by_cases hx : x.2 = k
    · simp [hx, hk]
    · simp [hx]
  rw [priorityOrder, List.filter_append, hNone, List.nil_append, List.filter_cons, List.filter_cons,
    hOthers]

theorem stableOrder_of_firstFits {pushes : List (N × Int)} (h : FirstFits pushes) :
    StableOrder Prod.snd pushes (priorityOrder pushes) := by
  cases pushes with
  | nil => exact .nil
  | cons first rest =>
    obtain ⟨hFirst, hLast⟩ := h
    refine ⟨?_, ?_⟩
    · rw [priorityOrder, List.pairwise_append]
      refine ⟨(StableOrder.fold _).descending, hLast, ?_⟩
      intro x hx y hy
      obtain ⟨hx, hPos⟩ := mem_positives.mp hx
      rcases List.mem_cons.mp hy with rfl | hy
      · exact (hFirst x hx hPos).le
      · have := (mem_nonpositives.mp hy).2
        omega
    · intro k
      rcases lt_or_ge 0 k with hk | hk
      · rw [filter_priorityOrder_of_pos hk]
        by_cases hKey : first.2 = k
        · -- no later push has the key of the first one
          have hNone : rest.filter (fun x => x.2 = k) = [] := by
            rw [List.filter_eq_nil_iff]
            intro x hx
            have := hFirst x hx
            simp only [decide_eq_true_eq]
            omega
          simp [hNone, hKey]
        · simp [hKey]
      · exact filter_priorityOrder_of_le hk

theorem firstFits_of_stableOrder {pushes : List (N × Int)} (hNodup : pushes.Nodup)
    (h : StableOrder Prod.snd pushes (priorityOrder pushes)) : FirstFits pushes := by
  cases pushes with
  | nil => trivial
  | cons first rest =>
    have hParts := List.pairwise_append.mp h.descending
    refine ⟨?_, hParts.2.1⟩
    intro x hx hPos
    have hLe : first.2 ≤ x.2 :=
      hParts.2.2 x (mem_positives.mpr ⟨hx, hPos⟩) first List.mem_cons_self
    by_contra hLt
    -- both have one key, and the later one is in front
    obtain ⟨y, ys, hys⟩ : ∃ y ys, rest.filter (fun x => x.2 = first.2) = y :: ys := by
      apply List.exists_cons_of_ne_nil
      apply List.ne_nil_of_mem (a := x)
      simp only [List.mem_filter, decide_eq_true_eq]
      exact ⟨hx, by omega⟩
    have hFifo := h.fifo first.2
    rw [filter_priorityOrder_of_pos (by omega), hys] at hFifo
    simp only [List.cons_append, List.filter_cons, decide_true, if_true, List.cons.injEq] at hFifo
    have hMem : first ∈ rest := by
      rw [← hFifo.1]
      exact (List.mem_filter.mp (hys ▸ List.mem_cons_self)).1
    exact (List.nodup_cons.mp hNodup).1 hMem

/-- **When the nodes come back by priority.** -/
theorem stableOrder_priorityOrder_iff {pushes order : List (N × Int)}
    (hNodup : (pushes.map Prod.fst).Nodup)
    (hOrder : order.map Prod.fst = (priorityOrder pushes).map Prod.fst) :
    StableOrder Prod.snd pushes order ↔ order = priorityOrder pushes ∧ FirstFits pushes := by
  refine ⟨?_, ?_⟩
  · intro h
    -- a node is pushed once, so it tells its priority
    have hEq : order = priorityOrder pushes := by
      refine List.ext_getElem (by simpa using congrArg List.length hOrder) ?_
      intro i hi hi'
      apply List.inj_on_of_nodup_map hNodup ((h.mem_iff _).mp (List.getElem_mem hi))
        (mem_priorityOrder.mp (List.getElem_mem hi'))
      simpa [hi, hi'] using congrArg (fun ns => ns[i]?) hOrder
    subst hEq
    exact ⟨rfl, firstFits_of_stableOrder hNodup.of_map h⟩
  · rintro ⟨rfl, h⟩
    exact stableOrder_of_firstFits h

-- ---------------------------------------------------------------------------
-- What the pushes leave
-- ---------------------------------------------------------------------------

/-- The list holds the nodes of `first :: rest` in their order. Those in front of the
first one have the priority they were pushed with, and all others have 0. -/
structure Queued (a : ListSeqs L N) (l : L) (first : N × Int) (rest : List (N × Int)) : Prop where
  seq      : a.seq l = (priorityOrder (first :: rest)).map Prod.fst
  positive : ∀ x ∈ positives rest, a.priority x.1 = x.2
  zero     : ∀ x ∈ first :: nonpositives rest, a.priority x.1 = 0

/-- Nodes that have the priority they were pushed with are compared by it. -/
theorem map_arriving {priority : N → Int} {order : List (N × Int)} (x : N × Int)
    (h : ∀ y ∈ order, priority y.1 = y.2) :
    (order.map Prod.fst).orderedInsert (fun _ y => priority y < x.2) x.1 =
      (StableOrder.arriving Prod.snd order x).map Prod.fst := by
  induction order with
  | nil => rfl
  | cons y order ih =>
    have hRest := ih fun z hz => h z (List.mem_cons_of_mem y hz)
    rw [StableOrder.arriving] at hRest ⊢
    rw [List.map_cons, List.orderedInsert_cons, List.orderedInsert_cons, hRest,
      h y List.mem_cons_self]
    split
    · rfl
    · rfl

variable {a : ListSeqs L N} {l : L} {first x : N × Int} {rest : List (N × Int)}

namespace Queued

theorem length_seq (h : Queued a l first rest) : (a.seq l).length = (first :: rest).length := by
  rw [h.seq, List.length_map, length_priorityOrder]

/-- No stored priority is negative. -/
theorem priority_nonneg (h : Queued a l first rest) {n : N} (hn : n ∈ a.seq l) :
    0 ≤ a.priority n := by
  rw [h.seq, priorityOrder, List.map_append, List.mem_append] at hn
  rcases hn with hn | hn
  · obtain ⟨y, hy, rfl⟩ := List.mem_map.mp hn
    rw [h.positive y hy]
    exact (mem_positives.mp hy).2.le
  · obtain ⟨y, hy, rfl⟩ := List.mem_map.mp hn
    exact (h.zero y hy).ge

variable [DecidableEq L] [DecidableEq N]

/-- The first push. -/
theorem start (first : N × Int) (hEmpty : a.seq l = []) :
    Queued (a.exec (.pushPriority l first.1 first.2)).1 l first [] := by
  rw [ListSeqs.exec_pushPriority _ _ (by simp [hEmpty])]
  refine ⟨?_, ?_, ?_⟩
  · simp [ListSeqs.set, ListSeqs.setPriority, hEmpty, priorityOrder, positives, nonpositives]
  · intro x hx
    exact absurd hx (by simp [mem_positives])
  · intro x hx
    obtain rfl : x = first := by simpa [mem_nonpositives] using hx
    simp [ListSeqs.setPriority, hEmpty]

omit [DecidableEq L] in
/-- The nodes that are there keep their priority. -/
theorem setPriority_of_mem (hNew : x.1 ∉ (first :: rest).map Prod.fst) (pri : Int) {y : N × Int}
    (hy : y ∈ first :: rest) : (a.setPriority x.1 pri).priority y.1 = a.priority y.1 := by
  have hNe : y.1 ≠ x.1 := by
    intro hc
    exact hNew (hc ▸ List.mem_map_of_mem hy)
  exact Function.update_of_ne hNe _ _

/-- A positive priority: the loop ends at the first node or before it. -/
theorem push_of_pos (h : Queued a l first rest) (hNew : x.1 ∉ (first :: rest).map Prod.fst)
    (hLength : (first :: rest).length ≤ 5000) (hPos : 0 < x.2) :
    Queued (a.exec (.pushPriority l x.1 x.2)).1 l first (rest ++ [x]) := by
  have hFirst : a.priority first.1 = 0 := h.zero first List.mem_cons_self
  have hStop : ∃ y ∈ a.seq l, a.priority y < x.2 := by
    refine ⟨first.1, ?_, by omega⟩
    rw [h.seq]
    exact List.mem_map_of_mem (mem_priorityOrder.mpr List.mem_cons_self)
  rw [ListSeqs.exec_pushPriority _ _ (by rw [h.length_seq]; omega), if_pos hStop]
  refine ⟨?_, ?_, ?_⟩
  · simp only [ListSeqs.set, ListSeqs.setPriority, Function.update_self]
    rw [h.seq, priorityOrder, priorityOrder, positives_concat hPos, nonpositives_concat hPos,
      List.map_append, List.map_append, List.map_cons,
      List.orderedInsert_append_cons (by omega), map_arriving x h.positive]
  · intro y hy
    rw [positives_concat hPos, StableOrder.arriving, List.mem_orderedInsert] at hy
    rcases hy with rfl | hy
    · exact Function.update_self ..
    · rw [setPriority_of_mem hNew _ (List.mem_cons_of_mem first (mem_positives.mp hy).1)]
      exact h.positive y hy
  · intro y hy
    rw [nonpositives_concat hPos] at hy
    rw [setPriority_of_mem hNew _ (mem_cons_of_nonpositives hy)]
    exact h.zero y hy

/-- Any other priority: the loop passes every node. -/
theorem push_of_le (h : Queued a l first rest) (hNew : x.1 ∉ (first :: rest).map Prod.fst)
    (hLength : (first :: rest).length ≤ 5000) (hNonpos : x.2 ≤ 0) :
    Queued (a.exec (.pushPriority l x.1 x.2)).1 l first (rest ++ [x]) := by
  have hPass : ∀ y ∈ a.seq l, ¬ a.priority y < x.2 := by
    intro y hy
    have := h.priority_nonneg hy
    omega
  have hStop : ¬ ∃ y ∈ a.seq l, a.priority y < x.2 := by
    rintro ⟨y, hy, hc⟩
    exact hPass y hy hc
  rw [ListSeqs.exec_pushPriority _ _ (by rw [h.length_seq]; omega), if_neg hStop,
    List.orderedInsert_eq_concat hPass]
  refine ⟨?_, ?_, ?_⟩
  · simp only [ListSeqs.set, ListSeqs.setPriority, Function.update_self]
    rw [h.seq, priorityOrder, priorityOrder, positives_concat_of_le hNonpos,
      nonpositives_concat_of_le hNonpos]
    simp
  · intro y hy
    rw [positives_concat_of_le hNonpos] at hy
    rw [setPriority_of_mem hNew _ (List.mem_cons_of_mem first (mem_positives.mp hy).1)]
    exact h.positive y hy
  · intro y hy
    rw [nonpositives_concat_of_le hNonpos, ← List.cons_append, List.mem_append,
      List.mem_singleton] at hy
    rcases hy with hy | rfl
    · rw [setPriority_of_mem hNew _ (mem_cons_of_nonpositives hy)]
      exact h.zero y hy
    · exact Function.update_self ..

/-- **One more push.** -/
theorem push (h : Queued a l first rest) (hNew : x.1 ∉ (first :: rest).map Prod.fst)
    (hLength : (first :: rest).length ≤ 5000) :
    Queued (a.exec (.pushPriority l x.1 x.2)).1 l first (rest ++ [x]) := by
  rcases lt_or_ge 0 x.2 with hPos | hNonpos
  · exact h.push_of_pos hNew hLength hPos
  · exact h.push_of_le hNew hLength hNonpos

end Queued

variable [DecidableEq L] [DecidableEq N]

-- ---------------------------------------------------------------------------
-- Back to the memory
-- ---------------------------------------------------------------------------

/-- A push changes no other list. -/
theorem ListSeqs.exec_pushPriority_other {l' : L} (n : N) (pri : Int) (hNe : l' ≠ l) :
    (a.exec (.pushPriority l n pri)).1.seq l' = a.seq l' := by
  simp [exec, set, setPriority, hNe]

/-- **All pushes**, when every other list is empty. -/
theorem pushAll_queued {m : ListMem L N} (hRef : Refines m a) (hEmpty : ∀ l, a.seq l = [])
    (l : L) (first : N × Int) (rest : List (N × Int))
    (hNodup : ((first :: rest).map Prod.fst).Nodup) (hLength : (first :: rest).length ≤ 5000) :
    ∃ a', Refines (m.pushAll l (first :: rest)) a' ∧ Queued a' l first rest ∧
      ∀ l', l' ≠ l → a'.seq l' = [] := by
  induction rest using List.reverseRecOn with
  | nil =>
    have hFree : m.list first.1 = none := by
      rw [hRef.list_none_iff]
      simp [hEmpty]
    refine ⟨_, hRef.listPushPriority hFree, .start first (hEmpty l), ?_⟩
    intro l' hNe
    rw [ListSeqs.exec_pushPriority_other _ _ hNe, hEmpty]
  | append_singleton rest x ih =>
    rw [← List.cons_append] at hNodup hLength ⊢
    rw [List.map_append, List.nodup_append] at hNodup
    rw [List.length_append] at hLength
    obtain ⟨a', hRef', hQueued, hOther⟩ := ih hNodup.1 (by omega)
    have hNew : x.1 ∉ (first :: rest).map Prod.fst := by
      intro hc
      exact hNodup.2.2 _ hc x.1 (by simp) rfl
    have hFree : (m.pushAll l (first :: rest)).list x.1 = none := by
      rw [hRef'.list_none_iff]
      intro l' hMem
      by_cases hl : l' = l
      · subst hl
        rw [hQueued.seq] at hMem
        obtain ⟨y, hy, hc⟩ := List.mem_map.mp hMem
        exact hNew (hc ▸ List.mem_map_of_mem (mem_priorityOrder.mp hy))
      · simp [hOther l' hl] at hMem
    rw [ListMem.pushAll_concat]
    refine ⟨_, hRef'.listPushPriority hFree, hQueued.push hNew (by omega), ?_⟩
    intro l' hNe
    rw [ListSeqs.exec_pushPriority_other _ _ hNe, hOther l' hNe]

/-- **The order in which the nodes come back.** -/
theorem popAll_pushAll {m : ListMem L N} (l : L) (pushes : List (N × Int))
    (hHead : m.head l = none) (hTail : m.tail l = none) (hLength : pushes.length ≤ 5000)
    (hNodup : (pushes.map Prod.fst).Nodup) (fuel : Nat) (hFuel : pushes.length < fuel) :
    ∃ m', (m.pushAll l pushes).popAll l fuel = some (m', (priorityOrder pushes).map Prod.fst) ∧
      m'.head l = none := by
  have hHolds : m.Holds l [] := ⟨hHead, hTail, trivial, List.nodup_nil, by simp⟩
  obtain ⟨m₀, hAgree, hRef⟩ := hHolds.alone
  rw [Function.update_eq_self] at hRef
  obtain ⟨a, hPushed, hSeq⟩ : ∃ a, Refines (m₀.pushAll l pushes) a ∧
      a.seq l = (priorityOrder pushes).map Prod.fst := by
    cases pushes with
    | nil => exact ⟨_, hRef, rfl⟩
    | cons first rest =>
      obtain ⟨a, hPushed, hQueued, -⟩ :=
        pushAll_queued hRef (fun _ => rfl) l first rest hNodup hLength
      exact ⟨a, hPushed, hQueued.seq⟩
  obtain ⟨m₁, hEmpty, hPops⟩ := hPushed.popAll l
  have hPop := hPops fuel (by rwa [hSeq, List.length_map, length_priorityOrder])
  obtain ⟨m', hPop', hAgree'⟩ := (hAgree.pushAll pushes).popAll hPop
  refine ⟨m', by rw [hPop', hSeq], ?_⟩
  rw [hAgree'.head, hEmpty.head]
  simp [ListSeqs.set]

/-- From the empty list, the pops return the pushed nodes by priority, those of one
priority as they were pushed, and then 0. -/
def PopsByPriority (m : ListMem L N) (l : L) (pushes : List (N × Int)) : Prop :=
  ∀ fuel, pushes.length < fuel →
    ∃ m' order, (m.pushAll l pushes).popAll l fuel = some (m', order.map Prod.fst) ∧
      m'.head l = none ∧ StableOrder Prod.snd pushes order

/-- What the pops return is known, so it can only be by priority if the first one fits. -/
theorem PopsByPriority.firstFits {m : ListMem L N} {pushes : List (N × Int)}
    (h : PopsByPriority m l pushes) (hHead : m.head l = none) (hTail : m.tail l = none)
    (hLength : pushes.length ≤ 5000) (hNodup : (pushes.map Prod.fst).Nodup) :
    FirstFits pushes := by
  obtain ⟨m', order, hPop, -, hOrder⟩ := h (pushes.length + 1) (by omega)
  obtain ⟨m'', hPop', -⟩ :=
    popAll_pushAll l pushes hHead hTail hLength hNodup (pushes.length + 1) (by omega)
  rw [hPop] at hPop'
  have hNodes : order.map Prod.fst = (priorityOrder pushes).map Prod.fst := by
    simpa using congrArg (Option.map Prod.snd) hPop'
  exact ((stableOrder_priorityOrder_iff hNodup hNodes).mp hOrder).2

/-- **The priority queue.** The nodes of at most 5000 calls of `list_push_priority` on an
empty list come back in the order of their priorities if and only if the first priority
is smaller than every later positive one, and the first one with the later ones that
are not positive do not increase. -/
theorem list_push_priority_order_iff (m : ListMem L N) (l : L) (pushes : List (N × Int))
    (hHead : m.head l = none) (hTail : m.tail l = none) (hLength : pushes.length ≤ 5000)
    (hNodup : (pushes.map Prod.fst).Nodup) :
    PopsByPriority m l pushes ↔ FirstFits pushes := by
  refine ⟨?_, ?_⟩
  · intro h
    exact h.firstFits hHead hTail hLength hNodup
  · intro h fuel hFuel
    obtain ⟨m', hPop, hEmpty⟩ := popAll_pushAll l pushes hHead hTail hLength hNodup fuel hFuel
    exact ⟨m', _, hPop, hEmpty, stableOrder_of_firstFits h⟩

/-- Priorities 1, 3, 3 and −2. -/
theorem list_push_priority_order_four :
    PopsByPriority (.init : ListMem Unit Nat) () [(0, 1), (1, 3), (2, 3), (3, -2)] :=
  (list_push_priority_order_iff .init () [(0, 1), (1, 3), (2, 3), (3, -2)] rfl rfl (by decide)
    (by decide)).mpr (by simp [FirstFits, nonpositives])

/-- Priorities 5 and 1: the first push stores 0, and the second node comes back first. -/
theorem list_push_priority_first_lost :
    (∃ m', (ListMem.pushAll (.init : ListMem Unit Nat) () [(0, 5), (1, 1)]).popAll () 3 =
      some (m', [1, 0])) ∧
      ¬ PopsByPriority (.init : ListMem Unit Nat) () [(0, 5), (1, 1)] := by
  refine ⟨?_, ?_⟩
  · obtain ⟨m', hPop, -⟩ :=
      popAll_pushAll (m := (.init : ListMem Unit Nat)) () [(0, 5), (1, 1)]
      rfl rfl (by decide) (by decide) 3 (by decide)
    exact ⟨m', hPop⟩
  · intro h
    have hFits := h.firstFits rfl rfl (by decide) (by decide)
    exact absurd (hFits.1 (1, 1) (by simp) (by decide)) (by decide)

end Hexos
