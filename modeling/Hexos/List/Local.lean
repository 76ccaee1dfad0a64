import Hexos.List.Refinement

/-!
# HexOS — one list of many

`kernel/kernel/list.c`. An operation on a list reads the pointers of that list and of
its nodes, and nothing else: what it does there is the same in two memories that
differ in other lists and in the `list` fields (`ListMem.Agree`). A well-formed list can
therefore be treated as the only one (`ListMem.Holds`).

The calls of `list_pop_head` that empty a list are `ListMem.popAll`.

## Results

* `Refines.popAll` — the calls return the sequence and leave the list empty.
* `ListMem.Holds.popAll` — the same of a well-formed list in any memory.
-/

namespace Hexos

open Linked

variable {L N : Type}

section

variable [DecidableEq L] [DecidableEq N]

/-- `list_pop_head` until it returns 0: the nodes before that. `none` if the calls do
not get there. -/
def ListMem.popAll (m : ListMem L N) (list : L) : Nat → Option (ListMem L N × List N)
  | 0 => none
  | fuel + 1 =>
    match m.listPopHead list with
    | (m, some n) => (m.popAll list fuel).map fun r => (r.1, n :: r.2)
    | (m, none) => some (m, [])

/-- One more call. -/
theorem ListMem.popAll_succ (m : ListMem L N) (l : L) (fuel : Nat) :
    m.popAll l (fuel + 1) =
      match (m.listPopHead l).2 with
      | some n => ((m.listPopHead l).1.popAll l fuel).map fun r => (r.1, n :: r.2)
      | none => some ((m.listPopHead l).1, []) := by
  rw [popAll]
  cases h : m.listPopHead l with
  | mk m' r =>
    cases r with
    | none => rfl
    | some n => rfl

end

-- ---------------------------------------------------------------------------
-- A list depends on its own pointers only
-- ---------------------------------------------------------------------------

/-- The two memories have the same pointers for the list `l`, and the same nodes. They
may differ in the other lists and in the `list` fields of the nodes. -/
structure ListMem.Agree (l : L) (m m' : ListMem L N) : Prop where
  head     : m'.head l = m.head l
  tail     : m'.tail l = m.tail l
  next     : m'.next = m.next
  prev     : m'.prev = m.prev
  priority : m'.priority = m.priority

namespace ListMem.Agree

variable [DecidableEq L] [DecidableEq N] {m m' : ListMem L N} {l : L}

theorem listPushHead (h : Agree l m m') (n : N) :
    Agree l (m.listPushHead l n) (m'.listPushHead l n) := by
  obtain ⟨hHead, hTail, hNext, hPrev, hPriority⟩ := h
  cases hh : m.head l <;> cases ht : m.tail l <;> constructor <;>
    simp [ListMem.listPushHead, setHead, setTail, setNext, setPrev, setList, setPriority, *]

theorem listPushTail (h : Agree l m m') (n : N) :
    Agree l (m.listPushTail l n) (m'.listPushTail l n) := by
  obtain ⟨hHead, hTail, hNext, hPrev, hPriority⟩ := h
  cases hh : m.head l <;> cases ht : m.tail l <;> constructor <;>
    simp [ListMem.listPushTail, setHead, setTail, setNext, setPrev, setList, setPriority, *]

theorem linkBefore (h : Agree l m m') (n z : N) (pri : Int) :
    Agree l (m.linkBefore l n z pri) (m'.linkBefore l n z pri) := by
  obtain ⟨hHead, hTail, hNext, hPrev, hPriority⟩ := h
  cases hp : Function.update m.prev n (m.prev z) z <;> constructor <;>
    simp [ListMem.linkBefore, setHead, setNext, setPrev, setList, setPriority, *]

theorem pushPriorityLoop (h : Agree l m m') (n : N) (pri : Int) (cur : Option N) (i : Nat) :
    Agree l (m.pushPriorityLoop l n pri cur i) (m'.pushPriorityLoop l n pri cur i) := by
  fun_induction m.pushPriorityLoop l n pri cur i with
  | case1 i =>
    rw [ListMem.pushPriorityLoop]
    exact h.listPushTail n
  | case2 z i hStop =>
    rw [ListMem.pushPriorityLoop, h.priority, if_pos hStop]
    exact h.linkBefore n z pri
  | case3 z i hStop ih =>
    rw [ListMem.pushPriorityLoop, h.priority, if_neg hStop, h.next]
    exact ih

theorem listPushPriority (h : Agree l m m') (n : N) (pri : Int) :
    Agree l (m.listPushPriority l n pri) (m'.listPushPriority l n pri) := by
  rw [ListMem.listPushPriority, ListMem.listPushPriority, h.head]
  cases m.head l with
  | none => exact h.listPushHead n
  | some z => exact h.pushPriorityLoop n pri (some z) 0

theorem listPopHead (h : Agree l m m') :
    Agree l (m.listPopHead l).1 (m'.listPopHead l).1 ∧
    (m'.listPopHead l).2 = (m.listPopHead l).2 := by
  obtain ⟨hHead, hTail, hNext, hPrev, hPriority⟩ := h
  cases hh : m.head l with
  | none =>
    refine ⟨?_, ?_⟩
    · constructor <;> simp [ListMem.listPopHead, *]
    · simp [ListMem.listPopHead, *]
  | some z =>
    cases hz : m.next z with
    | none =>
      rw [ListMem.listPopHead_single hh hz,
        ListMem.listPopHead_single (hHead.trans hh) (by rw [hNext, hz])]
      exact ⟨⟨by simp, by simp, by simp [hNext], by simp [hPrev], hPriority⟩, rfl⟩
    | some y =>
      rw [ListMem.listPopHead_cons hh hz,
        ListMem.listPopHead_cons (hHead.trans hh) (by rw [hNext, hz])]
      exact ⟨⟨by simp, hTail, by simp [hNext], by simp [hPrev], hPriority⟩, rfl⟩

theorem popAll {fuel : Nat} {m₁ : ListMem L N} {ns : List N} (h : Agree l m m')
    (hPop : m.popAll l fuel = some (m₁, ns)) :
    ∃ m₁', m'.popAll l fuel = some (m₁', ns) ∧ Agree l m₁ m₁' := by
  induction fuel generalizing m m' ns with
  | zero => exact absurd hPop (by simp [ListMem.popAll])
  | succ fuel ih =>
    obtain ⟨hAgree, hNode⟩ := h.listPopHead
    rw [popAll_succ] at hPop ⊢
    rw [hNode]
    cases hn : (m.listPopHead l).2 with
    | none =>
      rw [hn] at hPop
      cases hPop
      exact ⟨_, rfl, hAgree⟩
    | some n =>
      rw [hn] at hPop
      obtain ⟨⟨m₂, ns'⟩, hRest, hEq⟩ := Option.map_eq_some_iff.mp hPop
      cases hEq
      obtain ⟨m₂', hRest', hAgree'⟩ := ih hAgree hRest
      exact ⟨m₂', by rw [hRest']; rfl, hAgree'⟩

end ListMem.Agree

-- ---------------------------------------------------------------------------
-- Emptying a list
-- ---------------------------------------------------------------------------

/-- The list `l` is well formed and holds `ns`, whatever else is in the memory. -/
structure ListMem.Holds (m : ListMem L N) (l : L) (ns : List N) : Prop where
  head  : m.head l = ns.head?
  tail  : m.tail l = ns.getLast?
  links : Seg m.next m.prev none ns none
  nodup : ns.Nodup
  owner : ∀ n ∈ ns, m.list n = some l

theorem Refines.holds {m : ListMem L N} {a : ListSeqs L N} (h : Refines m a) (l : L) :
    m.Holds l (a.seq l) :=
  ⟨h.head l, h.tail l, h.links l, h.nodup l, fun n hn => (h.owner n l).mpr hn⟩

variable [DecidableEq L] [DecidableEq N]

/-- **All pops** return the sequence and leave the list empty. -/
theorem Refines.popAll {m : ListMem L N} {a : ListSeqs L N} (h : Refines m a) (l : L) :
    ∃ m', Refines m' (a.set l []) ∧
      ∀ fuel, (a.seq l).length < fuel → m.popAll l fuel = some (m', a.seq l) := by
  induction hs : a.seq l generalizing m a with
  | nil =>
    obtain ⟨hRef, hNode⟩ := h.listPopHead (l := l)
    simp only [ListSeqs.exec, hs, List.tail_nil, List.head?_nil] at hRef hNode
    refine ⟨(m.listPopHead l).1, hRef, ?_⟩
    intro fuel hFuel
    obtain ⟨fuel, rfl⟩ : ∃ k, fuel = k + 1 := ⟨fuel - 1, by omega⟩
    rw [ListMem.popAll_succ, hNode]
  | cons n ns ih =>
    obtain ⟨hRef, hNode⟩ := h.listPopHead (l := l)
    simp only [ListSeqs.exec, hs, List.tail_cons, List.head?_cons] at hRef hNode
    obtain ⟨m', hRef', hPops⟩ := ih hRef (by simp [ListSeqs.set])
    refine ⟨m', by simpa [ListSeqs.set] using hRef', ?_⟩
    intro fuel hFuel
    rw [List.length_cons] at hFuel
    obtain ⟨fuel, rfl⟩ : ∃ k, fuel = k + 1 := ⟨fuel - 1, by omega⟩
    rw [ListMem.popAll_succ, hNode]
    simp only
    rw [hPops fuel (by omega)]
    rfl

/-- A memory with no other list. -/
theorem ListMem.Holds.alone {m : ListMem L N} {l : L} {ns : List N} (h : m.Holds l ns) :
    ∃ m₀, Agree l m₀ m ∧
      Refines m₀ ⟨Function.update (fun _ => []) l ns, m.priority⟩ := by
  refine ⟨{ m with
    head := Function.update (fun _ => none) l ns.head?
    tail := Function.update (fun _ => none) l ns.getLast?
    list := fun n => if n ∈ ns then some l else none },
    ⟨by simp [h.head], by simp [h.tail], rfl, rfl, rfl⟩, ?_, ?_, ?_, ?_, ?_, rfl⟩
  · intro l'
    by_cases hl : l' = l
    · simp [hl]
    · simp [hl]
  · intro l'
    by_cases hl : l' = l
    · simp [hl]
    · simp [hl]
  · intro l'
    by_cases hl : l' = l
    · subst hl
      simpa using h.links
    · simp [hl]
  · intro l'
    by_cases hl : l' = l
    · subst hl
      simpa using h.nodup
    · simp [hl]
  · intro n l'
    by_cases hl : l' = l
    · subst hl
      simp
    · simp [hl, Ne.symm hl]

/-- **Emptying a well-formed list.** -/
theorem ListMem.Holds.popAll {m : ListMem L N} {l : L} {ns : List N} (h : m.Holds l ns) {fuel : Nat}
    (hFuel : ns.length < fuel) :
    ∃ m', m.popAll l fuel = some (m', ns) ∧ m'.head l = none := by
  obtain ⟨m₀, hAgree, hRef⟩ := h.alone
  obtain ⟨m₁, hEmpty, hPops⟩ := hRef.popAll l
  simp only [Function.update_self] at hPops
  obtain ⟨m', hPop, hAgree'⟩ := hAgree.popAll (hPops fuel hFuel)
  refine ⟨m', hPop, ?_⟩
  rw [hAgree'.head, hEmpty.head]
  simp [ListSeqs.set]

end Hexos
