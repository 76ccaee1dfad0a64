import Hexos.Lib.Linked
import Hexos.List.Definitions
import Mathlib.Data.List.Nodup

/-!
# HexOS — the intrusive lists refine sequences

The abstract state (`ListSeqs`) is one duplicate-free sequence of nodes for
each list and one priority for each node. `Refines m a` says that the
pointer memory `m` represents `a`: heads, tails and links trace the
sequences in both directions, and the back pointer of a node names the list
that contains it.

## Results

* `Refines.exec` — every call of `list.c` acts as the sequence operation,
  returns the same node and never dereferences a null pointer.
* `list_runs_refine_sequences` — the same for every sequence of calls.
-/

namespace Hexos

open Linked

variable {L N : Type}

/-! ## The abstract lists -/

/-- One sequence of nodes for each list, and the priority of each node. -/
structure ListSeqs (L N : Type) where
  seq      : L → List N
  priority : N → Int

namespace ListSeqs

variable [DecidableEq L] [DecidableEq N]

/-- The list `l` holds `ns`; all other lists are unchanged. -/
def set (a : ListSeqs L N) (l : L) (ns : List N) : ListSeqs L N :=
  { a with seq := Function.update a.seq l ns }

def setPriority (a : ListSeqs L N) (n : N) (pri : Int) : ListSeqs L N :=
  { a with priority := Function.update a.priority n pri }

/-- The index of the first node with a priority below `pri` or with an index
above 5000; the length of `ns` if there is none. -/
def insertionIndex (priority : N → Int) (pri : Int) (ns : List N) : Nat :=
  ns.zipIdx.findIdx fun k => decide (pri > priority k.1 ∨ k.2 > 5000)

/-- The sequence operation that a call stands for, with the node it returns. -/
def exec (a : ListSeqs L N) : ListOp L N → ListSeqs L N × Option N
  | .pushHead l n => ((a.set l (n :: a.seq l)).setPriority n 0, none)
  | .pushTail l n => ((a.set l (a.seq l ++ [n])).setPriority n 0, none)
  | .pushPriority l n pri =>
    let k := insertionIndex a.priority pri (a.seq l)
    ((a.set l ((a.seq l).take k ++ n :: (a.seq l).drop k)).setPriority n
      (if k < (a.seq l).length then pri else 0), none)
  | .popHead l => (a.set l (a.seq l).tail, (a.seq l).head?)
  | .popTail l => (a.set l (a.seq l).dropLast, (a.seq l).getLast?)
  | .remove n => ({ a with seq := fun l => (a.seq l).erase n }, none)

end ListSeqs

/-- The memory `m` represents the sequences `a`. -/
structure Refines (m : ListMem L N) (a : ListSeqs L N) : Prop where
  head     : ∀ l, m.head l = (a.seq l).head?
  tail     : ∀ l, m.tail l = (a.seq l).getLast?
  links    : ∀ l, Seg m.next m.prev none (a.seq l) none
  nodup    : ∀ l, (a.seq l).Nodup
  owner    : ∀ n l, m.list n = some l ↔ n ∈ a.seq l
  priority : m.priority = a.priority

/-! ## The operations in closed form

What the assignments of each operation add up to, one equation for each case
of its pointer tests. -/

namespace ListMem

variable [DecidableEq L] [DecidableEq N] {m : ListMem L N} {l : L}

theorem listPushHead_empty {n : N} (hHead : m.head l = none) (hTail : m.tail l = none) :
    m.listPushHead l n =
      { head := Function.update m.head l (some n), tail := Function.update m.tail l (some n),
        next := Function.update m.next n none, prev := Function.update m.prev n none,
        list := Function.update m.list n (some l),
        priority := Function.update m.priority n 0 } := by
  simp [listPushHead, hHead, hTail, setHead, setTail, setNext, setPrev, setList, setPriority]

theorem listPushHead_cons {n z t : N} (hHead : m.head l = some z) (hTail : m.tail l = some t) :
    m.listPushHead l n =
      { head := Function.update m.head l (some n), tail := m.tail,
        next := Function.update m.next n (some z),
        prev := Function.update (Function.update m.prev n none) z (some n),
        list := Function.update m.list n (some l),
        priority := Function.update m.priority n 0 } := by
  simp [listPushHead, hHead, hTail, setHead, setNext, setPrev, setList, setPriority]

theorem listPushTail_empty {n : N} (hHead : m.head l = none) (hTail : m.tail l = none) :
    m.listPushTail l n =
      { head := Function.update m.head l (some n), tail := Function.update m.tail l (some n),
        next := Function.update m.next n none, prev := Function.update m.prev n none,
        list := Function.update m.list n (some l),
        priority := Function.update m.priority n 0 } := by
  simp [listPushTail, hHead, hTail, setHead, setTail, setNext, setPrev, setList, setPriority]

theorem listPushTail_concat {n z t : N} (hHead : m.head l = some z) (hTail : m.tail l = some t) :
    m.listPushTail l n =
      { head := m.head, tail := Function.update m.tail l (some n),
        next := Function.update (Function.update m.next n none) t (some n),
        prev := Function.update m.prev n (some t),
        list := Function.update m.list n (some l),
        priority := Function.update m.priority n 0 } := by
  simp [listPushTail, hHead, hTail, setTail, setNext, setPrev, setList, setPriority]

theorem linkBefore_first {n z : N} {pri : Int} (hzn : z ≠ n) (hPrev : m.prev z = none) :
    m.linkBefore l n z pri =
      { head := Function.update m.head l (some n), tail := m.tail,
        next := Function.update m.next n (some z),
        prev := Function.update (Function.update m.prev n none) z (some n),
        list := Function.update m.list n (some l),
        priority := Function.update m.priority n pri } := by
  simp [linkBefore, hPrev, hzn, setHead, setNext, setPrev, setList, setPriority]

theorem linkBefore_middle {n z p : N} {pri : Int} (hzn : z ≠ n) (hPrev : m.prev z = some p) :
    m.linkBefore l n z pri =
      { head := m.head, tail := m.tail,
        next := Function.update (Function.update m.next n (some z)) p (some n),
        prev := Function.update (Function.update m.prev n (some p)) z (some n),
        list := Function.update m.list n (some l),
        priority := Function.update m.priority n pri } := by
  simp [linkBefore, hPrev, hzn, setNext, setPrev, setList, setPriority]

theorem listPopHead_single {z : N} (hHead : m.head l = some z) (hNext : m.next z = none) :
    m.listPopHead l =
      ({ head := Function.update m.head l none, tail := Function.update m.tail l none,
         next := Function.update m.next z none, prev := Function.update m.prev z none,
         list := Function.update m.list z none, priority := m.priority }, some z) := by
  simp [listPopHead, hHead, hNext, setHead, setTail, setNext, setPrev, setList]

theorem listPopHead_cons {z y : N} (hHead : m.head l = some z) (hNext : m.next z = some y) :
    m.listPopHead l =
      ({ head := Function.update m.head l (some y), tail := m.tail,
         next := Function.update m.next z none,
         prev := Function.update (Function.update m.prev y none) z none,
         list := Function.update m.list z none, priority := m.priority }, some z) := by
  simp [listPopHead, hHead, hNext, setHead, setNext, setPrev, setList]

theorem listPopTail_single {z : N} (hTail : m.tail l = some z) (hPrev : m.prev z = none) :
    m.listPopTail l =
      ({ head := Function.update m.head l none, tail := Function.update m.tail l none,
         next := Function.update m.next z none, prev := Function.update m.prev z none,
         list := Function.update m.list z none, priority := m.priority }, some z) := by
  simp [listPopTail, hTail, hPrev, setHead, setTail, setNext, setPrev, setList]

theorem listPopTail_concat {z y : N} (hTail : m.tail l = some z) (hPrev : m.prev z = some y) :
    m.listPopTail l =
      ({ head := m.head, tail := Function.update m.tail l (some y),
         next := Function.update (Function.update m.next y none) z none,
         prev := Function.update m.prev z none,
         list := Function.update m.list z none, priority := m.priority }, some z) := by
  simp [listPopTail, hTail, hPrev, setTail, setNext, setPrev, setList]

theorem listRemove_middle {n y p : N} (hList : m.list n = some l)
    (hHead : m.head l ≠ some n) (hTail : m.tail l ≠ some n)
    (hNext : m.next n = some y) (hPrev : m.prev n = some p) (hyn : n ≠ y) :
    m.listRemove n =
      some { head := m.head, tail := m.tail,
             next := Function.update (Function.update m.next p (some y)) n none,
             prev := Function.update (Function.update m.prev y (some p)) n none,
             list := Function.update m.list n none, priority := m.priority } := by
  simp [listRemove, hList, hHead, hTail, hNext, hPrev, hyn, setNext, setPrev, setList]

end ListMem

namespace Refines

variable {m m' : ListMem L N} {a : ListSeqs L N} {l : L} {n : N}

/-! ## Reading the representation -/

/-- The head pointer is null exactly when the tail pointer is. -/
theorem head_none_iff (h : Refines m a) (l : L) : m.head l = none ↔ m.tail l = none := by
  rw [h.head, h.tail, List.head?_eq_none_iff, List.getLast?_eq_none_iff]

/-- The back pointer is null exactly for the nodes in no list. -/
theorem list_none_iff (h : Refines m a) (n : N) : m.list n = none ↔ ∀ l, n ∉ a.seq l := by
  constructor
  · intro hn l hl
    rw [(h.owner n l).mpr hl] at hn
    exact absurd hn (by simp)
  · intro hn
    cases hl : m.list n with
    | none => rfl
    | some l => exact absurd ((h.owner n l).mp hl) (hn l)

/-- A node is in one list at most. -/
theorem list_unique (h : Refines m a) {l l' : L} (hl : n ∈ a.seq l) (hl' : n ∈ a.seq l') :
    l = l' := by
  have h1 := (h.owner n l).mpr hl
  rw [(h.owner n l').mpr hl'] at h1
  exact (Option.some.inj h1).symm

/-- The pointers determine the sequences. -/
theorem seq_unique {a b : ListSeqs L N} (ha : Refines m a) (hb : Refines m b) : a.seq = b.seq := by
  funext l
  exact (ha.links l).unique (hb.links l) (by rw [← ha.head, ← hb.head])

/-- Lists that start as `LIST_INIT`, with every node in no list. -/
theorem init (hHead : ∀ l, m.head l = none) (hTail : ∀ l, m.tail l = none)
    (hList : ∀ n, m.list n = none) : Refines m ⟨fun _ => [], m.priority⟩ where
  head l := by simp [hHead]
  tail l := by simp [hTail]
  links l := trivial
  nodup l := List.nodup_nil
  owner n l := by simp [hList]
  priority := rfl

/-! ## Replacing one list

Every operation changes one list `l` from `a.seq l` to a new sequence `ns`
and touches no link of a node outside these two sequences. -/

variable [DecidableEq L] [DecidableEq N]

omit [DecidableEq L] [DecidableEq N] in
/-- A node of another list is in neither of the two sequences. -/
theorem not_mem_of_other {ns : List N} (h : Refines m a)
    (hNew : ∀ x ∈ ns, x ∈ a.seq l ∨ m.list x = none) {l' : L} (hl : l' ≠ l) {x : N}
    (hx : x ∈ a.seq l') : x ∉ a.seq l ∧ x ∉ ns := by
  have hNotOld : x ∉ a.seq l := fun hxl => hl (h.list_unique hx hxl)
  refine ⟨hNotOld, ?_⟩
  intro hxn
  rcases hNew x hxn with hOld | hNone
  · exact hNotOld hOld
  · exact absurd hx ((h.list_none_iff x).mp hNone l')

/-- The back pointers agree with the sequences again. -/
theorem owner_replace {ns : List N} (h : Refines m a)
    (hNew : ∀ x ∈ ns, x ∈ a.seq l ∨ m.list x = none) (x : N) (l' : L) :
    (if x ∈ ns then some l else if x ∈ a.seq l then none else m.list x) = some l' ↔
      x ∈ Function.update a.seq l ns l' := by
  by_cases hl : l' = l
  · subst hl
    rw [Function.update_self]
    by_cases hxn : x ∈ ns
    · simp [hxn]
    · by_cases hxo : x ∈ a.seq l'
      · simp [hxn, hxo]
      · simp only [hxn, hxo, if_false, iff_false]
        exact fun hc => hxo ((h.owner x l').mp hc)
  · rw [Function.update_of_ne hl]
    constructor
    · intro hx
      by_cases hxn : x ∈ ns
      · simp only [hxn, if_true, Option.some.injEq] at hx
        exact absurd hx.symm hl
      · by_cases hxo : x ∈ a.seq l
        · simp [hxn, hxo] at hx
        · simp only [hxn, hxo, if_false] at hx
          exact (h.owner x l').mp hx
    · intro hx
      obtain ⟨h1, h2⟩ := h.not_mem_of_other hNew hl hx
      simp only [h1, h2, if_false]
      exact (h.owner x l').mpr hx

/-- The frame rule of the representation. -/
theorem replace {ns : List N} {pri : N → Int} (h : Refines m a)
    (hHead : m'.head = Function.update m.head l ns.head?)
    (hTail : m'.tail = Function.update m.tail l ns.getLast?)
    (hLinks : Seg m'.next m'.prev none ns none)
    (hNodup : ns.Nodup)
    (hFrame : ∀ x, x ∉ a.seq l → x ∉ ns → m'.next x = m.next x ∧ m'.prev x = m.prev x)
    (hNew : ∀ x ∈ ns, x ∈ a.seq l ∨ m.list x = none)
    (hList : ∀ x, m'.list x =
      if x ∈ ns then some l else if x ∈ a.seq l then none else m.list x)
    (hPri : m'.priority = pri) :
    Refines m' { seq := Function.update a.seq l ns, priority := pri } := by
  refine ⟨?_, ?_, ?_, ?_, ?_, hPri⟩
  · intro l'
    by_cases hl : l' = l
    · subst hl; simp [hHead]
    · simp [hHead, hl, h.head l']
  · intro l'
    by_cases hl : l' = l
    · subst hl; simp [hTail]
    · simp [hTail, hl, h.tail l']
  · intro l'
    by_cases hl : l' = l
    · subst hl; simpa using hLinks
    · simp only [Function.update_of_ne hl]
      refine (h.links l').congr ?_
      intro x hx
      obtain ⟨hOld, hNot⟩ := h.not_mem_of_other hNew hl hx
      exact hFrame x hOld hNot
  · intro l'
    by_cases hl : l' = l
    · subst hl; simpa using hNodup
    · simpa only [Function.update_of_ne hl] using h.nodup l'
  · intro x l'
    rw [hList x]
    exact h.owner_replace hNew x l'

omit [DecidableEq L] [DecidableEq N] in
/-- A node that is in neither part is not at the place between them. -/
theorem not_ends {xs ys : List N} {x : N} (hx : x ∉ xs ++ ys) :
    xs.getLast? ≠ some x ∧ ys.head? ≠ some x :=
  ⟨fun hc => hx (List.mem_append_left _ (List.mem_of_mem_getLast? hc)),
    fun hc => hx (List.mem_append_right _ (List.mem_of_mem_head? hc))⟩

/-- A new node is linked in between `xs` and `ys`. -/
theorem insert {pri : N → Int} (h : Refines m a) (xs ys : List N)
    (hs : a.seq l = xs ++ ys) (hn : m.list n = none)
    (hHead : m'.head = Function.update m.head l (xs ++ n :: ys).head?)
    (hTail : m'.tail = Function.update m.tail l (xs ++ n :: ys).getLast?)
    (hNext : ∀ x, m'.next x =
      if x = n then ys.head? else if xs.getLast? = some x then some n else m.next x)
    (hPrev : ∀ x, m'.prev x =
      if x = n then xs.getLast? else if ys.head? = some x then some n else m.prev x)
    (hList : m'.list = Function.update m.list n (some l))
    (hPri : m'.priority = pri) :
    Refines m' { seq := Function.update a.seq l (xs ++ n :: ys), priority := pri } := by
  have hNot : n ∉ xs ++ ys := hs ▸ (h.list_none_iff n).mp hn l
  have hNodup : (xs ++ ys).Nodup := hs ▸ h.nodup l
  have hne : ∀ x ∈ xs ++ ys, x ≠ n := fun x hx hc => hNot (hc ▸ hx)
  have hCut : Seg m'.next m'.prev none xs (some n) ∧ Seg m'.next m'.prev (some n) ys none := by
    refine Seg.cut (hs ▸ h.links l) hNodup ?_ ?_ ?_ ?_
    · intro x hx
      have := hne x (List.mem_append_left _ (List.mem_of_mem_getLast? hx))
      simp [hNext, this, hx]
    · intro y hy
      have := hne y (List.mem_append_right _ (List.mem_of_mem_head? hy))
      simp [hPrev, this, hy]
    · intro x hx hl
      simp [hNext, hne x hx, hl]
    · intro x hx hl
      simp [hPrev, hne x hx, hl]
  apply h.replace hHead hTail
  · rw [seg_append, seg_cons]
    exact ⟨hCut.1, by simp [hPrev], by simp [hNext], hCut.2⟩
  · exact List.nodup_middle.mpr (List.nodup_cons.mpr ⟨hNot, hNodup⟩)
  · intro x hOld hNew
    have hxn : x ≠ n := by rintro rfl; simp at hNew
    rw [hs] at hOld
    obtain ⟨hL, hR⟩ := not_ends hOld
    simp [hNext, hPrev, hxn, hL, hR]
  · intro x hx
    rw [List.mem_append, List.mem_cons] at hx
    rcases hx with hx | rfl | hx
    · exact Or.inl (by simp [hs, hx])
    · exact Or.inr hn
    · exact Or.inl (by simp [hs, hx])
  · intro x
    by_cases hxn : x = n
    · simp [hList, hxn]
    · by_cases hx : x ∈ xs ++ ys
      · have hIn : x ∈ xs ++ n :: ys := by
          rcases List.mem_append.mp hx with hx | hx <;> simp [hx]
        simp [hList, hxn, hIn, (h.owner x l).mpr (hs ▸ hx)]
      · have hOut : x ∉ xs ++ n :: ys := by
          rw [List.mem_append, List.mem_cons]
          rintro (hc | hc | hc)
          · exact hx (List.mem_append_left _ hc)
          · exact hxn hc
          · exact hx (List.mem_append_right _ hc)
        simp [hList, hxn, hOut, hs, hx]
  · exact hPri

/-- A node is unlinked from between `xs` and `ys`. -/
theorem delete (h : Refines m a) (xs ys : List N)
    (hs : a.seq l = xs ++ n :: ys)
    (hHead : m'.head = Function.update m.head l (xs ++ ys).head?)
    (hTail : m'.tail = Function.update m.tail l (xs ++ ys).getLast?)
    (hNext : ∀ x, m'.next x =
      if x = n then none else if xs.getLast? = some x then ys.head? else m.next x)
    (hPrev : ∀ x, m'.prev x =
      if x = n then none else if ys.head? = some x then xs.getLast? else m.prev x)
    (hList : m'.list = Function.update m.list n none)
    (hPri : m'.priority = m.priority) :
    Refines m' (a.set l (xs ++ ys)) := by
  have hOldNodup : (xs ++ n :: ys).Nodup := hs ▸ h.nodup l
  obtain ⟨hNot, hNodup⟩ := List.nodup_cons.mp (List.nodup_middle.mp hOldNodup)
  have hne : ∀ x ∈ xs ++ ys, x ≠ n := fun x hx hc => hNot (hc ▸ hx)
  have hSeg : Seg m'.next m'.prev none (xs ++ ys) none := by
    have hOld : Seg m.next m.prev none (xs ++ n :: ys) none := hs ▸ h.links l
    refine hOld.unlink hNodup ?_ ?_ ?_ ?_
    · intro x hx
      have := hne x (List.mem_append_left _ (List.mem_of_mem_getLast? hx))
      simp [hNext, this, hx]
    · intro y hy
      have := hne y (List.mem_append_right _ (List.mem_of_mem_head? hy))
      simp [hPrev, this, hy]
    · intro x hx hl
      simp [hNext, hne x hx, hl]
    · intro x hx hl
      simp [hPrev, hne x hx, hl]
  have hMem : ∀ x, x ∈ xs ++ n :: ys ↔ x = n ∨ x ∈ xs ++ ys := by
    intro x
    simp only [List.mem_append, List.mem_cons]
    tauto
  apply h.replace hHead hTail
  · exact hSeg
  · exact hNodup
  · intro x hOld _
    rw [hs, hMem, not_or] at hOld
    obtain ⟨hL, hR⟩ := not_ends hOld.2
    simp [hNext, hPrev, hOld.1, hL, hR]
  · intro x hx
    exact Or.inl (by rw [hs, hMem]; exact Or.inr hx)
  · intro x
    by_cases hxn : x = n
    · subst hxn
      simp [hList, hNot, hs]
    · by_cases hx : x ∈ xs ++ ys
      · have hIn : x ∈ a.seq l := by rw [hs, hMem]; exact Or.inr hx
        simp [hList, hxn, hx, (h.owner x l).mpr hIn]
      · have hOut : x ∉ a.seq l := by
          rw [hs, hMem]
          tauto
        simp [hList, hxn, hx, hOut]
  · rw [hPri, h.priority]

/-! ## The operations -/

/-- Storing the value a map already has changes nothing. -/
private theorem eq_update_of_eq {K V : Type} [DecidableEq K] {f : K → V} {k : K} {v : V}
    (h : f k = v) : f = Function.update f k v := by
  rw [← h, Function.update_eq_self]

theorem listPushHead (h : Refines m a) (hn : m.list n = none) :
    Refines (m.listPushHead l n) (a.exec (.pushHead l n)).1 := by
  have hHead := h.head l
  have hTail := h.tail l
  cases hs : a.seq l with
  | nil =>
    rw [hs] at hHead hTail
    rw [ListMem.listPushHead_empty hHead hTail]
    simp only [ListSeqs.exec, hs]
    apply h.insert [] [] hs hn <;>
      simp [Function.update_apply, h.priority, ListSeqs.set]
  | cons z ns =>
    obtain ⟨t, ht⟩ : ∃ t, (z :: ns).getLast? = some t := by simp [List.getLast?_cons]
    rw [hs] at hHead hTail
    rw [ListMem.listPushHead_cons hHead (hTail.trans ht)]
    have hzn : z ≠ n := fun hc => (h.list_none_iff n).mp hn l (by simp [hs, hc])
    simp only [ListSeqs.exec, hs]
    apply h.insert [] (z :: ns) hs hn
    · simp
    · exact eq_update_of_eq (by rw [hTail]; simp [List.getLast?_cons])
    · intro x
      simp [Function.update_apply]
    · intro x
      by_cases hx : x = z
      · simp [hx, hzn]
      · simp [Function.update_apply, hx, Ne.symm hx]
    · rfl
    · simp [h.priority, ListSeqs.set]

theorem listPushTail (h : Refines m a) (hn : m.list n = none) :
    Refines (m.listPushTail l n) (a.exec (.pushTail l n)).1 := by
  have hHead := h.head l
  have hTail := h.tail l
  rcases List.eq_nil_or_concat' (a.seq l) with hs | ⟨ns, t, hs⟩
  · rw [hs] at hHead hTail
    rw [ListMem.listPushTail_empty hHead hTail]
    simp only [ListSeqs.exec, hs]
    apply h.insert [] [] hs hn <;>
      simp [Function.update_apply, h.priority, ListSeqs.set]
  · obtain ⟨z, hz⟩ : ∃ z, (ns ++ [t]).head? = some z := by cases ns <;> simp
    rw [hs] at hHead hTail
    rw [ListMem.listPushTail_concat (t := t) (hHead.trans hz) (hTail.trans (by simp))]
    have htn : t ≠ n := fun hc => (h.list_none_iff n).mp hn l (by simp [hs, hc])
    simp only [ListSeqs.exec, hs]
    apply h.insert (ns ++ [t]) [] (by simp [hs]) hn
    · exact eq_update_of_eq (by rw [hHead]; cases ns <;> simp)
    · simp
    · intro x
      by_cases hx : x = t
      · simp [hx, htn]
      · simp [Function.update_apply, hx, Ne.symm hx]
    · intro x
      simp [Function.update_apply]
    · rfl
    · simp [h.priority, ListSeqs.set]

/-- `linkBefore` puts a new node between `xs` and `z :: ys`. -/
theorem linkBefore {xs ys : List N} {z : N} (h : Refines m a) (pri : Int)
    (hs : a.seq l = xs ++ z :: ys) (hn : m.list n = none) :
    Refines (m.linkBefore l n z pri)
      ((a.set l (xs ++ n :: z :: ys)).setPriority n pri) := by
  have hHead := h.head l
  have hTail := h.tail l
  have hzn : z ≠ n := fun hc => (h.list_none_iff n).mp hn l (by simp [hs, hc])
  have hPrev : m.prev z = xs.getLast? := by
    have hSeg := h.links l
    rw [hs, seg_append, seg_cons] at hSeg
    simpa using hSeg.2.1
  rw [hs] at hHead hTail
  have hLast : m.tail l = (xs ++ n :: z :: ys).getLast? := by
    rw [hTail]
    simp [List.getLast?_append, List.getLast?_cons]
  rcases List.eq_nil_or_concat' xs with rfl | ⟨ws, p, rfl⟩
  · rw [ListMem.linkBefore_first hzn hPrev]
    apply h.insert [] (z :: ys) hs hn
    · simp
    · exact eq_update_of_eq hLast
    · intro x
      simp [Function.update_apply]
    · intro x
      by_cases hx : x = z
      · simp [hx, hzn]
      · simp [Function.update_apply, hx, Ne.symm hx]
    · rfl
    · simp [h.priority, ListSeqs.set]
  · rw [ListMem.linkBefore_middle (p := p) hzn (hPrev.trans (by simp))]
    have hpn : p ≠ n := fun hc => (h.list_none_iff n).mp hn l (by simp [hs, hc])
    apply h.insert (ws ++ [p]) (z :: ys) hs hn
    · exact eq_update_of_eq (by rw [hHead]; cases ws <;> simp)
    · exact eq_update_of_eq hLast
    · intro x
      by_cases hx : x = p
      · simp [hx, hpn]
      · simp [Function.update_apply, hx, Ne.symm hx]
    · intro x
      by_cases hx : x = z
      · simp [hx, hzn]
      · simp [Function.update_apply, hx, Ne.symm hx]
    · rfl
    · simp [h.priority, ListSeqs.set]

/-- The scan of `list_push_priority`: after the nodes `xs` it stands at the
first of `ys` with the counter at the length of `xs`. -/
theorem pushPriorityLoop (h : Refines m a) (pri : Int) (xs : List N) {ys : List N}
    (hs : a.seq l = xs ++ ys) (hn : m.list n = none) :
    let k := (ys.zipIdx xs.length).findIdx fun k => decide (pri > a.priority k.1 ∨ k.2 > 5000)
    Refines (m.pushPriorityLoop l n pri ys.head? xs.length)
      ((a.set l (xs ++ (ys.take k ++ n :: ys.drop k))).setPriority n
        (if k < ys.length then pri else 0)) := by
  induction ys generalizing xs with
  | nil =>
    have hPush := h.listPushTail (l := l) hn
    simp only [ListSeqs.exec, hs, List.append_nil] at hPush
    simpa [ListMem.pushPriorityLoop] using hPush
  | cons z ys ih =>
    rw [List.head?_cons, ListMem.pushPriorityLoop, List.zipIdx_cons, List.findIdx_cons, h.priority]
    by_cases hStop : pri > a.priority z ∨ xs.length > 5000
    · simpa [hStop] using h.linkBefore pri hs hn
    · have hNext : m.next z = ys.head? := by
        have hSeg := h.links l
        rw [hs, seg_append, seg_cons] at hSeg
        simpa using hSeg.2.2.1
      have := ih (xs ++ [z]) (by simp [hs])
      simpa [hStop, hNext] using this

theorem listPushPriority {pri : Int} (h : Refines m a) (hn : m.list n = none) :
    Refines (m.listPushPriority l n pri) (a.exec (.pushPriority l n pri)).1 := by
  cases hs : a.seq l with
  | nil =>
    have hPush := h.listPushHead (l := l) hn
    simp only [ListSeqs.exec, hs] at hPush
    simpa [ListMem.listPushPriority, h.head, hs, ListSeqs.exec] using hPush
  | cons z ns =>
    have hLoop := h.pushPriorityLoop pri [] hs hn
    simp only [List.nil_append, List.length_nil, List.head?_cons] at hLoop
    simpa [ListMem.listPushPriority, h.head, hs, ListSeqs.exec, ListSeqs.insertionIndex] using hLoop

theorem listPopHead (h : Refines m a) :
    Refines (m.listPopHead l).1 (a.exec (.popHead l)).1 ∧
      (m.listPopHead l).2 = (a.exec (.popHead l)).2 := by
  have hHead := h.head l
  have hTail := h.tail l
  have hSeg := h.links l
  have hNodup := h.nodup l
  simp only [ListSeqs.exec]
  cases hs : a.seq l with
  | nil =>
    rw [hs] at hHead
    have hSame : a.set l [] = a := by
      simp only [ListSeqs.set]
      rw [← hs, Function.update_eq_self]
    simpa [ListMem.listPopHead, hHead, hSame] using h
  | cons z ns =>
    rw [hs] at hHead hTail hSeg hNodup
    have hNext : m.next z = ns.head? := by simpa using hSeg.2.1
    cases ns with
    | nil =>
      rw [ListMem.listPopHead_single hHead hNext]
      refine ⟨h.delete [] [] hs ?_ ?_ ?_ ?_ rfl rfl, rfl⟩ <;>
        simp [Function.update_apply]
    | cons y ns =>
      rw [ListMem.listPopHead_cons hHead hNext]
      have hyz : y ≠ z := by
        rintro rfl
        simp at hNodup
      refine ⟨h.delete [] (y :: ns) hs ?_ ?_ ?_ ?_ rfl rfl, rfl⟩
      · simp
      · exact eq_update_of_eq (by rw [hTail]; simp [List.getLast?_cons])
      · intro x
        simp [Function.update_apply]
      · intro x
        by_cases hx : x = y
        · simp [hx, hyz]
        · simp [Function.update_apply, hx, Ne.symm hx]

theorem listPopTail (h : Refines m a) :
    Refines (m.listPopTail l).1 (a.exec (.popTail l)).1 ∧
      (m.listPopTail l).2 = (a.exec (.popTail l)).2 := by
  have hHead := h.head l
  have hTail := h.tail l
  have hSeg := h.links l
  have hNodup := h.nodup l
  simp only [ListSeqs.exec]
  rcases List.eq_nil_or_concat' (a.seq l) with hs | ⟨ns, z, hs⟩
  · rw [hs] at hTail
    have hSame : a.set l [] = a := by
      simp only [ListSeqs.set]
      rw [← hs, Function.update_eq_self]
    simpa [ListMem.listPopTail, hTail, hs, hSame] using h
  · rw [hs] at hHead hTail hSeg hNodup ⊢
    rw [List.getLast?_concat] at hTail
    have hPrev : m.prev z = ns.getLast? := by
      rw [seg_append, seg_cons] at hSeg
      simpa using hSeg.2.1
    rw [List.dropLast_concat, List.getLast?_concat]
    rcases List.eq_nil_or_concat' ns with rfl | ⟨ws, y, rfl⟩
    · rw [ListMem.listPopTail_single hTail hPrev]
      refine ⟨h.delete [] [] hs ?_ ?_ ?_ ?_ rfl rfl, rfl⟩ <;>
        simp [Function.update_apply]
    · rw [ListMem.listPopTail_concat (y := y) hTail (hPrev.trans (by simp))]
      have hyz : y ≠ z := fun hc =>
        (List.nodup_append.mp hNodup).2.2 y (by simp) z (by simp) hc
      refine ⟨?_, rfl⟩
      rw [← List.append_nil (ws ++ [y])]
      refine h.delete (ws ++ [y]) [] hs ?_ ?_ ?_ ?_ rfl rfl
      · exact eq_update_of_eq (by rw [hHead]; cases ws <;> simp)
      · simp
      · intro x
        by_cases hx : x = y
        · simp [hx, hyz]
        · simp [Function.update_apply, hx, Ne.symm hx]
      · intro x
        simp [Function.update_apply]

/-- Deleting a node from every sequence deletes it from the one that has it. -/
theorem erase_eq_set {xs ys : List N} (h : Refines m a) (hs : a.seq l = xs ++ n :: ys) :
    (fun l' => (a.seq l').erase n) = Function.update a.seq l (xs ++ ys) := by
  have hNodup := hs ▸ h.nodup l
  have hNot : n ∉ xs := fun hx => (List.nodup_append.mp hNodup).2.2 n hx n (by simp) rfl
  funext l'
  by_cases hl : l' = l
  · subst hl
    rw [Function.update_self, hs, List.erase_append_right _ hNot, List.erase_cons_head]
  · rw [Function.update_of_ne hl]
    exact List.erase_of_not_mem fun hc => hl (h.list_unique hc (by simp [hs]))

theorem listRemove (h : Refines m a) :
    ∃ m', m.listRemove n = some m' ∧ Refines m' (a.exec (.remove n)).1 := by
  cases hl : m.list n with
  | none =>
    have hSame : (fun l => (a.seq l).erase n) = a.seq := by
      funext l
      exact List.erase_of_not_mem ((h.list_none_iff n).mp hl l)
    exact ⟨m, by simp [ListMem.listRemove, hl], by simpa [ListSeqs.exec, hSame] using h⟩
  | some l =>
    obtain ⟨xs, ys, hs⟩ := List.append_of_mem ((h.owner n l).mp hl)
    have hNodup := hs ▸ h.nodup l
    have hErase := h.erase_eq_set hs
    have hHead := h.head l
    have hTail := h.tail l
    simp only [ListSeqs.exec, hErase]
    rcases List.eq_nil_or_concat' xs with rfl | ⟨ws, p, rfl⟩
    · -- the first node: `list_pop_head`
      refine ⟨(m.listPopHead l).1, by simp [ListMem.listRemove, hl, hHead, hs], ?_⟩
      simpa [ListSeqs.exec, ListSeqs.set, hs] using (h.listPopHead (l := l)).1
    · have hNotL : n ∉ ws ++ [p] := fun hc =>
        (List.nodup_append.mp hNodup).2.2 n hc n (by simp) rfl
      have hHeadNe : m.head l ≠ some n := by
        rw [hHead, hs]
        intro hc
        refine hNotL (List.mem_of_mem_head? ?_)
        cases ws <;> simpa using hc
      rcases ys with _ | ⟨y, ys⟩
      · -- the last node: `list_pop_tail`
        have hTailEq : m.tail l = some n := by rw [hTail, hs, List.getLast?_concat]
        refine ⟨(m.listPopTail l).1, by simp [ListMem.listRemove, hl, hHeadNe, hTailEq], ?_⟩
        have hPop := (h.listPopTail (l := l)).1
        simp only [ListSeqs.exec, ListSeqs.set, hs, List.dropLast_concat] at hPop
        simpa using hPop
      · -- a node in the middle, with a neighbour on each side
        have hSeg := h.links l
        rw [hs, seg_append, seg_cons] at hSeg
        have hPrev : m.prev n = some p := by simpa using hSeg.2.1
        have hNext : m.next n = some y := by simpa using hSeg.2.2.1
        have hNotR : n ∉ y :: ys :=
          (List.nodup_cons.mp (List.nodup_append.mp hNodup).2.1).1
        have hTailNe : m.tail l ≠ some n := by
          rw [hTail, hs, List.getLast?_append_of_ne_nil _ (by simp), List.getLast?_cons_cons]
          exact fun hc => hNotR (List.mem_of_mem_getLast? hc)
        have hpn : p ≠ n := fun hc => hNotL (by simp [hc])
        have hyn : n ≠ y := fun hc => hNotR (by simp [hc])
        refine ⟨_, ListMem.listRemove_middle hl hHeadNe hTailNe hNext hPrev hyn, ?_⟩
        refine h.delete (ws ++ [p]) (y :: ys) hs ?_ ?_ ?_ ?_ rfl rfl
        · exact eq_update_of_eq (by rw [hHead, hs]; cases ws <;> simp)
        · exact eq_update_of_eq (by rw [hTail, hs]; simp [List.getLast?_cons])
        · intro x
          by_cases hx : x = p
          · simp [hx, hpn]
          · simp [Function.update_apply, hx, Ne.symm hx]
        · intro x
          by_cases hx : x = y
          · simp [hx, hyn.symm]
          · simp [Function.update_apply, hx, Ne.symm hx]

/-- **One call.** An enabled call on a memory that represents `a` returns, and
its memory and result are those of the sequence operation. -/
theorem exec {op : ListOp L N} (h : Refines m a) (hOp : op.Enabled m) :
    ∃ m', op.exec m = some (m', (a.exec op).2) ∧ Refines m' (a.exec op).1 := by
  cases op with
  | pushHead l n => exact ⟨_, rfl, h.listPushHead hOp⟩
  | pushTail l n => exact ⟨_, rfl, h.listPushTail hOp⟩
  | pushPriority l n pri => exact ⟨_, rfl, h.listPushPriority hOp⟩
  | popHead l =>
    refine ⟨(m.listPopHead l).1, ?_, h.listPopHead.1⟩
    rw [← h.listPopHead.2]
    rfl
  | popTail l =>
    refine ⟨(m.listPopTail l).1, ?_, h.listPopTail.1⟩
    rw [← h.listPopTail.2]
    rfl
  | remove n =>
    obtain ⟨m', hm', hRef⟩ := h.listRemove (n := n)
    exact ⟨m', by simp [ListOp.exec, hm', ListSeqs.exec], hRef⟩

end Refines

/-! ## Sequences of calls -/

variable [DecidableEq L] [DecidableEq N]

/-- The memory and the returned nodes after a sequence of calls. -/
def listRun (m : ListMem L N) : List (ListOp L N) → Option (ListMem L N × List (Option N))
  | [] => some (m, [])
  | op :: ops => do
    let (m, r) ← op.exec m
    let (m, rs) ← listRun m ops
    some (m, r :: rs)

/-- Every call of the sequence is enabled in the memory it is made in. -/
def ListRunEnabled (m : ListMem L N) : List (ListOp L N) → Prop
  | [] => True
  | op :: ops => op.Enabled m ∧ ∀ m' r, op.exec m = some (m', r) → ListRunEnabled m' ops

/-- The same sequence of calls on the abstract lists. -/
def ListSeqs.run (a : ListSeqs L N) : List (ListOp L N) → ListSeqs L N × List (Option N)
  | [] => (a, [])
  | op :: ops =>
    let (a', r) := a.exec op
    let (a'', rs) := a'.run ops
    (a'', r :: rs)

/-- **Intrusive lists refine sequences.** From lists that are well formed,
every sequence of calls (pushes on unlinked nodes only) runs without a null
dereference, returns the nodes that the sequence operations return, and ends
in a well-formed memory of the sequences they lead to: heads, tails and
links are mutually consistent and acyclic, a head is null exactly when its
tail is, and the back pointer of a node names the list that contains it and
is 0 exactly for the nodes in no list. -/
theorem list_runs_refine_sequences (m : ListMem L N) (a : ListSeqs L N) (h : Refines m a)
    (ops : List (ListOp L N)) (hOps : ListRunEnabled m ops) :
    ∃ m', listRun m ops = some (m', (a.run ops).2) ∧ Refines m' (a.run ops).1 ∧
      (∀ l, m'.head l = none ↔ m'.tail l = none) ∧
      (∀ n, m'.list n = none ↔ ∀ l, n ∉ (a.run ops).1.seq l) := by
  suffices hRun : ∃ m', listRun m ops = some (m', (a.run ops).2) ∧ Refines m' (a.run ops).1 by
    obtain ⟨m', hm', hRef⟩ := hRun
    exact ⟨m', hm', hRef, hRef.head_none_iff, hRef.list_none_iff⟩
  induction ops generalizing m a with
  | nil => exact ⟨m, rfl, h⟩
  | cons op ops ih =>
    obtain ⟨m₁, hm₁, hRef₁⟩ := h.exec hOps.1
    obtain ⟨m₂, hm₂, hRef₂⟩ := ih m₁ _ hRef₁ (hOps.2 _ _ hm₁)
    exact ⟨m₂, by simp [listRun, hm₁, hm₂, ListSeqs.run], hRef₂⟩

/-- Two lists and three nodes: node 1 is inserted before node 0 by priority,
node 0 is deleted, node 2 is pushed to the other list and popped again. -/
theorem list_run_two_lists :
    ∃ m' : ListMem (Fin 2) (Fin 3),
      listRun .init [.pushTail 0 0, .pushPriority 0 1 5, .pushHead 1 2, .remove 0, .popHead 1] =
        some (m', [none, none, none, none, some 2]) ∧
      m'.head 0 = some 1 ∧ m'.tail 0 = some 1 ∧ m'.list 1 = some 0 ∧ m'.head 1 = none := by
  have h := list_runs_refine_sequences (L := Fin 2) (N := Fin 3) .init ⟨fun _ => [], fun _ => 0⟩
    (Refines.init (fun _ => rfl) (fun _ => rfl) (fun _ => rfl))
    [.pushTail 0 0, .pushPriority 0 1 5, .pushHead 1 2, .remove 0, .popHead 1]
    (by simp [ListRunEnabled, ListOp.Enabled, ListOp.exec, ListMem.init, ListMem.listPushTail,
          ListMem.listPushPriority, ListMem.pushPriorityLoop, ListMem.linkBefore,
          ListMem.setHead, ListMem.setTail, ListMem.setNext, ListMem.setPrev, ListMem.setList,
          ListMem.setPriority])
  obtain ⟨m', hRun, hRef, -, -⟩ := h
  refine ⟨m', hRun, ?_, ?_, ?_, ?_⟩
  · rw [hRef.head]; decide
  · rw [hRef.tail]; decide
  · rw [hRef.owner]; decide
  · rw [hRef.head]; decide

end Hexos
