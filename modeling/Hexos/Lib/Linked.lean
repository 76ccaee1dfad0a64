import Mathlib.Data.List.Basic
import Mathlib.Data.List.Nodup
import Mathlib.Logic.Function.Basic

/-!
# Doubly linked segments

`Seg next prev p ns a` says that the nodes `ns`, in this order, are linked
in both directions by the pointer maps `next` and `prev`, that the first of
them points back to `p` and the last of them forward to `a`. The lemmas say
how a segment splits (`seg_append`), that the links determine its nodes
(`Seg.unique`), that it depends on the links of its own
nodes only (`Seg.congr`), and what is left of it when the links at one point are
redirected (`Seg.cut`, `Seg.unlink`).
-/

namespace Linked

universe u

variable {N : Type u}

/-- The nodes `ns` are a doubly linked segment between `p` and `a`. -/
def Seg (next prev : N → Option N) (p : Option N) : List N → Option N → Prop
  | [], _ => True
  | n :: ns, a => prev n = p ∧ next n = ns.head?.or a ∧ Seg next prev (some n) ns a

variable {next prev next' prev' : N → Option N} {p a : Option N}

@[simp] theorem seg_nil : Seg next prev p [] a := trivial

@[simp] theorem seg_cons {n : N} {ns : List N} :
    Seg next prev p (n :: ns) a ↔
      prev n = p ∧ next n = ns.head?.or a ∧ Seg next prev (some n) ns a := Iff.rfl

/-- A segment splits at any point; the two parts meet in each other's ends. -/
theorem seg_append {xs ys : List N} :
    Seg next prev p (xs ++ ys) a ↔
      Seg next prev p xs (ys.head?.or a) ∧ Seg next prev (xs.getLast?.or p) ys a := by
  induction xs generalizing p with
  | nil => simp
  | cons x xs ih =>
    have hLast : ((x :: xs).getLast?).or p = xs.getLast?.or (some x) := by
      cases h : xs.getLast? <;> simp [List.getLast?_cons, h]
    rw [List.cons_append, seg_cons, seg_cons, ih, hLast, List.head?_append, Option.or_assoc]
    tauto

/-- A segment depends on the links of its own nodes only. -/
theorem Seg.congr {ns : List N}
    (hAgree : ∀ n ∈ ns, next' n = next n ∧ prev' n = prev n)
    (h : Seg next prev p ns a) : Seg next' prev' p ns a := by
  induction ns generalizing p with
  | nil => trivial
  | cons n ns ih =>
    obtain ⟨hPrev, hNext, hRest⟩ := h
    obtain ⟨hn, hp⟩ := hAgree n (List.mem_cons_self ..)
    exact ⟨hp.trans hPrev, hn.trans hNext,
      ih (fun x hx => hAgree x (List.mem_cons_of_mem _ hx)) hRest⟩

/-- The links determine the nodes of a segment that ends in a null pointer. -/
theorem Seg.unique {xs ys : List N} {p' : Option N}
    (hx : Seg next prev p xs none) (hy : Seg next prev p' ys none)
    (hHead : xs.head? = ys.head?) : xs = ys := by
  induction xs generalizing p p' ys with
  | nil => simpa [eq_comm] using hHead
  | cons x xs ih =>
    cases ys with
    | nil => simp at hHead
    | cons y ys =>
      simp only [List.head?_cons, Option.some.injEq] at hHead
      subst hHead
      have hNext : xs.head? = ys.head? := by
        simpa using hx.2.1.symm.trans hy.2.1
      rw [ih hx.2.2 hy.2.2 hNext]

/-- Redirecting the last node's `next` changes the forward end. -/
theorem Seg.relink_last {xs : List N} {z : N} {a' : Option N}
    (h : Seg next prev p (xs ++ [z]) a)
    (hAgree : ∀ n ∈ xs, next' n = next n ∧ prev' n = prev n)
    (hNext : next' z = a') (hPrev : prev' z = prev z) :
    Seg next' prev' p (xs ++ [z]) a' := by
  rw [seg_append] at h ⊢
  refine ⟨h.1.congr hAgree, hPrev.trans h.2.1, ?_, trivial⟩
  simpa using hNext

/-- Redirecting the first node's `prev` changes the backward end. -/
theorem Seg.relink_first {z : N} {ys : List N} {p' : Option N}
    (h : Seg next prev p (z :: ys) a)
    (hAgree : ∀ n ∈ ys, next' n = next n ∧ prev' n = prev n)
    (hNext : next' z = next z) (hPrev : prev' z = p') :
    Seg next' prev' p' (z :: ys) a :=
  ⟨hPrev, hNext.trans h.2.1, h.2.2.congr hAgree⟩

/-- The left part of a segment after the forward link of its last node was
redirected to `a'`. -/
theorem Seg.redirect_next {xs : List N} {a' : Option N} (h : Seg next prev p xs a)
    (hNodup : xs.Nodup)
    (hLast : ∀ x, xs.getLast? = some x → next' x = a')
    (hNext : ∀ x ∈ xs, xs.getLast? ≠ some x → next' x = next x)
    (hPrev : ∀ x ∈ xs, prev' x = prev x) : Seg next' prev' p xs a' := by
  rcases List.eq_nil_or_concat' xs with rfl | ⟨ys, z, rfl⟩
  · trivial
  · refine h.relink_last ?_ (hLast z (by simp)) (hPrev z (by simp))
    intro x hx
    have hxz : z ≠ x := by
      rintro rfl
      exact (List.nodup_append.mp hNodup).2.2 _ hx _ (by simp) rfl
    exact ⟨hNext x (by simp [hx]) (by simpa using hxz), hPrev x (by simp [hx])⟩

/-- The right part of a segment after the backward link of its first node was
redirected to `p'`. -/
theorem Seg.redirect_prev {ys : List N} {p' : Option N} (h : Seg next prev p ys a)
    (hNodup : ys.Nodup)
    (hHead : ∀ y, ys.head? = some y → prev' y = p')
    (hPrev : ∀ y ∈ ys, ys.head? ≠ some y → prev' y = prev y)
    (hNext : ∀ y ∈ ys, next' y = next y) : Seg next' prev' p' ys a := by
  cases ys with
  | nil => trivial
  | cons z ys =>
    refine h.relink_first ?_ (hNext z (by simp)) (hHead z rfl)
    intro y hy
    have hyz : z ≠ y := by
      rintro rfl
      exact (List.nodup_cons.mp hNodup).1 hy
    exact ⟨hNext y (by simp [hy]), hPrev y (by simp [hy]) (by simpa using hyz)⟩

/-- Two segments without a common node, with the ends that face each other redirected. -/
theorem Seg.redirect_both {xs ys : List N} {a₀ p₀ a' p' : Option N}
    (hXs : Seg next prev p xs a₀) (hYs : Seg next prev p₀ ys a) (hNodup : (xs ++ ys).Nodup)
    (hLast : ∀ x, xs.getLast? = some x → next' x = a')
    (hHead : ∀ y, ys.head? = some y → prev' y = p')
    (hNext : ∀ x ∈ xs ++ ys, xs.getLast? ≠ some x → next' x = next x)
    (hPrev : ∀ x ∈ xs ++ ys, ys.head? ≠ some x → prev' x = prev x) :
    Seg next' prev' p xs a' ∧ Seg next' prev' p' ys a := by
  obtain ⟨hXsNodup, hYsNodup, hDisj⟩ := List.nodup_append.mp hNodup
  refine ⟨hXs.redirect_next hXsNodup hLast (fun x hx => hNext x (by simp [hx])) ?_,
    hYs.redirect_prev hYsNodup hHead (fun y hy => hPrev y (by simp [hy])) ?_⟩
  · intro x hx
    refine hPrev x (by simp [hx]) ?_
    intro hc
    exact hDisj x hx x (List.mem_of_mem_head? hc) rfl
  · intro y hy
    refine hNext y (by simp [hy]) ?_
    intro hc
    exact hDisj y (List.mem_of_mem_getLast? hc) y hy rfl

/-- A segment cut in two, with both cut ends redirected. -/
theorem Seg.cut {xs ys : List N} {a' p' : Option N}
    (h : Seg next prev p (xs ++ ys) a) (hNodup : (xs ++ ys).Nodup)
    (hLast : ∀ x, xs.getLast? = some x → next' x = a')
    (hHead : ∀ y, ys.head? = some y → prev' y = p')
    (hNext : ∀ x ∈ xs ++ ys, xs.getLast? ≠ some x → next' x = next x)
    (hPrev : ∀ x ∈ xs ++ ys, ys.head? ≠ some x → prev' x = prev x) :
    Seg next' prev' p xs a' ∧ Seg next' prev' p' ys a := by
  rw [seg_append] at h
  exact h.1.redirect_both h.2 hNodup hLast hHead hNext hPrev

/-- A node is taken out of a segment, and its two neighbours are linked. -/
theorem Seg.unlink {n : N} {xs ys : List N} (h : Seg next prev none (xs ++ n :: ys) none)
    (hNodup : (xs ++ ys).Nodup)
    (hLast : ∀ x, xs.getLast? = some x → next' x = ys.head?)
    (hHead : ∀ y, ys.head? = some y → prev' y = xs.getLast?)
    (hNext : ∀ x ∈ xs ++ ys, xs.getLast? ≠ some x → next' x = next x)
    (hPrev : ∀ x ∈ xs ++ ys, ys.head? ≠ some x → prev' x = prev x) :
    Seg next' prev' none (xs ++ ys) none := by
  rw [seg_append, seg_cons] at h
  rw [seg_append, Option.or_none, Option.or_none]
  exact h.1.redirect_both h.2.2.2 hNodup hLast hHead hNext hPrev

end Linked
