import Hexos.Lib.Memory
import Hexos.Lib.Moves

/-!
# HexOS — filling and copying memory

`memset.c` and `memmove.c` of `libc/string/`. The addresses of `memmove` are 32-bit
words. The bytes are copied in place, from the lower end up when the destination
starts below the source, and from the upper end down otherwise, so that a byte of the
source is only overwritten after it has been read.

## Results

* `memset_in`, `memset_sameOff` — the bytes of the buffer, and the rest.
* `memmove_atOnce` — the bytes of the destination are those that the source had.
* `memmove_copies_overlap` — the same byte by byte, and the rest of the memory.
-/

namespace Hexos

open Mem

/-- The loop of `memset`, for `n` more bytes from `i` on. -/
def memsetLoop (m : Mem) (buf value : Nat) : Nat → Nat → Mem
  | 0, _ => m
  | n + 1, i => memsetLoop (m.store8 (buf + i) (UInt8.ofNat value)) buf value n (i + 1)

/-- `memset`. -/
def memset (m : Mem) (buf value size : Nat) : Mem := memsetLoop m buf value size 0

/-- The address of `p[i]`. -/
def byteAt (p i : Nat) : Nat := (p + i) % 2 ^ 32

/-- The first loop of `memmove`, from `i` on. -/
def memmoveUp (m : Mem) (dst src size i : Nat) : Mem :=
  if i < size then
    memmoveUp (m.store8 (byteAt dst i) (m (byteAt src i))) dst src size (i + 1)
  else m
termination_by size - i

/-- The second loop, from `i` on. -/
def memmoveDown (m : Mem) (dst src : Nat) : Nat → Mem
  | 0 => m
  | i + 1 => memmoveDown (m.store8 (byteAt dst i) (m (byteAt src i))) dst src i

/-- `memmove`: what it returns, and the memory it leaves. -/
def memmove (m : Mem) (dst src size : Nat) : Nat × Mem :=
  (dst, if dst < src then memmoveUp m dst src size 0 else memmoveDown m dst src size)

-- ---------------------------------------------------------------------------
-- Filling
-- ---------------------------------------------------------------------------

/-- **Run lemma.** The loop writes the rest of the buffer. -/
theorem memsetLoop_apply (m : Mem) (buf value n i a : Nat) :
    memsetLoop m buf value n i a =
      if buf + i ≤ a ∧ a < buf + i + n then UInt8.ofNat value else m a := by
  induction n generalizing m i with
  | zero => rw [memsetLoop, if_neg (by omega)]
  | succ n ih =>
    rw [memsetLoop, ih]
    by_cases hFirst : a = buf + i
    · rw [if_neg (by omega), if_pos (by omega), hFirst, store8_self]
    · rw [store8_other hFirst]
      by_cases hRest : buf + (i + 1) ≤ a ∧ a < buf + (i + 1) + n
      · rw [if_pos hRest, if_pos (by omega)]
      · rw [if_neg hRest, if_neg (by omega)]

theorem memset_in {m : Mem} {buf value size a : Nat} (hl : buf ≤ a) (hr : a < buf + size) :
    memset m buf value size a = UInt8.ofNat value := by
  rw [memset, memsetLoop_apply, if_pos (by omega)]

theorem memset_sameOff (m : Mem) (buf value size : Nat) :
    SameOff m (memset m buf value size) buf size := by
  intro a ha
  rw [memset, memsetLoop_apply, if_neg (by omega)]

-- ---------------------------------------------------------------------------
-- Copying
-- ---------------------------------------------------------------------------

variable {m : Mem} {dst src size i : Nat}

theorem byteAt_of_lt (h : dst + size ≤ 2 ^ 32) (hi : i < size) : byteAt dst i = dst + i :=
  Nat.mod_eq_of_lt (by omega)

/-- A round of either loop. -/
theorem store8_byteAt (hDst : dst + size ≤ 2 ^ 32) (hSrc : src + size ≤ 2 ^ 32)
    (hi : i < size) :
    m.store8 (byteAt dst i) (m (byteAt src i)) =
      Function.update m (Move.between dst src i).target (m (Move.between dst src i).source) := by
  rw [byteAt_of_lt hDst hi, byteAt_of_lt hSrc hi, store8_eq_update]
  rfl

theorem memmoveUp_eq_run (hDst : dst + size ≤ 2 ^ 32) (hSrc : src + size ≤ 2 ^ 32) :
    memmoveUp m dst src size i =
      Move.run m ((List.range' i (size - i)).map (Move.between dst src)) := by
  fun_induction memmoveUp m dst src size i with
  | case1 m i hMore ih =>
    rw [ih, show size - i = size - (i + 1) + 1 by omega, List.range'_succ, List.map_cons, Move.run,
      store8_byteAt hDst hSrc hMore]
  | case2 m i hEnd =>
    rw [show size - i = 0 by omega]
    rfl

theorem memmoveDown_eq_run (hDst : dst + size ≤ 2 ^ 32) (hSrc : src + size ≤ 2 ^ 32)
    (hi : i ≤ size) :
    memmoveDown m dst src i =
      Move.run m ((List.range' 0 i).reverse.map (Move.between dst src)) := by
  induction i generalizing m with
  | zero => rfl
  | succ i ih =>
    rw [memmoveDown, ih (by omega), List.range'_1_concat, List.reverse_append,
      List.reverse_singleton, List.singleton_append, List.map_cons, Move.run, Nat.zero_add,
      store8_byteAt hDst hSrc hi]

/-- **memmove.** All bytes are copied as if at once, in either direction. -/
theorem memmove_atOnce (m : Mem) (hDst : dst + size ≤ 2 ^ 32) (hSrc : src + size ≤ 2 ^ 32) :
    Move.AtOnce ((List.range' 0 size).map (Move.between dst src)) m (memmove m dst src size).2 := by
  unfold memmove
  by_cases hBelow : dst < src
  · rw [if_pos hBelow, memmoveUp_eq_run hDst hSrc]
    exact Move.run_atOnce (Move.up_spares (Or.inl (Nat.le_of_lt hBelow)))
  · rw [if_neg hBelow, memmoveDown_eq_run hDst hSrc (Nat.le_refl size)]
    exact (Move.run_atOnce (Move.down_spares (Nat.le_of_not_lt hBelow))).perm
      ((List.reverse_perm _).map _)

/-- **Copying through overlap.** When neither range wraps, each byte of the destination is
the byte of the source as it was before the call, and all others are as they were. -/
theorem memmove_copies_overlap (m : Mem) (dst src size : Nat) (hDst : dst + size ≤ 2 ^ 32)
    (hSrc : src + size ≤ 2 ^ 32) :
    (∀ k, k < size → (memmove m dst src size).2 (dst + k) = m (src + k)) ∧
      SameOff m (memmove m dst src size).2 dst size := by
  obtain ⟨hCopied, hOthers⟩ := (memmove_atOnce m hDst hSrc).copies
  refine ⟨?_, hOthers⟩
  intro k hk
  exact hCopied k (Nat.zero_le k) (by omega)

/-- The bytes of a memory that count up. -/
def countingMem : Mem := fun a => UInt8.ofNat a

/-- Seven bytes up by two, at the end of the address space. -/
theorem memmove_copies_overlap_by_two :
    (∀ k, k < 7 → (memmove countingMem 4294967289 4294967287 7).2 (4294967289 + k) =
        countingMem (4294967287 + k)) ∧
      SameOff countingMem (memmove countingMem 4294967289 4294967287 7).2 4294967289 7 :=
  memmove_copies_overlap countingMem 4294967289 4294967287 7 (by omega) (by omega)

end Hexos
