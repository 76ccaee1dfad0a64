import Mathlib.Algebra.GroupWithZero.Nat
import Mathlib.Logic.Basic

/-!
# Bits of a word

A structure of bit fields packed into one word: the fields follow each other
from the lowest bit on, each with its width. And one bit of a word, which is tested,
cleared and set with the mask `1 << j`.

* `BitField.get_set` — a field read back.
* `BitField.get_set_other` — a field that does not overlap the one written.
* `BitMask.getLsbD_and_not_mask`, `BitMask.getLsbD_or_mask` — one bit written.
-/

-- ---------------------------------------------------------------------------
-- Fields
-- ---------------------------------------------------------------------------

/-- A range of bits of a word. -/
structure BitField where
  offset : Nat
  width  : Nat
  deriving DecidableEq, Repr

namespace BitField

/-- Field number `k` of the packed fields of the given widths. -/
def nth (widths : List Nat) (k : Nat) : BitField := ⟨(widths.take k).sum, widths.getD k 0⟩

/-- The field of the word `w`. -/
def get (f : BitField) (w : Nat) : Nat := w / 2 ^ f.offset % 2 ^ f.width

/-- The word `w` with the field replaced by the low bits of `v`. -/
def set (f : BitField) (w v : Nat) : Nat :=
  2 ^ f.offset * (2 ^ f.width * (w / 2 ^ (f.offset + f.width)) + v % 2 ^ f.width) +
    w % 2 ^ f.offset

/-- The two fields have no bit in common. -/
def Disjoint (f g : BitField) : Prop :=
  f.offset + f.width ≤ g.offset ∨ g.offset + g.width ≤ f.offset

instance (f g : BitField) : Decidable (f.Disjoint g) :=
  inferInstanceAs (Decidable (_ ∨ _))

variable {f g : BitField} {w v : Nat}

theorem testBit_get (i : Nat) :
    (f.get w).testBit i = (decide (i < f.width) && w.testBit (i + f.offset)) := by
  rw [get, Nat.testBit_mod_two_pow, Nat.testBit_div_two_pow]

theorem testBit_set (i : Nat) :
    (f.set w v).testBit i =
      if f.offset ≤ i ∧ i < f.offset + f.width then v.testBit (i - f.offset)
      else w.testBit i := by
  rw [set, Nat.testBit_two_pow_mul_add _ (Nat.mod_lt _ (Nat.two_pow_pos _)),
    Nat.testBit_two_pow_mul_add _ (Nat.mod_lt _ (Nat.two_pow_pos _))]
  by_cases hLow : i < f.offset
  · rw [if_pos hLow, if_neg (by omega), Nat.testBit_mod_two_pow, decide_eq_true hLow,
      Bool.true_and]
  · rw [if_neg hLow]
    by_cases hIn : i - f.offset < f.width
    · rw [if_pos hIn, if_pos (by omega), Nat.testBit_mod_two_pow, decide_eq_true hIn,
        Bool.true_and]
    · rw [if_neg hIn, if_neg (by omega), Nat.testBit_div_two_pow,
        show i - f.offset - f.width + (f.offset + f.width) = i by omega]

/-- **Round trip.** The field just written. -/
theorem get_set (f : BitField) (w v : Nat) : f.get (f.set w v) = v % 2 ^ f.width := by
  apply Nat.eq_of_testBit_eq
  intro i
  rw [testBit_get, testBit_set, Nat.testBit_mod_two_pow]
  by_cases hi : i < f.width
  · rw [if_pos (by omega), Nat.add_sub_cancel]
  · simp [hi]

/-- **Frame.** A field that the one written does not overlap. -/
theorem get_set_other (h : f.Disjoint g) (w v : Nat) : g.get (f.set w v) = g.get w := by
  unfold Disjoint at h
  apply Nat.eq_of_testBit_eq
  intro i
  rw [testBit_get, testBit_get]
  by_cases hi : i < g.width
  · rw [testBit_set, if_neg (by omega)]
  · simp [hi]

/-- A field in the low `n` bits leaves the word below `2^n`. -/
theorem set_lt {n : Nat} (hw : w < 2 ^ n) (hf : f.offset + f.width ≤ n) : f.set w v < 2 ^ n := by
  apply Nat.lt_pow_two_of_testBit
  intro i hi
  rw [testBit_set, if_neg (by omega)]
  exact Nat.testBit_lt_two_pow (Nat.lt_of_lt_of_le hw (Nat.pow_le_pow_right (by omega) hi))

theorem get_zero : f.get 0 = 0 := by
  simp [get]

end BitField

-- ---------------------------------------------------------------------------
-- Masks
-- ---------------------------------------------------------------------------

namespace BitMask

variable {w : Nat}

/-- The mask has one bit. -/
theorem getLsbD_mask {i j : Nat} (hi : i < w) : (1#w <<< j).getLsbD i = decide (i = j) := by
  rw [BitVec.getLsbD_shiftLeft, BitVec.getLsbD_one, Bool.eq_iff_iff]
  simp only [Bool.and_eq_true, Bool.not_eq_true', decide_eq_true_eq, decide_eq_false_iff_not]
  omega

/-- The mask test reads one bit. -/
theorem and_mask_ne_zero (c : BitVec w) {j : Nat} (hj : j < w) :
    c &&& (1#w <<< j) ≠ 0 ↔ c.getLsbD j = true := by
  constructor
  · intro h
    cases hc : c.getLsbD j with
    | true => rfl
    | false =>
      refine absurd ?_ h
      refine BitVec.eq_of_getLsbD_eq ?_
      intro i hi
      rw [BitVec.getLsbD_and, getLsbD_mask hi]
      show (c.getLsbD i && decide (i = j)) = (0#w).getLsbD i
      rw [BitVec.getLsbD_zero]
      by_cases hij : i = j
      · rw [hij, hc, Bool.false_and]
      · rw [decide_eq_false hij, Bool.and_false]
  · intro h hc
    have hBit : (c &&& (1#w <<< j)).getLsbD j = (0#w).getLsbD j := congrArg (BitVec.getLsbD · j) hc
    rw [BitVec.getLsbD_and, getLsbD_mask hj, h, BitVec.getLsbD_zero, decide_eq_true rfl] at hBit
    exact absurd hBit (Bool.noConfusion)

/-- Clearing one bit leaves the others. -/
theorem getLsbD_and_not_mask (c : BitVec w) {i j : Nat} (hi : i < w) :
    (c &&& ~~~(1#w <<< j)).getLsbD i = (c.getLsbD i && decide (i ≠ j)) := by
  rw [BitVec.getLsbD_and, BitVec.getLsbD_not, getLsbD_mask hi, decide_eq_true hi, Bool.true_and,
    decide_not]

/-- Setting one bit leaves the others. -/
theorem getLsbD_or_mask (c : BitVec w) {i j : Nat} (hi : i < w) :
    (c ||| (1#w <<< j)).getLsbD i = (c.getLsbD i || decide (i = j)) := by
  rw [BitVec.getLsbD_or, getLsbD_mask hi]

end BitMask
