import Hexos.Lib.Memory
import Hexos.Lib.Outcome
import Mathlib.Algebra.Group.Int.Defs

/-!
# HexOS — the C library

The functions of `libc/` that the kernel is linked with and that write text, on
byte memory and with the 32-bit arithmetic of `int`. A character is printed by
`putchar`, which keeps the low byte of its argument; what is printed is the list
of these bytes.
-/

namespace Hexos

open Mem

-- ---------------------------------------------------------------------------
-- Words
-- ---------------------------------------------------------------------------

/-- An `int` as a 32-bit word. -/
def wordOf (i : Int) : Nat := (i % 2 ^ 32).toNat

/-- A 32-bit word as an `int`. -/
def intOf (w : Nat) : Int := if w < 2 ^ 31 then w else w - 2 ^ 32

/-- An `int` after a computation that may overflow. -/
def toInt32 (i : Int) : Int := intOf (wordOf i)

theorem wordOf_natCast {k : Nat} (h : k < 2 ^ 32) : wordOf k = k := by
  unfold wordOf
  omega

/-- No overflow. -/
theorem toInt32_eq {i : Int} (h : -2 ^ 31 ≤ i ∧ i < 2 ^ 31) : toInt32 i = i := by
  unfold toInt32 intOf wordOf
  split <;> omega

theorem toInt32_natCast {k : Nat} (h : k < 2 ^ 31) : toInt32 k = k :=
  toInt32_eq (by omega)

-- ---------------------------------------------------------------------------
-- Strings
-- ---------------------------------------------------------------------------

/-- The bytes of a text of the source. -/
def ascii (text : String) : List UInt8 := text.toList.map fun c => UInt8.ofNat c.toNat

/-- The string `str` with its terminator is at `a`. -/
def StringAt (m : Mem) (a : Nat) (str : List UInt8) : Prop :=
  (∀ j (hj : j < str.length), m (a + j) = str.get ⟨j, hj⟩) ∧ m (a + str.length) = 0

theorem stringAt_cons {m : Mem} {a : Nat} {c : UInt8} {cs : List UInt8} :
    StringAt m a (c :: cs) ↔ m a = c ∧ StringAt m (a + 1) cs := by
  constructor
  · rintro ⟨h, hEnd⟩
    refine ⟨h 0 (Nat.zero_lt_succ _), ?_, ?_⟩
    · intro j hj
      have := h (j + 1) (Nat.succ_lt_succ hj)
      rwa [show a + (j + 1) = a + 1 + j by omega] at this
    · rwa [List.length_cons, show a + (cs.length + 1) = a + 1 + cs.length by omega] at hEnd
  · rintro ⟨hHead, h, hEnd⟩
    refine ⟨?_, ?_⟩
    · intro j hj
      cases j with
      | zero => exact hHead
      | succ j =>
        rw [show a + (j + 1) = a + 1 + j by omega]
        exact h j (Nat.lt_of_succ_lt_succ hj)
    · rwa [List.length_cons, show a + (cs.length + 1) = a + 1 + cs.length by omega]

theorem StringAt.congr {m m' : Mem} {a : Nat} {str : List UInt8} (h : StringAt m a str)
    (hSame : SameOn m m' a (str.length + 1)) : StringAt m' a str :=
  ⟨fun j hj => (hSame _ (by omega) (by omega)).trans (h.1 j hj),
    (hSame _ (by omega) (by omega)).trans h.2⟩

theorem StringAt.drop {str : List UInt8} {m : Mem} {p : Nat} (h : StringAt m p str) {k : Nat}
    (hk : k ≤ str.length) : StringAt m (p + k) (str.drop k) := by
  induction k generalizing str p with
  | zero => exact h
  | succ k ih =>
    cases str with
    | nil => simp at hk
    | cons c cs =>
      rw [List.drop_succ_cons, show p + (k + 1) = p + 1 + k by omega]
      exact ih (stringAt_cons.mp h).2 (by simpa using hk)

/-- At one address there is one string. -/
theorem StringAt.unique {str str' : List UInt8} (hStr : 0 ∉ str) (hStr' : 0 ∉ str')
    {m : Mem} {a : Nat} (h : StringAt m a str) (h' : StringAt m a str') : str = str' := by
  induction str generalizing str' a with
  | nil =>
    cases str' with
    | nil => rfl
    | cons c' cs' =>
      exact absurd ((stringAt_cons.mp h').1.symm.trans h.2) fun hc => hStr' (by simp [hc])
  | cons c cs ih =>
    obtain ⟨hHead, hTail⟩ := stringAt_cons.mp h
    cases str' with
    | nil => exact absurd (hHead.symm.trans h'.2) fun hc => hStr (by simp [hc])
    | cons c' cs' =>
      obtain ⟨hHead', hTail'⟩ := stringAt_cons.mp h'
      have hRest := ih (fun h => hStr (List.mem_cons_of_mem c h))
        (fun h => hStr' (List.mem_cons_of_mem c' h)) hTail hTail'
      rw [← hHead, ← hHead', hRest]

/-- What `printf("%s", p)` prints, for strings of fewer than `fuel` bytes. -/
def printString : Nat → Mem → Nat → Outcome (List UInt8)
  | 0, _, _ => .running
  | fuel + 1, m, p =>
    if m p ≠ 0 then (printString fuel m (p + 1)).map fun cs => m p :: cs else .done []

/-- **printf.** It prints the string. -/
theorem printString_spec {str : List UInt8} (hStr : 0 ∉ str) {fuel : Nat} {m : Mem} {p : Nat}
    (hFuel : str.length < fuel) (h : StringAt m p str) : printString fuel m p = .done str := by
  induction str generalizing fuel p with
  | nil =>
    obtain ⟨fuel, rfl⟩ : ∃ f, fuel = f + 1 := ⟨fuel - 1, by omega⟩
    have hEnd : m p = 0 := h.2
    rw [printString, if_neg (by simpa using hEnd)]
  | cons c cs ih =>
    rw [List.length_cons] at hFuel
    obtain ⟨fuel, rfl⟩ : ∃ f, fuel = f + 1 := ⟨fuel - 1, by omega⟩
    obtain ⟨hHead, hTail⟩ := stringAt_cons.mp h
    obtain ⟨hc, hcs⟩ : c ≠ 0 ∧ 0 ∉ cs :=
      ⟨fun h => hStr (by simp [h]), fun h => hStr (List.mem_cons_of_mem c h)⟩
    rw [printString, if_pos (by rw [hHead]; exact hc), ih hcs (by omega) hTail, hHead,
      Outcome.map_done]

-- ---------------------------------------------------------------------------
-- Numbers
-- ---------------------------------------------------------------------------

/-- The first loop of `printf_int`: the power of ten above `i`. -/
def printfScale (i : Int) : Nat → Int → Outcome Int
  | 0, _ => .running
  | fuel + 1, f =>
    if f = 0 then .panic "division by zero"
    else if i.tdiv f > 0 then printfScale i fuel (toInt32 (f * 10))
    else .done f

/-- The last loop of `printf_int`: one digit for each power of ten from `f` on. -/
def printfDigits : Nat → Int → Int → Outcome (List UInt8)
  | 0, _, _ => .running
  | fuel + 1, i, f =>
    if f > 0 then
      let d := i.tdiv f
      (printfDigits fuel (toInt32 (i - d * f)) (f.tdiv 10)).map
        fun rest => UInt8.ofNat (wordOf (48 + d)) :: rest
    else .done []

/-- `printf_int`, what `printf("%d", i)` prints. -/
def printfInt (fuel : Nat) (i : Int) : Outcome (List UInt8) :=
  let sign := if i < 0 then ascii "-" else []
  let i := if i < 0 then toInt32 (i * -1) else i
  (printfScale i fuel 1).bind fun f =>
  let f := f.tdiv 10
  let f := if f = 0 then 1 else f
  (printfDigits fuel i f).map fun digits => sign ++ digits

end Hexos
