import Mathlib.Algebra.Group.Nat.Defs
import Mathlib.Logic.Function.Basic
import Mathlib.Order.Basic

/-!
# Byte memory with little-endian words

Memory is a function from addresses to bytes. Words are read and written at
any address. The frame of an operation is stated as `SameOn` (a range keeps its
bytes) and `SameOff` (everything outside a range does). A stack of words grows
downwards in it.

* `load32_store32` — a word read back.
* `SameOn.load32` — a word in a range that keeps its bytes.
* `Mem.Stacked` — the words from the stack pointer up.
* `Mem.Pushed` — the words pushed since a point in time, with the frame of all
  the pushes: nothing outside of the words on the stack was written.
* `Stacked.kept`, `Pushed.push` — what keeps them.
-/

-- ---------------------------------------------------------------------------
-- Reading and writing
-- ---------------------------------------------------------------------------

/-- The bytes of a memory. -/
abbrev Mem := Nat → UInt8

namespace Mem

variable {m m' m'' : Mem} {a b n : Nat}

/-- The 16-bit word at `a`. -/
def load16 (m : Mem) (a : Nat) : Nat := (m a).toNat + 256 * (m (a + 1)).toNat

/-- The 32-bit word at `a`. -/
def load32 (m : Mem) (a : Nat) : Nat :=
  (m a).toNat + 256 * (m (a + 1)).toNat + 65536 * (m (a + 2)).toNat +
    16777216 * (m (a + 3)).toNat

/-- Write the 32-bit word `v` at `a`. -/
def store32 (m : Mem) (a v : Nat) : Mem := fun i =>
  if i = a then UInt8.ofNat v
  else if i = a + 1 then UInt8.ofNat (v / 256)
  else if i = a + 2 then UInt8.ofNat (v / 65536)
  else if i = a + 3 then UInt8.ofNat (v / 16777216)
  else m i

/-- Write the byte `v` at `a`. -/
def store8 (m : Mem) (a : Nat) (v : UInt8) : Mem := fun i => if i = a then v else m i

/-- Write the 16-bit word `v` at `a`. -/
def store16 (m : Mem) (a v : Nat) : Mem :=
  (m.store8 a (UInt8.ofNat v)).store8 (a + 1) (UInt8.ofNat (v / 256))

/-- Copy the first `n` bytes of `src` to `a`. -/
def copyIn (m : Mem) (a n : Nat) (src : Mem) : Mem := fun i =>
  if a ≤ i ∧ i < a + n then src (i - a) else m i

/-- The `n` bytes from `a` on are the same in `m'`. -/
def SameOn (m m' : Mem) (a n : Nat) : Prop := ∀ i, a ≤ i → i < a + n → m' i = m i

/-- All bytes but the `n` from `a` on are the same in `m'`. -/
def SameOff (m m' : Mem) (a n : Nat) : Prop := ∀ i, i < a ∨ a + n ≤ i → m' i = m i

theorem load32_lt (m : Mem) (a : Nat) : m.load32 a < 2 ^ 32 := by
  have h0 := (m a).toNat_lt
  have h1 := (m (a + 1)).toNat_lt
  have h2 := (m (a + 2)).toNat_lt
  have h3 := (m (a + 3)).toNat_lt
  unfold load32
  omega

-- ---------------------------------------------------------------------------
-- Frames
-- ---------------------------------------------------------------------------

theorem SameOn.refl (m : Mem) (a n : Nat) : SameOn m m a n := fun _ _ _ => rfl

theorem SameOn.trans (h : SameOn m m' a n) (h' : SameOn m' m'' a n) : SameOn m m'' a n :=
  fun i hi hin => (h' i hi hin).trans (h i hi hin)

theorem SameOn.sub {k l : Nat} (h : SameOn m m' a n) (hl : a ≤ k) (hr : k + l ≤ a + n) :
    SameOn m m' k l := fun i hi hin => h i (by omega) (by omega)

theorem SameOff.refl (m : Mem) (a n : Nat) : SameOff m m a n := fun _ _ => rfl

theorem SameOff.trans (h : SameOff m m' a n) (h' : SameOff m' m'' a n) : SameOff m m'' a n :=
  fun i hi => (h' i hi).trans (h i hi)

theorem SameOff.sub {k l : Nat} (h : SameOff m m' k l) (hl : a ≤ k) (hr : k + l ≤ a + n) :
    SameOff m m' a n := fun i hi => h i (by omega)

/-- What lies outside the range written keeps its bytes. -/
theorem SameOff.sameOn {k l : Nat} (h : SameOff m m' a n) (hd : k + l ≤ a ∨ a + n ≤ k) :
    SameOn m m' k l := fun i hi hin => h i (by omega)

theorem SameOn.load32 (h : SameOn m m' a 4) : m'.load32 a = m.load32 a := by
  unfold Mem.load32
  rw [h a (by omega) (by omega), h (a + 1) (by omega) (by omega), h (a + 2) (by omega) (by omega),
    h (a + 3) (by omega) (by omega)]

-- ---------------------------------------------------------------------------
-- Words
-- ---------------------------------------------------------------------------

theorem store32_sameOff (m : Mem) (a v : Nat) : SameOff m (m.store32 a v) a 4 := by
  intro i hi
  unfold store32
  rw [if_neg (by omega), if_neg (by omega), if_neg (by omega), if_neg (by omega)]

theorem store8_sameOff (m : Mem) (a : Nat) (v : UInt8) : SameOff m (m.store8 a v) a 1 :=
  fun i hi => if_neg (by omega)

theorem copyIn_sameOff (m : Mem) (a n : Nat) (src : Mem) : SameOff m (m.copyIn a n src) a n :=
  fun i hi => if_neg (by omega)

theorem store32_other {v i : Nat} (h : i < a ∨ a + 4 ≤ i) : m.store32 a v i = m i :=
  store32_sameOff m a v i h

theorem store8_other {v : UInt8} {i : Nat} (h : i ≠ a) : m.store8 a v i = m i :=
  if_neg h

theorem store8_self {v : UInt8} : m.store8 a v a = v := if_pos rfl

/-- **Round trip.** A word read back. -/
theorem load32_store32 {v : Nat} (hv : v < 2 ^ 32) : (m.store32 a v).load32 a = v := by
  unfold load32 store32
  simp only [if_true, UInt8.toNat_ofNat', if_neg (show a + 1 ≠ a by omega),
    if_neg (show a + 2 ≠ a by omega), if_neg (show a + 2 ≠ a + 1 by omega),
    if_neg (show a + 3 ≠ a by omega), if_neg (show a + 3 ≠ a + 1 by omega),
    if_neg (show a + 3 ≠ a + 2 by omega)]
  omega

theorem load32_store32_other {v : Nat} (h : a + 4 ≤ b ∨ b + 4 ≤ a) :
    (m.store32 a v).load32 b = m.load32 b :=
  ((store32_sameOff m a v).sameOn (by omega)).load32

theorem load32_store8_other {v : UInt8} (h : a < b ∨ b + 4 ≤ a) :
    (m.store8 a v).load32 b = m.load32 b :=
  ((store8_sameOff m a v).sameOn (by omega)).load32

theorem store8_eq_update {v : UInt8} : m.store8 a v = Function.update m a v := by
  funext i
  rw [Function.update_apply]
  rfl

theorem store32_zero {i : Nat} (hl : a ≤ i) (hr : i < a + 4) : m.store32 a 0 i = 0 := by
  unfold store32
  rcases (by omega : i = a ∨ i = a + 1 ∨ i = a + 2 ∨ i = a + 3) with rfl | rfl | rfl | rfl <;>
    simp

/-- A word is two halves. -/
theorem load32_halves (m : Mem) (a : Nat) :
    m.load32 a = m.load16 a + 65536 * m.load16 (a + 2) ∧ m.load16 a = m.load32 a % 65536 := by
  have h0 := (m a).toNat_lt
  have h1 := (m (a + 1)).toNat_lt
  unfold load32 load16
  rw [Nat.add_assoc a 2 1]
  constructor <;> omega

theorem load16_store32 {v : Nat} : (m.store32 a v).load16 a = v % 65536 := by
  unfold load16 store32
  rw [if_pos rfl, if_neg (by omega), if_pos rfl, UInt8.toNat_ofNat', UInt8.toNat_ofNat']
  omega

theorem load16_store32_other {v : Nat} (h : a + 4 ≤ b ∨ b + 2 ≤ a) :
    (m.store32 a v).load16 b = m.load16 b := by
  unfold load16
  rw [store32_other (by omega), store32_other (by omega)]

theorem store16_sameOff (m : Mem) (a v : Nat) : SameOff m (m.store16 a v) a 2 := by
  intro i hi
  unfold store16
  rw [store8_other (by omega), store8_other (by omega)]

theorem store16_other {v i : Nat} (h : i < a ∨ a + 2 ≤ i) : m.store16 a v i = m i :=
  store16_sameOff m a v i h

theorem load16_store16 {v : Nat} : (m.store16 a v).load16 a = v % 65536 := by
  unfold load16 store16
  rw [store8_other (by omega), store8_self, store8_self, UInt8.toNat_ofNat', UInt8.toNat_ofNat']
  omega

theorem load16_store16_other {v : Nat} (h : a + 2 ≤ b ∨ b + 2 ≤ a) :
    (m.store16 a v).load16 b = m.load16 b := by
  unfold load16
  rw [store16_other (by omega), store16_other (by omega)]

theorem load16_store8_other {v : UInt8} (h : a < b ∨ b + 2 ≤ a) :
    (m.store8 a v).load16 b = m.load16 b := by
  unfold load16
  rw [store8_other (by omega), store8_other (by omega)]

theorem SameOn.load16 (h : SameOn m m' a 2) : m'.load16 a = m.load16 a := by
  unfold Mem.load16
  rw [h a (by omega) (by omega), h (a + 1) (by omega) (by omega)]

/-- A byte of a copied range. -/
theorem copyIn_in {src : Mem} {k : Nat} (hk : k < n) : m.copyIn a n src (a + k) = src k := by
  unfold copyIn
  rw [if_pos (by omega), show a + k - a = k by omega]

theorem load32_copyIn {src : Mem} {k : Nat} (hk : k + 4 ≤ n) :
    (m.copyIn a n src).load32 (a + k) = src.load32 k := by
  unfold load32
  rw [Nat.add_assoc a k 1, Nat.add_assoc a k 2, Nat.add_assoc a k 3, copyIn_in (by omega),
    copyIn_in (by omega), copyIn_in (by omega), copyIn_in (by omega)]

end Mem

-- ---------------------------------------------------------------------------
-- A stack that grows downwards
-- ---------------------------------------------------------------------------

namespace Mem

variable {m m₀ m' : Mem} {sp top v : Nat} {ws : List Nat}

/-- The words on the stack, from the stack pointer up. -/
def Stacked (m : Mem) : Nat → List Nat → Prop
  | _, [] => True
  | sp, w :: ws => m.load32 sp = w ∧ m.Stacked (sp + 4) ws

/-- Since the memory was `m₀` and the stack pointer `top`, the words have been pushed
and nothing else was written. -/
structure Pushed (m₀ : Mem) (top : Nat) (m : Mem) (sp : Nat) (ws : List Nat) : Prop where
  depth : sp + 4 * ws.length = top
  words : m.Stacked sp ws
  frame : SameOff m₀ m sp (4 * ws.length)

/-- **Frame.** What does not write to the words leaves them. -/
theorem Stacked.kept (h : m.Stacked sp ws) (hKept : SameOn m m' sp (4 * ws.length)) :
    m'.Stacked sp ws := by
  induction ws generalizing sp with
  | nil => trivial
  | cons w ws ih =>
    rw [List.length_cons] at hKept
    exact ⟨((hKept.sub (Nat.le_refl sp) (by omega)).load32).trans h.1,
      ih h.2 (hKept.sub (by omega) (by omega))⟩

/-- The word number `k`. -/
theorem Stacked.word (h : m.Stacked sp ws) {k w : Nat} (hk : ws[k]? = some w) :
    m.load32 (sp + 4 * k) = w := by
  induction ws generalizing sp k with
  | nil => simp at hk
  | cons w' ws ih =>
    cases k with
    | zero =>
      obtain rfl : w' = w := by simpa using hk
      exact h.1
    | succ k =>
      rw [show sp + 4 * (k + 1) = sp + 4 + 4 * k by omega]
      exact ih h.2 (by simpa using hk)

/-- Nothing has been pushed yet. -/
theorem Pushed.start (m : Mem) (sp : Nat) : Pushed m sp m sp [] :=
  ⟨rfl, trivial, SameOff.refl m sp 0⟩

/-- **Step lemma.** One more word. -/
theorem Pushed.push (h : Pushed m₀ top m sp ws) (hRoom : 4 ≤ sp) (hv : v < 2 ^ 32) :
    Pushed m₀ top (m.store32 (sp - 4) v) (sp - 4) (v :: ws) := by
  have hDepth := h.depth
  have hStore := store32_sameOff m (sp - 4) v
  refine ⟨?_, ⟨load32_store32 hv, ?_⟩, ?_⟩
  · rw [List.length_cons]
    omega
  · rw [show sp - 4 + 4 = sp by omega]
    exact h.words.kept (hStore.sameOn (by omega))
  · rw [List.length_cons]
    exact (h.frame.sub (by omega) (by omega)).trans (hStore.sub (by omega) (by omega))

end Mem
