import Hexos.Lib.Numeral
import Hexos.Libc.Definitions

/-!
# HexOS — `itoa`

`libc/stdlib/itoa.c`. The digits are stored from the least significant one on
and then reversed in place, so what is stored is followed together with where:
the state is the memory and the list of the addresses stored to.

The remainders of C have the sign of the number. A negative number that is not
made positive first has negative remainders, whose characters lie below `0`.

## Results

* `itoaDigits_spec`, `reverseLoop_spec` — the two loops.
* `itoa_spec` — the text, and where it is stored.
* `itoa_numeral_iff` — the numbers and bases for which it is the numeral.
-/

namespace Hexos

open Mem

-- ---------------------------------------------------------------------------
-- Stores
-- ---------------------------------------------------------------------------

/-- The memory, and the addresses of the bytes stored so far, in order. -/
structure StoreLog where
  mem    : Mem
  stores : List Nat

namespace StoreLog

/-- Store the byte `c` at `a`. -/
def store (s : StoreLog) (a : Nat) (c : UInt8) : StoreLog := ⟨s.mem.store8 a c, s.stores ++ [a]⟩

/-- From `s` on, the stores to `s'` were to the `n` bytes from `a` on. -/
structure Within (s s' : StoreLog) (a n : Nat) : Prop where
  frame  : SameOff s.mem s'.mem a n
  stores : ∃ new, s'.stores = s.stores ++ new ∧ ∀ x ∈ new, a ≤ x ∧ x < a + n

variable {s s' s'' : StoreLog} {a n : Nat}

theorem Within.refl (s : StoreLog) (a n : Nat) : s.Within s a n :=
  ⟨SameOff.refl s.mem a n, [], by simp, by simp⟩

theorem Within.trans (h : s.Within s' a n) (h' : s'.Within s'' a n) : s.Within s'' a n := by
  obtain ⟨hFrame, new, hNew, hIn⟩ := h
  obtain ⟨hFrame', new', hNew', hIn'⟩ := h'
  refine ⟨hFrame.trans hFrame', new ++ new', ?_, ?_⟩
  · rw [hNew', hNew, List.append_assoc]
  · intro x hx
    rcases List.mem_append.mp hx with hx | hx
    · exact hIn x hx
    · exact hIn' x hx

theorem Within.sub {k l : Nat} (h : s.Within s' k l) (hl : a ≤ k) (hr : k + l ≤ a + n) :
    s.Within s' a n := by
  obtain ⟨hFrame, new, hNew, hIn⟩ := h
  refine ⟨hFrame.sub hl hr, new, hNew, ?_⟩
  intro x hx
  have := hIn x hx
  omega

theorem store_within (s : StoreLog) {x : Nat} (c : UInt8) (hl : a ≤ x) (hr : x < a + n) :
    s.Within (s.store x c) a n := by
  refine ⟨(store8_sameOff s.mem x c).sub hl (by omega), [x], rfl, ?_⟩
  intro y hy
  obtain rfl := List.mem_singleton.mp hy
  exact ⟨hl, hr⟩

/-- Store the bytes `cs` from `a` on, one after the other. -/
def storeAll (s : StoreLog) (a : Nat) : List UInt8 → StoreLog
  | [] => s
  | c :: cs => (s.store a c).storeAll (a + 1) cs

theorem storeAll_append (cs cs' : List UInt8) :
    s.storeAll a (cs ++ cs') = (s.storeAll a cs).storeAll (a + cs.length) cs' := by
  induction cs generalizing s a with
  | nil => rfl
  | cons c cs ih =>
    rw [List.cons_append, storeAll, storeAll, ih, List.length_cons, Nat.add_assoc, Nat.add_comm 1]

theorem storeAll_within (s : StoreLog) (a : Nat) (cs : List UInt8) :
    s.Within (s.storeAll a cs) a cs.length := by
  induction cs generalizing s a with
  | nil => exact Within.refl s a 0
  | cons c cs ih =>
    rw [List.length_cons]
    refine (store_within s c (by omega) (by omega)).trans ((ih (s.store a c) (a + 1)).sub ?_ ?_)
    · omega
    · omega

/-- The bytes stored are there. -/
theorem storeAll_mem (s : StoreLog) (a : Nat) (cs : List UInt8) (j : Nat) (hj : j < cs.length) :
    (s.storeAll a cs).mem (a + j) = cs.get ⟨j, hj⟩ := by
  induction cs generalizing s a j with
  | nil => exact absurd hj (Nat.not_lt_zero j)
  | cons c cs ih =>
    cases j with
    | zero =>
      rw [storeAll, (storeAll_within (s.store a c) (a + 1) cs).frame _ (by omega)]
      exact store8_self
    | succ j =>
      rw [storeAll, show a + (j + 1) = a + 1 + j by omega]
      exact ih (s.store a c) (a + 1) j (Nat.lt_of_succ_lt_succ hj)

end StoreLog

-- ---------------------------------------------------------------------------
-- The functions
-- ---------------------------------------------------------------------------

/-- The loop of `reverse`. -/
def reverseLoop (str : Nat) : Nat → Int → Int → StoreLog → Outcome StoreLog
  | 0, _, _, _ => .running
  | fuel + 1, start, last, s =>
    if start < last then
      let c := s.mem (str + start.toNat)
      let s := s.store (str + start.toNat) (s.mem (str + last.toNat))
      let s := s.store (str + last.toNat) c
      reverseLoop str fuel (start + 1) (last - 1) s
    else .done s

/-- `reverse`. -/
def reverse (fuel str length : Nat) (s : StoreLog) : Outcome StoreLog :=
  reverseLoop str fuel 0 (length - 1) s

/-- The character that `itoa` stores for a remainder. -/
def itoaChar (rem : Int) : UInt8 :=
  UInt8.ofNat (wordOf (if rem > 9 then (rem - 10) + 97 else rem + 48))

/-- The loop of `itoa`; it returns the number of characters. The division is that of
the processor, which faults where the quotient is not an `int`. -/
def itoaDigits (str : Nat) (base : Int) :
    Nat → Int → Nat → StoreLog → Outcome (Nat × StoreLog)
  | 0, _, _, _ => .running
  | fuel + 1, num, i, s =>
    if num ≠ 0 then
      if base = 0 ∨ base = -1 ∧ num = -2 ^ 31 then .panic "division error"
      else
        let rem := num.tmod base
        itoaDigits str base fuel (num.tdiv base) (i + 1) (s.store (str + i) (itoaChar rem))
    else .done (i, s)

/-- `itoa`. -/
def itoa (fuel : Nat) (num : Int) (str : Nat) (base : Int) (s : StoreLog) : Outcome StoreLog :=
  if num = 0 then .done ((s.store str 48).store (str + 1) 0)
  else
    let isNegative := decide (num < 0 ∧ base = 10)
    let num := if num < 0 ∧ base = 10 then toInt32 (-num) else num
    (itoaDigits str base fuel num 0 s).bind fun (i, s) =>
    let (i, s) := if isNegative then (i + 1, s.store (str + i) 45) else (i, s)
    let s := s.store (str + i) 0
    reverse fuel str i s

-- ---------------------------------------------------------------------------
-- The loops
-- ---------------------------------------------------------------------------

/-- **reverse.** The bytes from `start` to `last` change places. -/
theorem reverseLoop_spec (fuel str start last : Nat) (s : StoreLog)
    (hFuel : last < start + fuel) (hPos : 0 < fuel) :
    ∃ s', reverseLoop str fuel start last s = .done s' ∧
      (∀ j, start ≤ j → j ≤ last →
        s'.mem (str + j) = s.mem (str + (start + last - j))) ∧
      s.Within s' (str + start) (last + 1 - start) := by
  induction fuel generalizing start last s with
  | zero => exact absurd hPos (Nat.lt_irrefl 0)
  | succ fuel ih =>
    rw [reverseLoop]
    by_cases hlt : start < last
    · rw [if_pos (by omega)]
      simp only [Int.toNat_natCast]
      rw [show (last : Int) - 1 =
        (last - 1 : Nat) by omega, show (start : Int) + 1 = (start + 1 : Nat) by rfl]
      -- the two outer bytes are exchanged before the bytes between them
      have hOne :=
        StoreLog.store_within (a := str + start) (n := last + 1 - start) (x := str + start) s
        (s.mem (str + last)) (by omega) (by omega)
      have hTwo :=
        StoreLog.store_within (a := str + start) (n := last + 1 - start) (x := str + last)
        (s.store (str + start) (s.mem (str + last))) (s.mem (str + start)) (by omega) (by omega)
      obtain ⟨s', hRun, hInner, hWithin⟩ := ih (start + 1) (last - 1)
        ((s.store (str + start) (s.mem (str + last))).store (str + last) (s.mem (str + start)))
        (by omega) (by omega)
      refine ⟨s', hRun, ?_, (hOne.trans hTwo).trans (hWithin.sub (by omega) (by omega))⟩
      intro j hl hr
      rcases Nat.lt_or_ge j (start + 1) with hFirst | hRest
      · obtain rfl : j = start := by omega
        rw [hWithin.frame _ (by omega), Nat.add_sub_cancel_left]
        exact (store8_other (by omega)).trans store8_self
      · rcases Nat.lt_or_ge j last with hMiddle | hLast
        · rw [hInner j hRest (by omega),
            show start + 1 + (last - 1) - j = start + last - j by omega]
          exact (store8_other (by omega)).trans (store8_other (by omega))
        · obtain rfl : j = last := by omega
          rw [hWithin.frame _ (by omega), Nat.add_sub_cancel]
          exact store8_self
    · rw [if_neg (by omega)]
      refine ⟨s, rfl, ?_, StoreLog.Within.refl s _ _⟩
      intro j hl hr
      rw [show start + last - j = j by omega]

/-- **The digits.** The number is `σ * n` with its sign `σ`, which all remainders
have. -/
theorem itoaDigits_spec {fuel base n : Nat} {σ : Int} (str i : Nat) (s : StoreLog)
    (hσ : σ = 1 ∨ σ = -1) (hBase : 2 ≤ base) (hFuel : (Nat.digits base n).length < fuel) :
    itoaDigits str base fuel (σ * n) i s =
      .done (i + (Nat.digits base n).length,
        s.storeAll (str + i) ((Nat.digits base n).map fun d : Nat => itoaChar (σ * d))) := by
  induction fuel generalizing n i s with
  | zero => exact absurd hFuel (Nat.not_lt_zero _)
  | succ fuel ih =>
    rw [itoaDigits]
    rcases Nat.eq_zero_or_pos n with rfl | hn
    · rw [if_neg (by simp)]
      simp [StoreLog.storeAll]
    · have hDigits := Nat.digits_def' (show 1 < base by omega) hn
      rw [hDigits, List.length_cons] at hFuel
      have hNe : σ * n ≠ 0 := by
        rcases hσ with rfl | rfl
        · omega
        · omega
      have hDiv : (σ * n).tdiv base = σ * (n / base : Nat) := by
        rcases hσ with rfl | rfl
        · rw [one_mul, one_mul]
          rfl
        · rw [neg_one_mul, neg_one_mul, Int.neg_tdiv]
          rfl
      have hMod : (σ * n).tmod base = σ * (n % base : Nat) := by
        rcases hσ with rfl | rfl
        · rw [one_mul, one_mul]
          rfl
        · rw [neg_one_mul, neg_one_mul, Int.neg_tmod]
          rfl
      rw [if_pos hNe, if_neg (by omega)]
      simp only [hDiv, hMod]
      rw [ih _ _ (by omega), hDigits, List.map_cons, StoreLog.storeAll, List.length_cons,
        Nat.add_assoc, Nat.add_comm 1, Nat.add_assoc]

-- ---------------------------------------------------------------------------
-- The text
-- ---------------------------------------------------------------------------

/-- A string that is stored backwards and then reversed. -/
theorem reverse_spec {fuel : Nat} (str : Nat) {cs : List UInt8} (s : StoreLog) (hCs : cs ≠ [])
    (hFuel : cs.length < fuel) :
    ∃ s', reverse fuel str cs.length ((s.storeAll str cs).store (str + cs.length) 0) =
      .done s' ∧
      StringAt s'.mem str cs.reverse ∧ s.Within s' str (cs.length + 1) := by
  have hLen : 0 < cs.length := List.length_pos_of_ne_nil hCs
  obtain ⟨s', hRun, hSwap, hWithin⟩ := reverseLoop_spec fuel str 0 (cs.length - 1)
    ((s.storeAll str cs).store (str + cs.length) 0) (by omega) (by omega)
  rw [show cs.length - 1 + 1 - 0 = cs.length by omega, Nat.add_zero] at hWithin
  have hAll := StoreLog.storeAll_within s str cs
  have hEnd := StoreLog.store_within (a := str) (n := cs.length + 1) (x := str + cs.length)
    (s.storeAll str cs) 0 (by omega) (by omega)
  refine ⟨s', ?_, ⟨?_, ?_⟩, ?_⟩
  · rw [reverse, show (cs.length : Int) - 1 = (cs.length - 1 : Nat) by omega]
    exact hRun
  · intro j hj
    rw [List.length_reverse] at hj
    rw [hSwap j (by omega) (by omega), show 0 + (cs.length - 1) - j = cs.length - 1 - j by omega]
    refine (store8_other (by omega)).trans ?_
    rw [StoreLog.storeAll_mem s str cs (cs.length - 1 - j) (by omega)]
    simp
  · rw [List.length_reverse, hWithin.frame _ (by omega)]
    exact store8_self
  · exact ((hAll.sub (by omega) (by omega)).trans hEnd).trans (hWithin.sub (by omega) (by omega))

/-- The end of `itoa`: the sign is stored behind the digits, as the last character to
be reversed. -/
theorem itoa_finish (fuel str : Nat) {ds : List UInt8} (s : StoreLog) (isNegative : Bool)
    (hDs : ds ≠ []) (hFuel : ((if isNegative then [45] else []) ++ ds.reverse).length < fuel) :
    ∃ s', (let (i, s) := if isNegative then
          (ds.length + 1, (s.storeAll str ds).store (str + ds.length) 45)
        else (ds.length, s.storeAll str ds)
        reverse fuel str i (s.store (str + i) 0)) = .done s' ∧
      StringAt s'.mem str ((if isNegative then [45] else []) ++ ds.reverse) ∧
      s.Within s' str (((if isNegative then [45] else []) ++ ds.reverse).length + 1) := by
  cases isNegative with
  | false =>
    simp only [Bool.false_eq_true, if_false, List.nil_append, List.length_reverse] at hFuel ⊢
    exact reverse_spec str s hDs hFuel
  | true =>
    have hSign : (s.storeAll str ds).store (str + ds.length) 45 = s.storeAll str (ds ++ [45]) := by
      rw [StoreLog.storeAll_append]
      rfl
    have hLength : ds.length + 1 = (ds ++ [45]).length := by simp
    simp only [if_true, List.length_append, List.length_reverse, List.length_singleton] at hFuel ⊢
    rw [hSign, hLength, show 1 + ds.length = (ds ++ [45]).length by simp [Nat.add_comm],
      show [45] ++ ds.reverse = (ds ++ [45]).reverse by simp]
    refine reverse_spec str s (by simp) ?_
    rw [← hLength]
    omega

/-- The characters of the digits of `i`. -/
def itoaChars (base : Nat) (i : Int) : List UInt8 :=
  (Nat.digits base i.natAbs).reverse.map fun d : Nat => itoaChar (i.sign * d)

/-- The text that `itoa` makes of `num`. -/
def itoaText (num : Int) (base : Nat) : List UInt8 :=
  if num = 0 then [48]
  else (if num < 0 ∧ base = 10 then [45] else []) ++
    itoaChars base (if num < 0 ∧ base = 10 then toInt32 (-num) else num)

theorem sign_of_ne_zero {i : Int} (h : i ≠ 0) : i.sign = 1 ∨ i.sign = -1 := by
  rcases lt_or_gt_of_ne h with hlt | hgt
  · exact Or.inr (Int.sign_eq_neg_one_of_neg hlt)
  · exact Or.inl (Int.sign_eq_one_of_pos hgt)

/-- The number whose digits are stored is not zero if `num` is not. -/
theorem itoaSigned_ne_zero {num : Int} (base : Nat) (hNum : -2 ^ 31 ≤ num ∧ num < 2 ^ 31)
    (hZero : num ≠ 0) : (if num < 0 ∧ base = 10 then toInt32 (-num) else num) ≠ 0 := by
  split
  · unfold toInt32 intOf wordOf
    split <;> omega
  · exact hZero

/-- **itoa.** The text, and where it is stored. -/
theorem itoa_spec {fuel : Nat} (num : Int) (base str : Nat) (s : StoreLog)
    (hNum : -2 ^ 31 ≤ num ∧ num < 2 ^ 31) (hBase : 2 ≤ base)
    (hFuel : (itoaText num base).length < fuel) :
    ∃ s', itoa fuel num str base s = .done s' ∧ StringAt s'.mem str (itoaText num base) ∧
      s.Within s' str ((itoaText num base).length + 1) := by
  unfold itoa itoaText at *
  by_cases hZero : num = 0
  · rw [if_pos hZero] at hFuel ⊢
    rw [if_pos hZero]
    refine ⟨_, rfl, ⟨?_, store8_self⟩, ?_⟩
    · intro j hj
      obtain rfl : j = 0 := by simpa using hj
      exact (store8_other (by simp)).trans store8_self
    · have hOne := StoreLog.store_within (a := str) (n := 2) (x := str) s 48 (by omega) (by omega)
      exact hOne.trans (StoreLog.store_within (s.store str 48) 0 (by omega) (by omega))
  · rw [if_neg hZero] at hFuel ⊢
    rw [if_neg hZero]
    have hTen : ((base : Int) = 10) = (base = 10) := by
      rw [eq_iff_iff]
      omega
    simp only [hTen] at hFuel ⊢
    have hNe := itoaSigned_ne_zero base hNum hZero
    generalize (if num < 0 ∧ base = 10 then toInt32 (-num) else num) = signed at hFuel hNe ⊢
    unfold itoaChars at hFuel ⊢
    have hLength := hFuel
    rw [List.length_append, List.length_map, List.length_reverse] at hLength
    have hDigits := itoaDigits_spec str 0 s (sign_of_ne_zero hNe) hBase
      (Nat.lt_of_le_of_lt (Nat.le_add_left _ _) hLength)
    rw [Int.sign_mul_natAbs, Nat.zero_add] at hDigits
    rw [hDigits, Outcome.bind_done]
    have hDs :
        ((Nat.digits base signed.natAbs).map fun d : Nat => itoaChar (signed.sign * d)) ≠ [] := by
      rw [Ne, List.map_eq_nil_iff, Nat.digits_eq_nil_iff_eq_zero, Int.natAbs_eq_zero]
      exact hNe
    have hFinish := itoa_finish fuel str s (decide (num < 0 ∧ base = 10)) hDs
    simp only [decide_eq_true_eq, List.length_map, ← List.map_reverse] at hFinish ⊢
    exact hFinish hFuel

-- ---------------------------------------------------------------------------
-- The numeral
-- ---------------------------------------------------------------------------

/-- `text` stands for `num` in base `base`: a negative number has a sign in base 10,
and is taken as unsigned in every other base. -/
def ItoaNumeral (num : Int) (base : Nat) (text : List UInt8) : Prop :=
  if 0 ≤ num then Numeral.Denotes base text num.toNat
  else if base = 10 then ∃ digits, text = 45 :: digits ∧ Numeral.Denotes 10 digits (-num).toNat
  else Numeral.Denotes base text (num + 2 ^ 32).toNat

theorem itoaChar_natCast {d : Nat} (h : d < 36) : itoaChar d = Numeral.digitChar d := by
  unfold itoaChar Numeral.digitChar
  by_cases hLetter : d > 9
  · rw [if_pos (by omega), if_pos hLetter,
      show ((d : Int) - 10) + 97 = (d - 10 + 97 : Nat) by omega, wordOf_natCast (by omega)]
  · rw [if_neg (by omega), if_neg hLetter, show (d : Int) + 48 = (d + 48 : Nat) by omega,
      wordOf_natCast (by omega)]

/-- The characters of negative remainders lie below `0`. -/
theorem itoaChar_neg {d : Nat} (h : d < 36) : (itoaChar (-d)).toNat = 48 - d := by
  unfold itoaChar
  rw [if_neg (by omega), show -(d : Int) + 48 = (48 - d : Nat) by omega, wordOf_natCast (by omega),
    UInt8.toNat_ofNat']
  omega

theorem itoaChar_ne_zero {σ : Int} {d : Nat} (hσ : σ = 1 ∨ σ = -1) (hd : d < 36) :
    itoaChar (σ * d) ≠ 0 := by
  intro hZero
  have hNat := congrArg UInt8.toNat hZero
  rcases hσ with rfl | rfl
  · rw [one_mul, itoaChar_natCast hd, Numeral.digitChar_toNat hd] at hNat
    split at hNat
    · exact absurd hNat (Nat.succ_ne_zero _)
    · exact absurd hNat (Nat.succ_ne_zero _)
  · rw [neg_one_mul, itoaChar_neg hd] at hNat
    change 48 - d = 0 at hNat
    omega

section Text

variable {num : Int} {base : Nat}

theorem digits_length_le (h2 : 2 ≤ base) {n : Nat} (hn : n ≤ 2 ^ 31) :
    (Nat.digits base n).length ≤ 32 := by
  rw [Nat.digits_length_le_iff (by omega)]
  calc n < 2 ^ 32 := by omega
    _ ≤ base ^ 32 := Nat.pow_le_pow_left h2 32

/-- The number whose digits are stored. -/
theorem itoaSigned_range (base : Nat) (hNum : -2 ^ 31 ≤ num ∧ num < 2 ^ 31) :
    (if num < 0 ∧ base = 10 then toInt32 (-num) else num).natAbs ≤ 2 ^ 31 := by
  split
  · unfold toInt32 intOf wordOf
    split <;> omega
  · omega

theorem itoaText_length_le (hNum : -2 ^ 31 ≤ num ∧ num < 2 ^ 31) (h2 : 2 ≤ base) :
    (itoaText num base).length ≤ 33 := by
  unfold itoaText
  split
  · simp
  · have hDigits := digits_length_le h2 (itoaSigned_range base hNum)
    rw [List.length_append, itoaChars, List.length_map, List.length_reverse]
    have hSign : (if num < 0 ∧ base = 10 then [(45 : UInt8)] else []).length ≤ 1 := by
      split <;> simp
    omega

theorem itoaText_nonzero (hNum : -2 ^ 31 ≤ num ∧ num < 2 ^ 31)
    (hBase : 2 ≤ base ∧ base ≤ 36) :
    0 ∉ itoaText num base := by
  unfold itoaText
  split
  · decide
  · rename_i hZero
    have hNe := itoaSigned_ne_zero base hNum hZero
    generalize (if num < 0 ∧ base = 10 then toInt32 (-num) else num) = signed at hNe ⊢
    rw [List.mem_append, not_or]
    refine ⟨?_, ?_⟩
    · split <;> simp
    · intro hMem
      obtain ⟨d, hd, hChar⟩ := List.mem_map.mp hMem
      have hLt := Nat.digits_lt_base (by omega) (List.mem_reverse.mp hd)
      exact itoaChar_ne_zero (sign_of_ne_zero hNe) (by omega) hChar

/-- A positive number. -/
theorem itoaChars_denotes (hBase : 2 ≤ base ∧ base ≤ 36) {i : Int} (hi : 0 < i) :
    Numeral.Denotes base (itoaChars base i) i.toNat := by
  have hChars : itoaChars base i = (Nat.digits base i.natAbs).reverse.map Numeral.digitChar := by
    refine List.map_congr_left ?_
    intro d hd
    have hLt := Nat.digits_lt_base (by omega) (List.mem_reverse.mp hd)
    rw [Int.sign_eq_one_of_pos hi, one_mul, itoaChar_natCast (by omega)]
  rw [hChars, show i.toNat = i.natAbs by omega]
  exact Numeral.denotes_digits hBase.1 hBase.2 (by omega)

/-- A negative number: the first character is no digit. -/
theorem itoaChars_not_denotes (hBase : 2 ≤ base ∧ base ≤ 36) {i : Int} (hi : i < 0)
    (n : Nat) :
    ¬ Numeral.Denotes base (itoaChars base i) n := by
  have hNil : Nat.digits base i.natAbs ≠ [] := Nat.digits_ne_nil_iff_ne_zero.mpr (by omega)
  have hLast := Nat.getLast_digit_ne_zero base (show i.natAbs ≠ 0 by omega)
  have hLt : (Nat.digits base i.natAbs).getLast hNil < base :=
    Nat.digits_lt_base (by omega) (List.getLast_mem hNil)
  rw [itoaChars, ← List.dropLast_append_getLast hNil, List.reverse_append, List.reverse_singleton,
    List.singleton_append, List.map_cons, Int.sign_eq_neg_one_of_neg hi, neg_one_mul]
  refine Numeral.not_denotes_cons ?_
  rw [itoaChar_neg (by omega)]
  omega

theorem itoaText_of_pos (h : 0 < num) : itoaText num base = itoaChars base num := by
  have hNot : ¬ (num < 0 ∧ base = 10) := by omega
  rw [itoaText, if_neg (by omega), if_neg hNot, if_neg hNot, List.nil_append]

theorem itoaText_of_neg_ten (h : num < 0) :
    itoaText num 10 = 45 :: itoaChars 10 (toInt32 (-num)) := by
  have hTen : num < 0 ∧ 10 = 10 := ⟨h, rfl⟩
  rw [itoaText, if_neg (by omega), if_pos hTen, if_pos hTen, List.singleton_append]

theorem itoaText_of_neg (h : num < 0) (hTen : base ≠ 10) :
    itoaText num base = itoaChars base num := by
  have hNot : ¬ (num < 0 ∧ base = 10) := by omega
  rw [itoaText, if_neg (by omega), if_neg hNot, if_neg hNot, List.nil_append]

/-- **The text.** -/
theorem itoaText_numeral_iff (hNum : -2 ^ 31 ≤ num ∧ num < 2 ^ 31)
    (hBase : 2 ≤ base ∧ base ≤ 36) :
    ItoaNumeral num base (itoaText num base) ↔ 0 ≤ num ∨ base = 10 ∧ num ≠ -2 ^ 31 := by
  unfold ItoaNumeral
  rcases lt_trichotomy num 0 with hNeg | rfl | hPos
  · rw [if_neg (by omega)]
    by_cases hTen : base = 10
    · subst hTen
      rw [if_pos rfl, itoaText_of_neg_ten hNeg]
      by_cases hMin : num = -2 ^ 31
      · -- the least `int` is its own negative
        have hSigned : toInt32 (-num) < 0 := by
          unfold toInt32 intOf wordOf
          split <;> omega
        constructor
        · rintro ⟨digits, hDigits, hDenotes⟩
          rw [← (List.cons.inj hDigits).2] at hDenotes
          exact absurd hDenotes (itoaChars_not_denotes hBase hSigned _)
        · intro hCond
          omega
      · rw [toInt32_eq (by omega)]
        refine ⟨fun _ => Or.inr ⟨rfl, hMin⟩, ?_⟩
        intro _
        exact ⟨_, rfl, itoaChars_denotes hBase (by omega)⟩
    · rw [if_neg hTen, itoaText_of_neg hNeg hTen]
      refine ⟨fun hDenotes => absurd hDenotes (itoaChars_not_denotes hBase hNeg _), ?_⟩
      intro hCond
      omega
  · rw [if_pos (le_refl 0)]
    exact ⟨fun _ => Or.inl (le_refl 0), fun _ => Numeral.denotes_zero hBase.1⟩
  · rw [if_pos (by omega), itoaText_of_pos hPos]
    exact ⟨fun _ => Or.inl (by omega), fun _ => itoaChars_denotes hBase hPos⟩

end Text

/-- What is stored is a numeral exactly when the text is. -/
theorem itoa_iff_text (m : Mem) (str : Nat) (num : Int) (base : Nat) {fuel : Nat}
    (hNum : -2 ^ 31 ≤ num ∧ num < 2 ^ 31) (hBase : 2 ≤ base ∧ base ≤ 36)
    (hFuel : 34 ≤ fuel) :
    (∃ s text, itoa fuel num str base ⟨m, []⟩ = .done s ∧ StringAt s.mem str text ∧
      0 ∉ text ∧
      ItoaNumeral num base text) ↔ ItoaNumeral num base (itoaText num base) := by
  have hLength := itoaText_length_le hNum hBase.1
  obtain ⟨s, hRun, hString, -⟩ := itoa_spec num base str ⟨m, []⟩ hNum hBase.1
    (Nat.lt_of_le_of_lt hLength hFuel)
  have hNonzero := itoaText_nonzero hNum hBase
  constructor
  · rintro ⟨s', text, hRun', hString', hText, hNumeral⟩
    obtain rfl : s = s' := by
      rw [hRun] at hRun'
      exact Outcome.done.inj hRun'
    rwa [StringAt.unique hNonzero hText hString hString']
  · intro hNumeral
    exact ⟨s, itoaText num base, hRun, hString, hNonzero, hNumeral⟩

/-- **itoa writes the numeral** of every number that is not negative, and in base 10
of every negative number but the least `int`. -/
theorem itoa_numeral_iff (m : Mem) (str : Nat) (num : Int) (base : Nat) {fuel : Nat}
    (hNum : -2 ^ 31 ≤ num ∧ num < 2 ^ 31) (hBase : 2 ≤ base ∧ base ≤ 36)
    (hFuel : 34 ≤ fuel) :
    (∃ s text, itoa fuel num str base ⟨m, []⟩ = .done s ∧ StringAt s.mem str text ∧
      0 ∉ text ∧
      ItoaNumeral num base text) ↔ 0 ≤ num ∨ base = 10 ∧ num ≠ -2 ^ 31 :=
  (itoa_iff_text m str num base hNum hBase hFuel).trans (itoaText_numeral_iff hNum hBase)

/-- Base 16, and a number with letters. -/
theorem itoa_numeral_hex :
    ∃ s text, itoa 34 48879 0 16 ⟨fun _ => 0, []⟩ = .done s ∧ StringAt s.mem 0 text ∧
      0 ∉ text ∧
      ItoaNumeral 48879 16 text :=
  (itoa_numeral_iff (fun _ => 0) 0 48879 16 (by omega) (by omega) (by omega)).mpr
    (Or.inl (by omega))

/-- Minus one in base 16 is stored as `/`, and not as a numeral of `0xffffffff`. -/
theorem itoa_minus_one_hex :
    (∃ s, itoa 34 (-1) 0 16 ⟨fun _ => 0, []⟩ = .done s ∧ StringAt s.mem 0 (ascii "/")) ∧
    ¬ ∃ s text, itoa 34 (-1) 0 16 ⟨fun _ => 0, []⟩ = .done s ∧ StringAt s.mem 0 text ∧
    0 ∉ text ∧
      ItoaNumeral (-1) 16 text := by
  refine ⟨⟨_, rfl, ?_, rfl⟩, ?_⟩
  · intro j hj
    obtain rfl : j = 0 := by simpa [ascii] using hj
    rfl
  · intro hNumeral
    have hText :=
      (itoa_iff_text (fun _ => 0) 0 (-1) 16 (by omega) (by omega) (by omega)).mp hNumeral
    have hCond := (itoaText_numeral_iff (by omega) (by omega)).mp hText
    omega

end Hexos
