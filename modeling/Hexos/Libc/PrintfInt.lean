import Hexos.Lib.Numeral
import Hexos.Libc.Definitions

/-!
# HexOS — `printf_int`

What `printf("%d", i)` prints for every `int`. The loop that looks for the first
power of ten above the number multiplies in an `int`. Below `10^9` the product
does not overflow; from there on the power that is looked for is `10^10`, which
is none, and the loop ends with `1410065408` or with a negative number instead.

## Results

* `printfScale_spec`, `printfDigits_spec` — the loops without overflow.
* `printfScale_overflow` — where the first loop ends for ten digits.
* `printfInt_total` — it always ends.
* `printfInt_decimal_iff` — the numbers that are printed in decimal.
-/

namespace Hexos

/-- `text` is `i` in decimal. -/
def IsDecimal (i : Int) (text : List UInt8) : Prop :=
  if i < 0 then ∃ digits, text = 45 :: digits ∧ Numeral.Denotes 10 digits i.natAbs
  else Numeral.Denotes 10 text i.natAbs

-- ---------------------------------------------------------------------------
-- The loops without overflow
-- ---------------------------------------------------------------------------

theorem ten_pow_div (k : Nat) : 10 ^ (k + 1) / 10 = 10 ^ k := by
  rw [Nat.pow_succ, Nat.mul_div_cancel _ (by omega)]

/-- One more power of ten. -/
theorem printfScale_step {n j fuel : Nat} (hLe : 10 ^ j ≤ n) :
    printfScale n (fuel + 1) (10 ^ j : Nat) =
      printfScale n fuel (toInt32 (10 ^ (j + 1) : Nat)) := by
  have hPos : 0 < 10 ^ j := Nat.pow_pos (by omega)
  have hQuotient : 0 < n / 10 ^ j := Nat.div_pos hLe hPos
  have hDiv : (n : Int).tdiv (10 ^ j : Nat) = (n / 10 ^ j : Nat) := rfl
  rw [printfScale, if_neg (by omega), if_pos (by rw [hDiv]; omega), Nat.pow_succ, Nat.cast_mul]
  rfl

/-- The loop ends. -/
theorem printfScale_end {n j fuel : Nat} (hLt : n < 10 ^ j) :
    printfScale n (fuel + 1) (10 ^ j : Nat) = .done (10 ^ j : Nat) := by
  have hDiv : (n : Int).tdiv (10 ^ j : Nat) = (n / 10 ^ j : Nat) := rfl
  rw [printfScale, if_neg (by omega), if_neg (by rw [hDiv, Nat.div_eq_of_lt hLt]; omega)]

/-- **The first loop.** From a power that is not too large it finds the first one
above the number. -/
theorem printfScale_spec {n j fuel : Nat} (hn : n < 10 ^ 9) (hj : j ≤ (Nat.digits 10 n).length)
    (hFuel : (Nat.digits 10 n).length < j + fuel) :
    printfScale n fuel (10 ^ j : Nat) = .done (10 ^ (Nat.digits 10 n).length : Nat) := by
  have hNine : (Nat.digits 10 n).length ≤ 9 := (Nat.digits_length_le_iff (by omega) n).mpr hn
  induction fuel generalizing j with
  | zero => omega
  | succ fuel ih =>
    rcases Nat.lt_or_ge j (Nat.digits 10 n).length with hlt | hge
    · have hLe : 10 ^ j ≤ n := (Nat.lt_digits_length_iff (by omega) n).mp hlt
      have hPow : 10 ^ (j + 1) ≤ 10 ^ 9 := Nat.pow_le_pow_right (by omega) (by omega)
      rw [printfScale_step hLe, toInt32_natCast (Nat.lt_of_le_of_lt hPow (by omega))]
      exact ih (by omega) (by omega)
    · obtain rfl : j = (Nat.digits 10 n).length := by omega
      exact printfScale_end (Nat.lt_base_pow_length_digits (by omega))

/-- One digit. -/
theorem printfDigits_step {n k fuel : Nat} (hk : k < 9) (hn : n < 10 ^ (k + 1)) :
    printfDigits (fuel + 1) n (10 ^ k : Nat) =
      (printfDigits fuel (n % 10 ^ k : Nat) (10 ^ k / 10 : Nat)).map
        fun rest => Numeral.digitChar (n / 10 ^ k) :: rest := by
  have hPos : 0 < 10 ^ k := Nat.pow_pos (by omega)
  have hPow : 10 ^ (k + 1) ≤ 10 ^ 9 := Nat.pow_le_pow_right (by omega) (by omega)
  have hDigit : n / 10 ^ k < 10 := by
    rw [Nat.div_lt_iff_lt_mul hPos, Nat.mul_comm]
    exact hn
  have hDiv : (n : Int).tdiv (10 ^ k : Nat) = (n / 10 ^ k : Nat) := rfl
  have hMod : (n : Int) - (n / 10 ^ k : Nat) * (10 ^ k : Nat) = (n % 10 ^ k : Nat) := by
    have hEq := Nat.div_add_mod' n (10 ^ k)
    rw [← Nat.cast_mul]
    omega
  have hChar : UInt8.ofNat (wordOf (48 + (n / 10 ^ k : Nat))) = Numeral.digitChar (n / 10 ^ k) := by
    rw [show (48 : Int) + (n / 10 ^ k : Nat) = (48 + n / 10 ^ k : Nat) by rfl,
      wordOf_natCast (Nat.lt_of_lt_of_le (Nat.add_lt_add_left hDigit 48) (by omega)),
      Numeral.digitChar, if_neg (by omega), Nat.add_comm]
  have hRest : n % 10 ^ k < 2 ^ 31 :=
    Nat.lt_of_le_of_lt (Nat.mod_le n _) (Nat.lt_of_lt_of_le hn (hPow.trans (by omega)))
  rw [printfDigits, if_pos (by omega)]
  simp only [hDiv, hMod, hChar, toInt32_natCast hRest]
  rfl

/-- **The last loop.** From the power `10^k` on it prints the digits of the number, the
first of which is its quotient by `10^k`. -/
theorem printfDigits_spec {n k fuel : Nat} (hk : k < 9) (hn : n < 10 ^ (k + 1))
    (hFuel : k + 1 < fuel) :
    ∃ rest, printfDigits fuel n (10 ^ k : Nat) =
      .done (Numeral.digitChar (n / 10 ^ k) :: rest) ∧
      ∀ acc, Numeral.readFrom 10 acc (Numeral.digitChar (n / 10 ^ k) :: rest) =
        some (acc * 10 ^ (k + 1) + n) := by
  induction k generalizing n fuel with
  | zero =>
    obtain ⟨fuel, rfl⟩ : ∃ f, fuel = f + 2 := ⟨fuel - 2, by omega⟩
    refine ⟨[], ?_, ?_⟩
    · rw [printfDigits_step hk hn, printfDigits, if_neg (by decide), Outcome.map_done]
    · intro acc
      rw [Numeral.readFrom, Numeral.digitValue_digitChar (by omega) (by omega), Option.bind_some,
        Numeral.readFrom, Nat.pow_zero, Nat.div_one, Nat.zero_add, Nat.pow_one]
  | succ k ih =>
    obtain ⟨fuel, rfl⟩ : ∃ f, fuel = f + 1 := ⟨fuel - 1, by omega⟩
    have hPos : 0 < 10 ^ (k + 1) := Nat.pow_pos (by omega)
    have hDigit : n / 10 ^ (k + 1) < 10 := by
      rw [Nat.div_lt_iff_lt_mul hPos, Nat.mul_comm]
      exact hn
    obtain ⟨rest, hRun, hValue⟩ :=
      ih (by omega) (Nat.mod_lt n hPos) (show k + 1 < fuel by omega)
    refine ⟨Numeral.digitChar (n % 10 ^ (k + 1) / 10 ^ k) :: rest, ?_, ?_⟩
    · rw [printfDigits_step hk hn, ten_pow_div, hRun, Outcome.map_done]
    · intro acc
      rw [Numeral.readFrom, Numeral.digitValue_digitChar (by omega) hDigit,
        Option.bind_some, hValue]
      congr 1
      calc (acc * 10 + n / 10 ^ (k + 1)) * 10 ^ (k + 1) + n % 10 ^ (k + 1)
          = acc * 10 * 10 ^ (k + 1) +
              (n / 10 ^ (k + 1) * 10 ^ (k + 1) + n % 10 ^ (k + 1)) := by ring
        _ = acc * 10 ^ (k + 1 + 1) + n := by
          rw [Nat.div_add_mod' n, Nat.mul_assoc, ← Nat.pow_succ']

/-- **Both loops.** A number of nine digits at most is printed in decimal. -/
theorem printfDigits_denotes {n fuel : Nat} (hn : n < 10 ^ 9) (hFuel : 11 ≤ fuel) :
    ∃ f text, printfScale n fuel 1 = .done f ∧
      printfDigits fuel n (if f.tdiv 10 = 0 then 1 else f.tdiv 10) = .done text ∧
      Numeral.Denotes 10 text n := by
  have hNine : (Nat.digits 10 n).length ≤ 9 := (Nat.digits_length_le_iff (by omega) n).mpr hn
  have hScale :=
    printfScale_spec hn (Nat.zero_le _) (show (Nat.digits 10 n).length < 0 + fuel by omega)
  rcases Nat.eq_zero_or_pos n with rfl | hPos
  · obtain ⟨fuel, rfl⟩ : ∃ k, fuel = k + 2 := ⟨fuel - 2, by omega⟩
    exact ⟨_, [48], hScale, rfl, Numeral.denotes_zero (by omega)⟩
  · -- the first power printed is the largest one that is not above the number
    obtain ⟨k, hk⟩ : ∃ k, (Nat.digits 10 n).length = k + 1 := by
      have hNil : Nat.digits 10 n ≠ [] := Nat.digits_ne_nil_iff_ne_zero.mpr (by omega)
      have hLength := List.length_pos_of_ne_nil hNil
      exact ⟨(Nat.digits 10 n).length - 1, by omega⟩
    have hLower : 10 ^ k ≤ n := (Nat.lt_digits_length_iff (by omega) n).mp (by omega)
    have hUpper : n < 10 ^ (k + 1) := (Nat.digits_length_le_iff (by omega) n).mp (by omega)
    have hPow : 0 < 10 ^ k := Nat.pow_pos (by omega)
    obtain ⟨rest, hRun, hValue⟩ :=
      printfDigits_spec (by omega) hUpper (show k + 1 < fuel by omega)
    rw [hk] at hScale
    have hFirst : (((10 ^ (k + 1) : Nat) : Int)).tdiv 10 = (10 ^ k : Nat) := by
      show ((10 ^ (k + 1) / 10 : Nat) : Int) = _
      rw [ten_pow_div]
    refine ⟨_, Numeral.digitChar (n / 10 ^ k) :: rest, hScale, ?_, ?_, ?_, ?_⟩
    · rw [hFirst, if_neg (by omega)]
      exact hRun
    · simp
    · intro hHead
      have hZero : Numeral.digitChar (n / 10 ^ k) = 48 := by simpa using hHead
      have hDigit : n / 10 ^ k < 10 := by
        rw [Nat.div_lt_iff_lt_mul hPow, Nat.mul_comm]
        exact hUpper
      rw [Numeral.digitChar_eq_zero (by omega), Nat.div_eq_zero_iff] at hZero
      omega
    · rw [hValue, Nat.zero_mul, Nat.zero_add]

-- ---------------------------------------------------------------------------
-- More rounds
-- ---------------------------------------------------------------------------

theorem printfScale_mono {i f f' : Int} {fuel fuel' : Nat} (hLe : fuel ≤ fuel')
    (h : printfScale i fuel f = .done f') : printfScale i fuel' f = .done f' := by
  induction fuel generalizing fuel' f with
  | zero => cases h
  | succ fuel ih =>
    obtain ⟨fuel', rfl⟩ : ∃ k, fuel' = k + 1 := ⟨fuel' - 1, by omega⟩
    rw [printfScale] at h ⊢
    split at h
    · cases h
    · rename_i hZero
      rw [if_neg hZero]
      split at h
      · rename_i hMore
        rw [if_pos hMore]
        exact ih (by omega) h
      · rename_i hEnd
        rwa [if_neg hEnd]

theorem printfDigits_mono {i f : Int} {fuel fuel' : Nat} {text : List UInt8} (hLe : fuel ≤ fuel')
    (h : printfDigits fuel i f = .done text) : printfDigits fuel' i f = .done text := by
  induction fuel generalizing fuel' i f text with
  | zero => cases h
  | succ fuel ih =>
    obtain ⟨fuel', rfl⟩ : ∃ k, fuel' = k + 1 := ⟨fuel' - 1, by omega⟩
    rw [printfDigits] at h ⊢
    split at h
    · rename_i hPos
      obtain ⟨rest, hRest, rfl⟩ := Outcome.map_eq_done.mp h
      rw [if_pos hPos]
      exact Outcome.map_eq_done.mpr ⟨rest, ih (by omega) hRest, rfl⟩
    · rename_i hEnd
      rwa [if_neg hEnd]

-- ---------------------------------------------------------------------------
-- Ten digits
-- ---------------------------------------------------------------------------

/-- The powers up to `10^k`. -/
theorem printfScale_run {n k fuel : Nat} (hk : k ≤ 9) (hn : 10 ^ 9 ≤ n) :
    printfScale n (fuel + k) 1 = printfScale n fuel (10 ^ k : Nat) := by
  induction k generalizing fuel with
  | zero => rfl
  | succ k ih =>
    have hLe : 10 ^ k ≤ n := (Nat.pow_le_pow_right (by omega) (by omega)).trans hn
    have hPow : 10 ^ (k + 1) ≤ 10 ^ 9 := Nat.pow_le_pow_right (by omega) hk
    rw [show fuel + (k + 1) = fuel + 1 + k by omega, ih (by omega), printfScale_step hLe,
      toInt32_natCast (Nat.lt_of_le_of_lt hPow (by omega))]

/-- **Overflow.** Where the first loop ends for a number of ten digits. -/
theorem printfScale_overflow {n : Nat} (fuel : Nat) (hn : 10 ^ 9 ≤ n) (hInt : n < 2 ^ 31) :
    printfScale n (fuel + 13) 1 = .done (if n < 1410065408 then 1410065408 else -727379968) := by
  have hFirst : (n : Int).tdiv (10 ^ 9 : Nat) = (n / 10 ^ 9 : Nat) := rfl
  have hSecond : (n : Int).tdiv 1410065408 = (n / 1410065408 : Nat) := rfl
  have hThird : (n : Int).tdiv 1215752192 = (n / 1215752192 : Nat) := rfl
  have hFourth : (n : Int).tdiv (-727379968) = -(n / 727379968 : Nat) := Int.tdiv_neg n 727379968
  rw [show fuel + 13 = fuel + 4 + 9 by rfl, printfScale_run (Nat.le_refl 9) hn, printfScale,
    if_neg (by decide), if_pos (by omega),
    show toInt32 ((10 ^ 9 : Nat) * 10) = 1410065408 by decide, printfScale, if_neg (by decide)]
  by_cases hSmall : n < 1410065408
  · rw [if_neg (by omega), if_pos hSmall]
  · rw [if_pos (by omega), if_neg hSmall, show toInt32 (1410065408 * 10) = 1215752192 by decide,
      printfScale, if_neg (by decide), if_pos (by omega),
      show toInt32 (1215752192 * 10) = -727379968 by decide, printfScale, if_neg (by decide),
      if_neg (by omega)]

/-- The last loop prints as many characters as the power it starts with has digits. -/
theorem printfDigits_length {i : Int} {f fuel : Nat} {text : List UInt8}
    (h : printfDigits fuel i f = .done text) : text.length = (Nat.digits 10 f).length := by
  induction fuel generalizing i f text with
  | zero => cases h
  | succ fuel ih =>
    rw [printfDigits] at h
    split at h
    · obtain ⟨rest, hRest, rfl⟩ := Outcome.map_eq_done.mp h
      rw [Nat.digits_def' (by omega) (by omega), List.length_cons, List.length_cons]
      exact congrArg Nat.succ (ih hRest)
    · obtain rfl := Outcome.done.inj h
      obtain rfl : f = 0 := by omega
      rfl

/-- **Ten digits.** What is printed is no numeral of the number. -/
theorem printfDigits_not_denotes {n : Nat} {fuel : Nat} {f : Int} {text : List UInt8}
    (hn : 10 ^ 9 ≤ n) (hInt : n < 2 ^ 31) (hScale : printfScale n fuel 1 = .done f)
    (hDigits : printfDigits fuel n (if f.tdiv 10 = 0 then 1 else f.tdiv 10) = .done text) :
    ¬ Numeral.Denotes 10 text n := by
  intro hText
  have hEnd := (printfScale_mono (Nat.le_add_right fuel 13) hScale).symm.trans
    (printfScale_overflow fuel hn hInt)
  obtain rfl := Outcome.done.inj hEnd
  by_cases hSmall : n < 1410065408
  · rw [if_pos hSmall, if_neg (by decide)] at hDigits
    have hLength : text.length = (Nat.digits 10 141006540).length := printfDigits_length hDigits
    have hNine : (Nat.digits 10 141006540).length ≤ 9 := by
      rw [Nat.digits_length_le_iff (by omega)]
      omega
    have hLt := Numeral.readFrom_lt hText.value
    have hPow : 10 ^ text.length ≤ 10 ^ 9 := Nat.pow_le_pow_right (by omega) (by omega)
    omega
  · rw [if_neg hSmall, if_neg (by decide)] at hDigits
    cases fuel with
    | zero => cases hDigits
    | succ fuel =>
      rw [printfDigits, if_neg (by decide)] at hDigits
      exact hText.nonempty (Outcome.done.inj hDigits).symm

-- ---------------------------------------------------------------------------
-- All numbers
-- ---------------------------------------------------------------------------

/-- What is printed: the sign, and what the loops print. -/
theorem printfInt_eq_done {fuel : Nat} {i : Int} {text : List UInt8} :
    printfInt fuel i = .done text ↔
      ∃ f digits, printfScale (if i < 0 then toInt32 (i * -1) else i) fuel 1 = .done f ∧
        printfDigits fuel (if i < 0 then toInt32 (i * -1) else i)
          (if f.tdiv 10 = 0 then 1 else f.tdiv 10) = .done digits ∧
        text = (if i < 0 then [45] else []) ++ digits := by
  unfold printfInt
  rw [Outcome.bind_eq_done]
  simp only [Outcome.map_eq_done]
  constructor
  · rintro ⟨f, hScale, digits, hDigits, rfl⟩
    exact ⟨f, digits, hScale, hDigits, rfl⟩
  · rintro ⟨f, digits, hScale, hDigits, rfl⟩
    exact ⟨f, hScale, digits, hDigits, rfl⟩

/-- The least `int` is its own negative, and is printed as `-0`. -/
theorem printfInt_min {fuel : Nat} {text : List UInt8} (h : printfInt fuel (-2 ^ 31) = .done text) :
    text = [45, 48] := by
  match fuel with
  | 0 => cases h
  | 1 => cases h
  | fuel + 2 => exact (Outcome.done.inj h).symm

/-- More rounds do not change what is printed. -/
theorem printfInt_mono {i : Int} {fuel fuel' : Nat} {text : List UInt8} (hLe : fuel ≤ fuel')
    (h : printfInt fuel i = .done text) : printfInt fuel' i = .done text := by
  rw [printfInt_eq_done] at h ⊢
  obtain ⟨f, digits, hScale, hDigits, rfl⟩ := h
  exact ⟨f, digits, printfScale_mono hLe hScale, printfDigits_mono hLe hDigits, rfl⟩

/-- The number without its sign, for every other `int`. -/
theorem printfMagnitude_eq {i : Int} (hInt : -2 ^ 31 < i ∧ i < 2 ^ 31) :
    (if i < 0 then toInt32 (i * -1) else i) = i.natAbs := by
  split
  · rw [toInt32_eq (by omega)]
    omega
  · omega

theorem isDecimal_append {i : Int} {digits : List UInt8} :
    IsDecimal i ((if i < 0 then [45] else []) ++ digits) ↔
      Numeral.Denotes 10 digits i.natAbs := by
  unfold IsDecimal
  split
  · constructor
    · rintro ⟨digits', hEq, hDigits⟩
      obtain rfl : digits = digits' := (List.cons.inj hEq).2
      exact hDigits
    · exact fun hDigits => ⟨digits, rfl, hDigits⟩
  · exact Iff.rfl

/-- Nine digits at most. -/
theorem printfInt_of_lt {i : Int} {fuel : Nat} (hi : -10 ^ 9 < i ∧ i < 10 ^ 9)
    (hFuel : 11 ≤ fuel) :
    ∃ text, printfInt fuel i = .done text ∧ IsDecimal i text := by
  obtain ⟨f, digits, hScale, hDigits, hText⟩ :=
    printfDigits_denotes (n := i.natAbs) (by omega) hFuel
  rw [← printfMagnitude_eq (by omega)] at hScale hDigits
  exact ⟨_, printfInt_eq_done.mpr ⟨f, digits, hScale, hDigits, rfl⟩,
    isDecimal_append.mpr hText⟩

/-- The last loop ends. -/
theorem printfDigits_total {f fuel : Nat} (i : Int) (hFuel : (Nat.digits 10 f).length < fuel) :
    ∃ text, printfDigits fuel i f = .done text := by
  induction fuel generalizing i f with
  | zero => omega
  | succ fuel ih =>
    rw [printfDigits]
    rcases Nat.eq_zero_or_pos f with rfl | hPos
    · exact ⟨[], rfl⟩
    · rw [Nat.digits_def' (by omega) hPos, List.length_cons] at hFuel
      obtain ⟨rest, hRest⟩ := ih (toInt32 (i - i.tdiv f * f)) (Nat.lt_of_succ_lt_succ hFuel)
      rw [if_pos (by omega)]
      exact ⟨_, Outcome.map_eq_done.mpr ⟨rest, hRest, rfl⟩⟩

/-- **Termination.** Something is printed for every `int`. -/
theorem printfInt_total {i : Int} (hInt : -2 ^ 31 ≤ i ∧ i < 2 ^ 31) :
    ∃ text, printfInt 14 i = .done text := by
  by_cases hMin : i = -2 ^ 31
  · subst hMin
    exact ⟨[45, 48], rfl⟩
  rcases Nat.lt_or_ge i.natAbs (10 ^ 9) with hlt | hge
  · obtain ⟨text, hRun, -⟩ := printfInt_of_lt (i := i) (by omega) (show 11 ≤ 14 by omega)
    exact ⟨text, hRun⟩
  · have hScale := printfScale_overflow 1 hge (by omega)
    simp only [printfInt_eq_done, printfMagnitude_eq (show -2 ^ 31 < i ∧ i < 2 ^ 31 by omega)]
    by_cases hSmall : i.natAbs < 1410065408
    · rw [if_pos hSmall] at hScale
      have hNine : (Nat.digits 10 141006540).length < 14 :=
        Nat.lt_of_le_of_lt
          ((Nat.digits_length_le_iff (by omega) _).mpr (show 141006540 < 10 ^ 9 by omega))
          (by omega)
      obtain ⟨text, hDigits⟩ := printfDigits_total i.natAbs hNine
      exact ⟨_, _, text, hScale, hDigits, rfl⟩
    · rw [if_neg hSmall] at hScale
      exact ⟨_, _, [], hScale, rfl, rfl⟩

/-- What is printed in decimal has nine digits at most. -/
theorem lt_of_printfInt {i : Int} {fuel : Nat} {text : List UInt8}
    (hInt : -2 ^ 31 ≤ i ∧ i < 2 ^ 31) (hRun : printfInt fuel i = .done text)
    (hText : IsDecimal i text) : -10 ^ 9 < i ∧ i < 10 ^ 9 := by
  by_cases hMin : i = -2 ^ 31
  · subst hMin
    rw [printfInt_min hRun] at hText
    have hDigits : Numeral.Denotes 10 [48] (2 ^ 31) := isDecimal_append.mp hText
    exact absurd hDigits.value (by decide)
  · obtain ⟨f, digits, hScale, hDigits, rfl⟩ := printfInt_eq_done.mp hRun
    rw [printfMagnitude_eq (by omega)] at hScale hDigits
    rw [isDecimal_append] at hText
    rcases Nat.lt_or_ge i.natAbs (10 ^ 9) with hlt | hge
    · omega
    · exact absurd hText (printfDigits_not_denotes hge (by omega) hScale hDigits)

/-- **printf_int** prints exactly the numbers of nine digits at most in decimal. -/
theorem printfInt_decimal_iff {i : Int} {fuel : Nat} (hInt : -2 ^ 31 ≤ i ∧ i < 2 ^ 31)
    (hFuel : 11 ≤ fuel) :
    (∃ text, printfInt fuel i = .done text ∧ IsDecimal i text) ↔ -10 ^ 9 < i ∧ i < 10 ^ 9 :=
  ⟨fun ⟨_, hRun, hText⟩ => lt_of_printfInt hInt hRun hText,
    fun hi => printfInt_of_lt hi hFuel⟩

/-- A negative number. -/
theorem printfInt_minus_forty_two :
    ∃ text, printfInt 11 (-42) = .done text ∧ IsDecimal (-42) text :=
  (printfInt_decimal_iff (by omega) (by omega)).mpr (by omega)

/-- `10^9` is printed with nine characters. -/
theorem printfInt_ten_digits :
    printfInt 12 (10 ^ 9) = .done (ascii "709186972") ∧
    ¬ ∃ text, printfInt 12 (10 ^ 9) = .done text ∧ IsDecimal (10 ^ 9) text := by
  refine ⟨rfl, ?_⟩
  rintro ⟨text, hRun, hText⟩
  have hNine := lt_of_printfInt (by omega) hRun hText
  omega

end Hexos
