import Mathlib.Data.Nat.Digits.Lemmas

/-!
# Numerals

Texts of bytes that are read as numbers in a base of up to 36, with the digits
`0` to `9` and `a` to `z`, the most significant one first. What it means that a
text is the numeral of a number is stated by reading it, so that nothing is said
about how such a text is made.

* `Numeral.denotes_digits` — the digits of a number, made into text, denote it.
* `Numeral.readFrom_lt` — how large a number a text of a given length denotes.
-/

namespace Numeral

-- ---------------------------------------------------------------------------
-- Digits
-- ---------------------------------------------------------------------------

/-- The character of the digit `d`. -/
def digitChar (d : Nat) : UInt8 := if d > 9 then UInt8.ofNat (d - 10 + 97) else UInt8.ofNat (d + 48)

/-- What the character `c` means as a digit of base `b`. -/
def digitValue (b : Nat) (c : UInt8) : Option Nat :=
  if 48 ≤ c.toNat ∧ c.toNat ≤ 57 ∧ c.toNat - 48 < b then some (c.toNat - 48)
  else if 97 ≤ c.toNat ∧ c.toNat ≤ 122 ∧ c.toNat - 87 < b then some (c.toNat - 87)
  else none

variable {b : Nat}

theorem digitChar_toNat {d : Nat} (h : d < 36) :
    (digitChar d).toNat = if d > 9 then d + 87 else d + 48 := by
  unfold digitChar
  split
  · rw [UInt8.toNat_ofNat']
    omega
  · rw [UInt8.toNat_ofNat']
    omega

/-- A digit is read back. -/
theorem digitValue_digitChar {d : Nat} (hb : b ≤ 36) (hd : d < b) :
    digitValue b (digitChar d) = some d := by
  have hChar := digitChar_toNat (d := d) (by omega)
  unfold digitValue
  by_cases hLetter : d > 9
  · rw [if_pos hLetter] at hChar
    rw [if_neg (by omega), if_pos (by omega), hChar, Nat.add_sub_cancel]
  · rw [if_neg hLetter] at hChar
    rw [if_pos (by omega), hChar, Nat.add_sub_cancel]

theorem digitChar_eq_zero {d : Nat} (h : d < 36) : digitChar d = 48 ↔ d = 0 := by
  have hChar := digitChar_toNat h
  constructor
  · intro hZero
    rw [hZero, show (48 : UInt8).toNat = 48 from rfl] at hChar
    split at hChar <;> omega
  · rintro rfl
    rfl

theorem digitValue_lt {c : UInt8} {d : Nat} (h : digitValue b c = some d) : d < b := by
  unfold digitValue at h
  split at h
  · obtain rfl := Option.some.inj h
    omega
  · split at h
    · obtain rfl := Option.some.inj h
      omega
    · cases h

/-- Characters below `0` are no digits. -/
theorem digitValue_eq_none {c : UInt8} (h : c.toNat < 48) : digitValue b c = none := by
  unfold digitValue
  rw [if_neg (by omega), if_neg (by omega)]

-- ---------------------------------------------------------------------------
-- Texts
-- ---------------------------------------------------------------------------

/-- Read `text` in base `b`, after digits of the value `acc`. -/
def readFrom (b : Nat) : Nat → List UInt8 → Option Nat
  | acc, [] => some acc
  | acc, c :: text => (digitValue b c).bind fun d => readFrom b (acc * b + d) text

/-- `text` is a numeral of `n` in base `b`, without leading zeros. -/
structure Denotes (b : Nat) (text : List UInt8) (n : Nat) : Prop where
  nonempty : text ≠ []
  shortest : text.head? = some 48 → text = [48]
  value    : readFrom b 0 text = some n

theorem readFrom_append (text text' : List UInt8) (acc : Nat) :
    readFrom b acc (text ++ text') = (readFrom b acc text).bind fun n => readFrom b n text' := by
  induction text generalizing acc with
  | nil => rfl
  | cons c text ih =>
    rw [List.cons_append, readFrom, readFrom, Option.bind_assoc]
    congr 1
    funext d
    exact ih _

/-- **Length.** What a text denotes is bounded by the number of its characters. -/
theorem readFrom_lt {text : List UInt8} {acc n : Nat} (h : readFrom b acc text = some n) :
    n < (acc + 1) * b ^ text.length := by
  induction text generalizing acc with
  | nil =>
    obtain rfl := Option.some.inj h
    simp
  | cons c text ih =>
    rw [readFrom, Option.bind_eq_some_iff] at h
    obtain ⟨d, hDigit, hRest⟩ := h
    have hd : acc * b + d + 1 ≤ (acc + 1) * b := by
      have := digitValue_lt hDigit
      rw [Nat.succ_mul]
      omega
    calc n < (acc * b + d + 1) * b ^ text.length := ih hRest
      _ ≤ (acc + 1) * b * b ^ text.length := Nat.mul_le_mul_right _ hd
      _ = (acc + 1) * b ^ (c :: text).length := by
        rw [List.length_cons, Nat.pow_succ, Nat.mul_comm (b ^ text.length), Nat.mul_assoc]

/-- A text of digits, the least significant one first in `ds`. -/
theorem readFrom_digits (hb : b ≤ 36) {ds : List Nat} (hds : ∀ d ∈ ds, d < b) (acc : Nat) :
    readFrom b acc (ds.reverse.map digitChar) = some (acc * b ^ ds.length + Nat.ofDigits b ds) := by
  induction ds with
  | nil => simp [readFrom]
  | cons d ds ih =>
    have hd : d < b := hds d List.mem_cons_self
    have hRest := ih fun d hd => hds d (List.mem_cons_of_mem _ hd)
    rw [List.reverse_cons, List.map_append, readFrom_append, hRest, Option.bind_some]
    simp only [List.map_cons, List.map_nil, readFrom, digitValue_digitChar hb hd, Option.bind_some]
    rw [Nat.ofDigits_cons, List.length_cons, Nat.pow_succ]
    congr 1
    ring

/-- **The digits of a number.** Made into text they denote it. -/
theorem denotes_digits (h2 : 2 ≤ b) (hb : b ≤ 36) {n : Nat} (hn : 0 < n) :
    Denotes b ((Nat.digits b n).reverse.map digitChar) n := by
  have hNil : Nat.digits b n ≠ [] := Nat.digits_ne_nil_iff_ne_zero.mpr (by omega)
  refine ⟨?_, ?_, ?_⟩
  · simpa using hNil
  · intro hHead
    rw [List.head?_map, List.head?_reverse, List.getLast?_eq_getLast_of_ne_nil hNil] at hHead
    have hLast := Nat.getLast_digit_ne_zero b (by omega : n ≠ 0)
    have hLt : (Nat.digits b n).getLast hNil < b :=
      Nat.digits_lt_base (by omega) (List.getLast_mem hNil)
    exact absurd ((digitChar_eq_zero (by omega)).mp (Option.some.inj hHead)) hLast
  · rw [readFrom_digits hb fun d hd => Nat.digits_lt_base (by omega) hd, Nat.ofDigits_digits,
      Nat.zero_mul, Nat.zero_add]

theorem denotes_zero (h2 : 2 ≤ b) : Denotes b [48] 0 := by
  refine ⟨by simp, fun _ => rfl, ?_⟩
  show (digitValue b 48).bind _ = _
  rw [show digitValue b 48 = some 0 from if_pos ⟨by decide, by decide, by
    show (48 : UInt8).toNat - 48 < b
    rw [show (48 : UInt8).toNat = 48 from rfl]
    omega⟩]
  simp [readFrom]

/-- A text that does not start with a digit is no numeral. -/
theorem not_denotes_cons {c : UInt8} {text : List UInt8} {n : Nat} (h : c.toNat < 48) :
    ¬ Denotes b (c :: text) n := by
  intro hText
  have hValue := hText.value
  rw [readFrom, digitValue_eq_none h, Option.bind_none] at hValue
  cases hValue

end Numeral
