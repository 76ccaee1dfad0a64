import Hexos.Lib.Bits
import Mathlib.Data.List.Induction

/-!
# HexOS — the masks of the interrupt controllers

`irq_enable` and `pic_disable` of `kernel/arch/i386/isr.c`. The lines 0 to 7
are the bits of the mask of the first controller, the lines 8 to 15 those of
the second one. Both functions shift by the number of the line, also for the
second controller, where the bit is then outside of the 8-bit mask.

## Results

* `run_master`, `run_slave` — the masks after any sequence of calls.
* `irq_masks_iff` — exactly when every line is as the last call for it asked.
-/

namespace Hexos

/-- The masks that the data ports of the two controllers hold. -/
structure Pic where
  master : BitVec 8
  slave  : BitVec 8

/-- `mask&~(1<<irq)`, an `int` that is stored in a `uint8_t`. -/
def unmaskBit (mask : BitVec 8) (irq : Nat) : BitVec 8 :=
  (mask.setWidth 32 &&& ~~~(1#32 <<< irq)).setWidth 8

/-- `mask|(1<<irq)`, likewise. -/
def maskBit (mask : BitVec 8) (irq : Nat) : BitVec 8 :=
  (mask.setWidth 32 ||| 1#32 <<< irq).setWidth 8

namespace Pic

/-- `irq_enable`. For a line of the second controller the call `irq_enable(2)`
at the end unmasks the cascade line. -/
def irqEnable (s : Pic) (irq : Nat) : Pic :=
  if irq < 8 then { s with master := unmaskBit s.master irq }
  else { s with slave := unmaskBit s.slave irq, master := unmaskBit s.master 2 }

/-- `pic_disable`. -/
def picDisable (s : Pic) (irq : Nat) : Pic :=
  if irq < 8 then { s with master := maskBit s.master irq }
  else { s with slave := maskBit s.slave irq }

end Pic

/-- A call for one of the 16 lines. -/
inductive PicCall
  | irqEnable (irq : Fin 16)
  | picDisable (irq : Fin 16)

/-- The line a call names. -/
def PicCall.irq : PicCall → Fin 16
  | .irqEnable irq => irq
  | .picDisable irq => irq

namespace Pic

/-- One call. -/
def exec (s : Pic) : PicCall → Pic
  | .irqEnable irq => s.irqEnable irq
  | .picDisable irq => s.picDisable irq

/-- A sequence of calls. -/
def run (s : Pic) (calls : List PicCall) : Pic := calls.foldl exec s

/-- The line `i` is unmasked: its bit is 0. -/
def Unmasked (s : Pic) (i : Fin 16) : Prop :=
  if i.val < 8 then s.master.getLsbD i = false else s.slave.getLsbD (i - 8) = false

instance (s : Pic) (i : Fin 16) : Decidable (s.Unmasked i) := by
  unfold Unmasked
  infer_instance

end Pic

/-- The last call that names the line `i`. -/
def lastCall (calls : List PicCall) (i : Fin 16) : Option PicCall :=
  calls.reverse.find? fun c => c.irq = i

/-- What the calls ask for: the line is unmasked if the last call for it was
`irq_enable`, or if no call named it and it was unmasked before. -/
def Pic.Asked (s : Pic) (calls : List PicCall) (i : Fin 16) : Prop :=
  match lastCall calls i with
  | some (.irqEnable _) => True
  | some (.picDisable _) => False
  | none => s.Unmasked i

-- ---------------------------------------------------------------------------
-- One bit of a mask
-- ---------------------------------------------------------------------------

theorem getLsbD_unmaskBit (mask : BitVec 8) (irq : Nat) {i : Nat} (hi : i < 8) :
    (unmaskBit mask irq).getLsbD i = (mask.getLsbD i && decide (i ≠ irq)) := by
  unfold unmaskBit
  rw [BitVec.getLsbD_setWidth, BitMask.getLsbD_and_not_mask _ (show i < 32 by omega),
    BitVec.getLsbD_setWidth]
  simp [hi, show i < 32 by omega]

theorem getLsbD_maskBit (mask : BitVec 8) (irq : Nat) {i : Nat} (hi : i < 8) :
    (maskBit mask irq).getLsbD i = (mask.getLsbD i || decide (i = irq)) := by
  unfold maskBit
  rw [BitVec.getLsbD_setWidth, BitMask.getLsbD_or_mask _ (show i < 32 by omega),
    BitVec.getLsbD_setWidth]
  simp [hi, show i < 32 by omega]

/-- A bit beyond the mask is not there to be cleared. -/
theorem unmaskBit_high (mask : BitVec 8) {irq : Nat} (h : 8 ≤ irq) :
    unmaskBit mask irq = mask := by
  refine BitVec.eq_of_getLsbD_eq ?_
  intro i hi
  rw [getLsbD_unmaskBit mask irq hi]
  simp [show i ≠ irq by omega]

/-- Nor to be set. -/
theorem maskBit_high (mask : BitVec 8) {irq : Nat} (h : 8 ≤ irq) : maskBit mask irq = mask := by
  refine BitVec.eq_of_getLsbD_eq ?_
  intro i hi
  rw [getLsbD_maskBit mask irq hi]
  simp [show i ≠ irq by omega]

-- ---------------------------------------------------------------------------
-- Sequences of calls
-- ---------------------------------------------------------------------------

theorem lastCall_append (calls : List PicCall) (c : PicCall) (i : Fin 16) :
    lastCall (calls ++ [c]) i = if c.irq = i then some c else lastCall calls i := by
  unfold lastCall
  rw [List.reverse_append, List.reverse_singleton, List.singleton_append, List.find?_cons]
  by_cases h : c.irq = i <;> simp [h]

namespace Pic

variable (s : Pic) (calls : List PicCall)

theorem run_append (c : PicCall) : s.run (calls ++ [c]) = (s.run calls).exec c :=
  List.foldl_append

/-- No call changes the mask of the second controller. -/
theorem exec_slave (c : PicCall) : (s.exec c).slave = s.slave := by
  cases c with
  | irqEnable irq =>
    show (s.irqEnable irq).slave = s.slave
    unfold irqEnable
    by_cases h : irq.val < 8
    · rw [if_pos h]
    · rw [if_neg h]
      exact unmaskBit_high _ (by omega)
  | picDisable irq =>
    show (s.picDisable irq).slave = s.slave
    unfold picDisable
    by_cases h : irq.val < 8
    · rw [if_pos h]
    · rw [if_neg h]
      exact maskBit_high _ (by omega)

/-- **Run lemma**, the second controller. -/
theorem run_slave : (s.run calls).slave = s.slave := by
  induction calls using List.reverseRecOn with
  | nil => rfl
  | append_singleton calls c ih => rw [run_append, exec_slave, ih]

/-- A call changes the bit of its line in the mask of the first controller, and
that of the cascade line. -/
theorem exec_master (c : PicCall) {i : Fin 16} (hi : i.val < 8) (hCascade : i ≠ 2) :
    (s.exec c).master.getLsbD i =
      if c.irq = i then (match c with | .irqEnable _ => false | .picDisable _ => true)
      else s.master.getLsbD i := by
  have hTwo : i.val ≠ 2 := fun hc => hCascade (Fin.ext hc)
  cases c with
  | irqEnable irq =>
    show (s.irqEnable irq).master.getLsbD i = if irq = i then false else s.master.getLsbD i
    unfold irqEnable
    by_cases hLow : irq.val < 8
    · rw [if_pos hLow]
      simp only
      rw [getLsbD_unmaskBit _ _ hi]
      by_cases hEq : irq = i
      · simp [hEq]
      · have hVal : i.val ≠ irq.val := fun hc => hEq (Fin.ext hc.symm)
        simp [hEq, hVal]
    · have hEq : irq ≠ i := fun hc => hLow (hc ▸ hi)
      rw [if_neg hLow, if_neg hEq]
      simp only
      rw [getLsbD_unmaskBit _ _ hi]
      simp [hTwo]
  | picDisable irq =>
    show (s.picDisable irq).master.getLsbD i = if irq = i then true else s.master.getLsbD i
    unfold picDisable
    by_cases hLow : irq.val < 8
    · rw [if_pos hLow]
      simp only
      rw [getLsbD_maskBit _ _ hi]
      by_cases hEq : irq = i
      · simp [hEq]
      · have hVal : i.val ≠ irq.val := fun hc => hEq (Fin.ext hc.symm)
        simp [hEq, hVal]
    · have hEq : irq ≠ i := fun hc => hLow (hc ▸ hi)
      rw [if_neg hLow, if_neg hEq]

/-- **Run lemma**, the first controller: the last call for a line decides. -/
theorem run_master {i : Fin 16} (hi : i.val < 8) (hCascade : i ≠ 2) :
    (s.run calls).Unmasked i ↔ s.Asked calls i := by
  unfold Unmasked Asked
  rw [if_pos hi]
  induction calls using List.reverseRecOn with
  | nil =>
    unfold Unmasked
    rw [if_pos hi]
    rfl
  | append_singleton calls c ih =>
    rw [run_append, exec_master _ c hi hCascade, lastCall_append]
    by_cases hNames : c.irq = i
    · rw [if_pos hNames, if_pos hNames]
      cases c <;> simp
    · rw [if_neg hNames, if_neg hNames]
      exact ih

end Pic

/-- **Interrupt masks.** After a sequence of calls every line other than the
cascade line is as the calls asked, if and only if the calls asked for nothing
new about the lines of the second controller. -/
theorem irq_masks_iff (s : Pic) (calls : List PicCall) :
    (∀ i, i ≠ 2 → ((s.run calls).Unmasked i ↔ s.Asked calls i)) ↔
      ∀ i : Fin 16, 8 ≤ i.val → ∀ c, lastCall calls i = some c →
        ((∃ irq, c = .irqEnable irq) ↔ s.Unmasked i) := by
  -- the lines of the second controller stay as they are
  have hSlave : ∀ i : Fin 16, 8 ≤ i.val → ((s.run calls).Unmasked i ↔ s.Unmasked i) := by
    intro i hi
    unfold Pic.Unmasked
    rw [if_neg (by omega), if_neg (by omega), s.run_slave calls]
  have hAsked : ∀ i : Fin 16, 8 ≤ i.val → (((s.run calls).Unmasked i ↔ s.Asked calls i) ↔
      ∀ c, lastCall calls i = some c → ((∃ irq, c = .irqEnable irq) ↔ s.Unmasked i)) := by
    intro i hi
    rw [hSlave i hi]
    unfold Pic.Asked
    cases hLast : lastCall calls i with
    | none => simp
    | some c =>
      cases c with
      | irqEnable irq => simp
      | picDisable irq => simp
  constructor
  · intro h i hi
    exact (hAsked i hi).mp (h i fun hc => by rw [hc] at hi; exact absurd hi (by omega))
  · intro h i hCascade
    by_cases hi : i.val < 8
    · exact s.run_master calls hi hCascade
    · exact (hAsked i (by omega)).mpr (h i (by omega))

/-- `ata_init` calls `irq_enable(14)` with the masks that `pic_init` wrote: the line
stays masked. -/
theorem irq_enable_misses_slave :
    (⟨0xFB, 0xFF⟩ : Pic).Asked [.irqEnable 14] 14 ∧
      ¬ ((⟨0xFB, 0xFF⟩ : Pic).run [.irqEnable 14]).Unmasked 14 :=
  ⟨trivial, by decide⟩

end Hexos
