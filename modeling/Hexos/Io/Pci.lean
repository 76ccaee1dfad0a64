import Hexos.Lib.Loop
import Mathlib.Data.Fintype.Card
import Mathlib.Data.Fintype.Sigma
import Mathlib.Logic.Function.Basic
import Mathlib.Tactic.DeriveFintype

/-!
# HexOS — the enumeration of the PCI devices

`kernel/kernel/io/pci.c`: three loops over the buses, slots and functions, each
round of which reads words of the configuration space through an address port and
a data port and puts what answers into the next entry of an array of 32. The
configuration space has 64 dwords for each function; the address port selects one
of them. The messages are left out.

## Results

* `pciConfigReadWord_eq` — the packed address selects the dword, and the shift the
  half of it that the offset means.
* `checkFunction_round` — one round of the loops.
* `pci_enumeration_exact` — the array after the loops.
-/

namespace Hexos

-- ---------------------------------------------------------------------------
-- The configuration space and its ports
-- ---------------------------------------------------------------------------

/-- A place where a function of a device may answer. -/
structure PciFunction where
  bus  : Fin 256
  slot : Fin 32
  func : Fin 8
  deriving DecidableEq, Fintype

/-- The dwords of the configuration spaces. -/
abbrev PciConfig := PciFunction → Fin 64 → BitVec 32

/-- `inl(0xCFC)`, when the port `0xCF8` holds `address`: the enable bit, and the
fields of the bus, the slot, the function and the dword. -/
def PciConfig.inl (config : PciConfig) (address : BitVec 32) : BitVec 32 :=
  if address.getLsbD 31 then
    config ⟨(address.extractLsb' 16 8).toFin, (address.extractLsb' 11 5).toFin,
      (address.extractLsb' 8 3).toFin⟩ (address.extractLsb' 2 6).toFin
  else 0xFFFFFFFF#32

/-- The 16-bit word at the even offset `offset` of the configuration space of `f`. -/
def PciConfig.word (config : PciConfig) (f : PciFunction) (offset : Nat) : BitVec 16 :=
  (config f (Fin.ofNat 64 (offset / 4))).extractLsb' (8 * (offset % 4)) 16

/-- Some device answers at `f`. -/
def PciConfig.Answers (config : PciConfig) (f : PciFunction) : Prop := config.word f 0 ≠ 0xFFFF#16

instance (config : PciConfig) (f : PciFunction) : Decidable (config.Answers f) :=
  inferInstanceAs (Decidable (_ ≠ _))

-- ---------------------------------------------------------------------------
-- The functions that read it
-- ---------------------------------------------------------------------------

/-- The address that `pci_config_read_word` writes to the port `0xCF8`. -/
def pciAddress (bus slot func offset : BitVec 8) : BitVec 32 :=
  let lbus := bus.setWidth 32
  let lslot := slot.setWidth 32
  let lfunc := func.setWidth 32
  lbus <<< 16 ||| lslot <<< 11 ||| lfunc <<< 8 ||| (offset &&& 0xFC).setWidth 32 ||| 0x80000000#32

section Reads

variable (config : PciConfig)

/-- `pci_config_read_word`. -/
def pciConfigReadWord (bus slot func offset : BitVec 8) : BitVec 16 :=
  let address := pciAddress bus slot func offset
  ((config.inl address >>> ((offset &&& 2).toNat * 8)) &&& 0xFFFF#32).setWidth 16

/-- `pci_get_vendor`. -/
def pciGetVendor (bus device function : BitVec 16) : BitVec 16 :=
  let r0 := (pciConfigReadWord config (bus.setWidth 8) (device.setWidth 8) (function.setWidth 8)
    0).setWidth 32
  r0.setWidth 16

/-- `pci_get_device`. -/
def pciGetDevice (bus device function : BitVec 16) : BitVec 16 :=
  let r0 := (pciConfigReadWord config (bus.setWidth 8) (device.setWidth 8) (function.setWidth 8)
    2).setWidth 32
  r0.setWidth 16

/-- `pci_get_class`. -/
def pciGetClass (bus device function : BitVec 16) : BitVec 16 :=
  let r0 := (pciConfigReadWord config (bus.setWidth 8) (device.setWidth 8) (function.setWidth 8)
    0xA).setWidth 32
  ((r0 &&& ~~~0x00FF#32) >>> 8).setWidth 16

/-- `pci_get_subclass`. -/
def pciGetSubclass (bus device function : BitVec 16) : BitVec 16 :=
  let r0 := (pciConfigReadWord config (bus.setWidth 8) (device.setWidth 8) (function.setWidth 8)
    0xA).setWidth 32
  (r0 &&& ~~~0xFF00#32).setWidth 16

end Reads

-- ---------------------------------------------------------------------------
-- The loops
-- ---------------------------------------------------------------------------

/-- `pci_device`; `cls` is the field `class`. -/
structure PciDevice where
  bus      : BitVec 32
  slot     : BitVec 32
  vendor   : BitVec 32
  device   : BitVec 32
  func     : BitVec 32
  cls      : BitVec 32
  subclass : BitVec 32
  base     : BitVec 32
  devCtl   : BitVec 32

/-- `pci_devices`, and the variable `i` of `pci_check_all_buses`. -/
structure PciScan where
  pciDevices : Nat → PciDevice
  i          : Nat

/-- One round of the loops of `pci_check_all_buses`. An entry behind the 32 of the
array is not there to be written. -/
def checkFunction (config : PciConfig) (bus slot function : BitVec 32) (s : PciScan) :
    Option PciScan :=
  let vendor := pciGetVendor config (bus.setWidth 16) (slot.setWidth 16) (function.setWidth 16)
  if vendor = 0xFFFF then some s
  else if s.i < 32 then
    let device := pciGetDevice config (bus.setWidth 16) (slot.setWidth 16) (function.setWidth 16)
    let cls := pciGetClass config (bus.setWidth 16) (slot.setWidth 16) (function.setWidth 16)
    let subclass :=
      pciGetSubclass config (bus.setWidth 16) (slot.setWidth 16) (function.setWidth 16)
    let entry := { s.pciDevices s.i with
      bus := bus
      slot := slot
      vendor := vendor.setWidth 32
      device := device.setWidth 32
      func := function
      cls := cls.setWidth 32
      subclass := subclass.setWidth 32 }
    some ⟨Function.update s.pciDevices s.i entry, s.i + 1⟩
  else none

/-- `pci_check_all_buses`. -/
def pciCheckAllBuses (config : PciConfig) (pciDevices : Nat → PciDevice) : Option PciScan :=
  Loop.run (fun bus => Loop.run (fun slot => Loop.run (fun function =>
    checkFunction config (BitVec.ofNat 32 bus) (BitVec.ofNat 32 slot) (BitVec.ofNat 32 function))
    8 0) 32 0) 256 0 ⟨pciDevices, 0⟩

-- ---------------------------------------------------------------------------
-- One word
-- ---------------------------------------------------------------------------

theorem or_eq_add {a b n : Nat} (ha : 2 ^ n ∣ a) (hb : b < 2 ^ n) : a ||| b = a + b := by
  obtain ⟨c, rfl⟩ := ha
  exact (Nat.two_pow_add_eq_or_of_lt hb c).symm

/-- `offset & 0xfc` is the offset of the dword. -/
theorem offset_dword : ∀ offset : BitVec 8, (offset &&& 0xFC).toNat = 4 * (offset.toNat / 4) := by
  decide

/-- `(offset & 2) * 8` selects the half of it. -/
theorem offset_half : ∀ offset : BitVec 8, offset.toNat % 2 = 0 →
    (offset &&& 2).toNat * 8 = 8 * (offset.toNat % 4) := by
  decide

/-- **The address.** Its fields do not overlap. -/
theorem pciAddress_toNat (f : PciFunction) (offset : BitVec 8) :
    (pciAddress (BitVec.ofNat 8 f.bus) (BitVec.ofNat 8 f.slot)
      (BitVec.ofNat 8 f.func) offset).toNat =
      0x80000000 + (f.bus.val * 2 ^ 16 + f.slot.val * 2 ^ 11 + f.func.val * 2 ^ 8 +
        4 * (offset.toNat / 4)) := by
  have hBus := f.bus.isLt
  have hSlot := f.slot.isLt
  have hFunc := f.func.isLt
  have hOffset := offset.isLt
  have hField : ∀ x n : Nat, x < 256 → n ≤ 16 →
      (x % 2 ^ 8 % 2 ^ 32) <<< n % 2 ^ 32 = x * 2 ^ n := by
    intro x n hx hn
    have hPow : 2 ^ n ≤ 2 ^ 16 := Nat.pow_le_pow_right (by omega) hn
    have hLe : x * 2 ^ n ≤ 255 * 2 ^ 16 := Nat.mul_le_mul (by omega) hPow
    rw [Nat.mod_eq_of_lt (a := x) (by omega), Nat.mod_eq_of_lt (a := x) (by omega),
      Nat.shiftLeft_eq, Nat.mod_eq_of_lt (by omega)]
  unfold pciAddress
  rw [BitVec.toNat_or, BitVec.toNat_or, BitVec.toNat_or, BitVec.toNat_or]
  simp only [BitVec.toNat_shiftLeft, BitVec.toNat_setWidth, BitVec.toNat_ofNat, offset_dword]
  rw [hField _ 16 (by omega) (by omega), hField _ 11 (by omega) (by omega),
    hField _ 8 (by omega) (by omega), Nat.mod_eq_of_lt (a := 4 * _) (by omega),
    Nat.mod_eq_of_lt (a := 0x80000000) (by omega)]
  -- each field lies below the ones before it
  rw [or_eq_add (n := 16) (a := f.bus.val * 2 ^ 16) (b := f.slot.val * 2 ^ 11) (by omega)
    (by omega),
    or_eq_add (n := 11) (b := f.func.val * 2 ^ 8) (by omega) (by omega),
    or_eq_add (n := 8) (b := 4 * (offset.toNat / 4)) (by omega) (by omega),
    Nat.or_comm _ 0x80000000,
    or_eq_add (n := 31) (by omega) (by omega)]

/-- The address selects the dword of the offset. -/
theorem inl_pciAddress (config : PciConfig) (f : PciFunction) (offset : BitVec 8) :
    config.inl (pciAddress (BitVec.ofNat 8 f.bus) (BitVec.ofNat 8 f.slot) (BitVec.ofNat 8 f.func)
      offset) = config f (Fin.ofNat 64 (offset.toNat / 4)) := by
  have hBus := f.bus.isLt
  have hSlot := f.slot.isLt
  have hFunc := f.func.isLt
  have hOffset := offset.isLt
  have hAddress := pciAddress_toNat f offset
  generalize pciAddress _ _ _ _ = address at hAddress ⊢
  have hEnable : address.getLsbD 31 = true := by
    rw [BitVec.getLsbD, Nat.testBit_eq_decide_div_mod_eq, hAddress]
    simp
    omega
  unfold PciConfig.inl
  rw [if_pos hEnable]
  congr 1
  · congr 1
    · ext
      simp [Nat.shiftRight_eq_div_pow, hAddress]
      omega
    · ext
      simp [Nat.shiftRight_eq_div_pow, hAddress]
      omega
    · ext
      simp [Nat.shiftRight_eq_div_pow, hAddress]
      omega
  · ext
    simp [Nat.shiftRight_eq_div_pow, hAddress]
    omega

/-- **One word.** -/
theorem pciConfigReadWord_eq (config : PciConfig) (f : PciFunction) {offset : BitVec 8}
    (hEven : offset.toNat % 2 = 0) :
    pciConfigReadWord config (BitVec.ofNat 8 f.bus) (BitVec.ofNat 8 f.slot) (BitVec.ofNat 8 f.func)
      offset = config.word f offset.toNat := by
  unfold pciConfigReadWord
  simp only
  rw [inl_pciAddress, offset_half offset hEven, PciConfig.word]
  refine BitVec.eq_of_toNat_eq ?_
  rw [BitVec.toNat_setWidth, BitVec.toNat_and, BitVec.toNat_ushiftRight, BitVec.extractLsb'_toNat,
    show (0xFFFF#32).toNat = 2 ^ 16 - 1 from rfl, Nat.and_two_pow_sub_one_eq_mod, Nat.mod_mod]

-- ---------------------------------------------------------------------------
-- One round
-- ---------------------------------------------------------------------------

/-- The entry of the array for `f`; the fields `base` and `dev_ctl` keep their
values. -/
def PciConfig.entry (config : PciConfig) (f : PciFunction) (old : PciDevice) : PciDevice :=
  { old with
    bus := BitVec.ofNat 32 f.bus
    slot := BitVec.ofNat 32 f.slot
    func := BitVec.ofNat 32 f.func
    vendor := (config.word f 0).setWidth 32
    device := (config.word f 2).setWidth 32
    cls := ((config.word f 0xA).extractLsb' 8 8).setWidth 32
    subclass := ((config.word f 0xA).extractLsb' 0 8).setWidth 32 }

/-- The casts of a loop variable on the way to `pci_config_read_word`. -/
theorem narrow_eq (n : Nat) : ((BitVec.ofNat 32 n).setWidth 16).setWidth 8 = BitVec.ofNat 8 n := by
  refine BitVec.eq_of_toNat_eq ?_
  simp only [BitVec.toNat_setWidth, BitVec.toNat_ofNat]
  omega

theorem class_eq (w : BitVec 16) :
    (((w.setWidth 32 &&& ~~~0x00FF#32) >>> 8).setWidth 16).setWidth 32 =
      (w.extractLsb' 8 8).setWidth 32 := by
  have hMask : ∀ k : Fin 32, (0x00FF#32).getLsbD k = decide (k.val < 8) := by decide
  ext i hi
  by_cases hIn : 8 + i < 32
  · simp only [BitVec.getElem_setWidth, BitVec.getLsbD_setWidth, BitVec.getLsbD_ushiftRight,
      BitVec.getLsbD_and, BitVec.getLsbD_not, BitVec.getLsbD_extractLsb', hMask ⟨8 + i, hIn⟩]
    grind
  · simp
    grind

theorem subclass_eq (w : BitVec 16) :
    ((w.setWidth 32 &&& ~~~0xFF00#32).setWidth 16).setWidth 32 =
      (w.extractLsb' 0 8).setWidth 32 := by
  have hMask : ∀ k : Fin 32,
      (0xFF00#32).getLsbD k = decide (8 ≤ k.val ∧ k.val < 16) := by decide
  ext i hi
  simp only [BitVec.getElem_setWidth, BitVec.getLsbD_setWidth, BitVec.getLsbD_and,
    BitVec.getLsbD_not, BitVec.getLsbD_extractLsb', hMask ⟨i, hi⟩]
  grind

/-- **One round.** What answers gets the next entry. -/
theorem checkFunction_round (config : PciConfig) (f : PciFunction) (s : PciScan) :
    checkFunction config (BitVec.ofNat 32 f.bus) (BitVec.ofNat 32 f.slot)
      (BitVec.ofNat 32 f.func) s =
      if config.Answers f then
        if s.i < 32 then
          some ⟨Function.update s.pciDevices s.i (config.entry f (s.pciDevices s.i)), s.i + 1⟩
        else none
      else some s := by
  have hRead : ∀ offset : BitVec 8, offset.toNat % 2 = 0 →
      pciConfigReadWord config (((BitVec.ofNat 32 f.bus).setWidth 16).setWidth 8)
        (((BitVec.ofNat 32 f.slot).setWidth 16).setWidth 8)
        (((BitVec.ofNat 32 f.func).setWidth 16).setWidth 8) offset =
          config.word f offset.toNat := by
    intro offset hEven
    rw [narrow_eq, narrow_eq, narrow_eq]
    exact pciConfigReadWord_eq config f hEven
  have hWord : ∀ w : BitVec 16, (w.setWidth 32).setWidth 16 = w := by
    intro w
    refine BitVec.eq_of_toNat_eq ?_
    simp only [BitVec.toNat_setWidth]
    omega
  unfold checkFunction pciGetVendor pciGetDevice pciGetClass pciGetSubclass
  simp only [hRead 0 rfl, hRead 2 rfl, hRead 0xA rfl, hWord, class_eq, subclass_eq]
  show (if config.word f 0 = 0xFFFF#16 then some s else _) = _
  by_cases hAnswers : config.Answers f
  · rw [if_pos hAnswers, if_neg hAnswers]
    rfl
  · rw [if_neg hAnswers, if_pos (not_not.mp hAnswers)]

-- ---------------------------------------------------------------------------
-- All rounds
-- ---------------------------------------------------------------------------

namespace PciFunction

/-- The lexicographic order. -/
def Before (f g : PciFunction) : Prop :=
  f.bus < g.bus ∨ f.bus = g.bus ∧ (f.slot < g.slot ∨ f.slot = g.slot ∧ f.func < g.func)

/-- The number of the round of `f`. -/
def number (f : PciFunction) : Nat := f.bus * 256 + (f.slot * 8 + f.func)

theorem before_iff {f g : PciFunction} : f.Before g ↔ f.number < g.number := by
  have := f.slot.isLt
  have := g.slot.isLt
  have := f.func.isLt
  have := g.func.isLt
  unfold Before number
  simp only [Fin.lt_def, Fin.ext_iff]
  omega

theorem number_lt (f : PciFunction) : f.number < 256 * 256 := by
  have := f.bus.isLt
  have := f.slot.isLt
  have := f.func.isLt
  unfold number
  omega

theorem number_injective {f g : PciFunction} (h : f.number = g.number) : f = g := by
  obtain ⟨bus, slot, func⟩ := f
  obtain ⟨bus', slot', func'⟩ := g
  have := slot.isLt
  have := slot'.isLt
  have := func.isLt
  have := func'.isLt
  simp only [number] at h
  rw [PciFunction.mk.injEq, Fin.ext_iff, Fin.ext_iff, Fin.ext_iff]
  omega

end PciFunction

/-- The state holds the functions `found`, and the entries behind them are as they
were. -/
structure PciScan.Holds (config : PciConfig) (old : Nat → PciDevice) (s : PciScan)
    (found : List PciFunction) : Prop where
  count   : s.i = found.length
  entries : ∀ k f, found[k]? = some f → s.pciDevices k = config.entry f (old k)
  rest    : ∀ k, found.length ≤ k → s.pciDevices k = old k

/-- The rounds before number `n` found what answers there, in order. -/
def PciScan.Scanned (config : PciConfig) (old : Nat → PciDevice) (n : Nat) (s : PciScan) : Prop :=
  ∃ found : List PciFunction, found.Pairwise PciFunction.Before ∧
    (∀ f, f ∈ found ↔ config.Answers f ∧ f.number < n) ∧ s.Holds config old found

/-- One more function. -/
theorem PciScan.Holds.push {config : PciConfig} {old : Nat → PciDevice} {s : PciScan}
    {found : List PciFunction} (h : s.Holds config old found) (f : PciFunction) :
    PciScan.Holds config old
      ⟨Function.update s.pciDevices s.i (config.entry f (s.pciDevices s.i)), s.i + 1⟩
        (found ++ [f]) := by
  obtain ⟨hCount, hEntries, hRest⟩ := h
  refine ⟨?_, ?_, ?_⟩
  · rw [List.length_append, List.length_singleton, hCount]
  · intro k g hk
    rcases Nat.lt_or_ge k found.length with hlt | hge
    · rw [List.getElem?_append_left hlt] at hk
      show Function.update _ _ _ k = _
      rw [Function.update_of_ne (by omega)]
      exact hEntries k g hk
    · obtain ⟨hLen, -⟩ := List.getElem?_eq_some_iff.mp hk
      rw [List.length_append, List.length_singleton] at hLen
      obtain rfl : k = found.length := by omega
      rw [List.getElem?_concat_length] at hk
      obtain rfl := Option.some.inj hk
      show Function.update _ _ _ _ = _
      rw [← hCount, Function.update_self, hRest s.i (by omega)]
  · intro k hk
    rw [List.length_append, List.length_singleton] at hk
    show Function.update _ _ _ k = _
    rw [Function.update_of_ne (by omega), hRest k (by omega)]

/-- A list without repetitions is no longer than the number of values it is from. -/
theorem length_le_card_filter {α : Type} [Fintype α] [DecidableEq α] {P : α → Prop}
    [DecidablePred P] {l : List α} (hNodup : l.Nodup) (hP : ∀ a ∈ l, P a) :
    l.length ≤ (Finset.univ.filter P).card := by
  rw [← List.toFinset_card_of_nodup hNodup]
  refine Finset.card_le_card ?_
  intro a ha
  rw [Finset.mem_filter]
  exact ⟨Finset.mem_univ a, hP a (List.mem_toFinset.mp ha)⟩

theorem card_filter_le {α : Type} [Fintype α] {P : α → Prop} [DecidablePred P] {s : Finset α}
    (hP : ∀ a, P a → a ∈ s) : (Finset.univ.filter P).card ≤ s.card :=
  Finset.card_le_card fun a ha => hP a (Finset.mem_filter.mp ha).2

/-- Functions in order that all answer are no more than there are. -/
theorem length_le_card {config : PciConfig} {found : List PciFunction}
    (hOrder : found.Pairwise PciFunction.Before) (hAnswers : ∀ f ∈ found, config.Answers f) :
    found.length ≤ (Finset.univ.filter config.Answers).card := by
  have hNodup : found.Nodup := hOrder.imp fun {f g} hBefore hEq => by
    rw [PciFunction.before_iff, hEq] at hBefore
    exact Nat.lt_irrefl _ hBefore
  exact length_le_card_filter hNodup hAnswers

/-- What a round finds is behind what was found before. -/
theorem PciScan.Scanned.push {config : PciConfig} {old : Nat → PciDevice} {s : PciScan}
    {f : PciFunction} (h : s.Scanned config old f.number) (hAnswers : config.Answers f) :
    PciScan.Scanned config old (f.number + 1)
      ⟨Function.update s.pciDevices s.i (config.entry f (s.pciDevices s.i)), s.i + 1⟩ := by
  obtain ⟨found, hOrder, hMem, hHolds⟩ := h
  refine ⟨found ++ [f], ?_, ?_, hHolds.push f⟩
  · rw [List.pairwise_append]
    refine ⟨hOrder, List.pairwise_singleton _ _, ?_⟩
    intro g hg g' hg'
    obtain rfl := List.mem_singleton.mp hg'
    exact PciFunction.before_iff.mpr ((hMem g).mp hg).2
  · intro g
    rw [List.mem_append, List.mem_singleton, hMem]
    constructor
    · rintro (⟨hg, hlt⟩ | rfl)
      · exact ⟨hg, by omega⟩
      · exact ⟨hAnswers, by omega⟩
    · rintro ⟨hg, hlt⟩
      rcases Nat.lt_or_ge g.number f.number with hlt' | hge
      · exact Or.inl ⟨hg, hlt'⟩
      · exact Or.inr (PciFunction.number_injective (by omega))

/-- Nothing answers. -/
theorem PciScan.Scanned.skip {config : PciConfig} {old : Nat → PciDevice} {s : PciScan}
    {f : PciFunction} (h : s.Scanned config old f.number) (hAnswers : ¬ config.Answers f) :
    s.Scanned config old (f.number + 1) := by
  obtain ⟨found, hOrder, hMem, hHolds⟩ := h
  refine ⟨found, hOrder, ?_, hHolds⟩
  intro g
  rw [hMem]
  constructor
  · exact fun ⟨hg, hlt⟩ => ⟨hg, by omega⟩
  · rintro ⟨hg, hlt⟩
    refine ⟨hg, ?_⟩
    rcases Nat.lt_or_ge g.number f.number with hlt' | hge
    · exact hlt'
    · exact absurd (PciFunction.number_injective (f := g) (g := f) (by omega) ▸ hg) hAnswers

/-- No more is found than answers. -/
theorem PciScan.Scanned.count_le {config : PciConfig} {old : Nat → PciDevice}
    {s : PciScan} {n : Nat} (h : s.Scanned config old n) :
    s.i ≤ (Finset.univ.filter config.Answers).card := by
  obtain ⟨found, hOrder, hMem, hHolds⟩ := h
  rw [hHolds.count]
  exact length_le_card hOrder fun g hg => ((hMem g).mp hg).1

/-- **Step lemma.** -/
theorem PciScan.Scanned.round {config : PciConfig} {old : Nat → PciDevice} {s : PciScan}
    (hFew : (Finset.univ.filter config.Answers).card ≤ 32) (f : PciFunction)
    (h : s.Scanned config old f.number) :
    ∃ s', checkFunction config (BitVec.ofNat 32 f.bus) (BitVec.ofNat 32 f.slot)
      (BitVec.ofNat 32 f.func) s = some s' ∧ s'.Scanned config old (f.number + 1) := by
  rw [checkFunction_round]
  by_cases hAnswers : config.Answers f
  · have hPush := h.push hAnswers
    have hRoom : s.i + 1 ≤ 32 := hPush.count_le.trans hFew
    rw [if_pos hAnswers, if_pos (by omega)]
    exact ⟨_, rfl, hPush⟩
  · rw [if_neg hAnswers]
    exact ⟨s, rfl, h.skip hAnswers⟩

/-- The two inner loops. -/
theorem PciScan.Scanned.bus {config : PciConfig} {old : Nat → PciDevice} {s : PciScan}
    (hFew : (Finset.univ.filter config.Answers).card ≤ 32) (bus : Fin 256)
    (h : s.Scanned config old (bus * 256)) :
    ∃ s',
      Loop.run (fun slot => Loop.run (fun function => checkFunction config (BitVec.ofNat 32 bus)
      (BitVec.ofNat 32 slot) (BitVec.ofNat 32 function)) 8 0) 32 0 s = some s' ∧
      s'.Scanned config old ((bus + 1) * 256) := by
  have hFirst : s.Scanned config old (bus * 256 + 0) := by rwa [Nat.add_zero]
  obtain ⟨s', hRun, hs'⟩ :=
    Loop.invariant_nested (f := fun slot function => checkFunction config
    (BitVec.ofNat 32 bus) (BitVec.ofNat 32 slot) (BitVec.ofNat 32 function))
    (fun n => PciScan.Scanned config old (bus * 256 + n)) 8 32 hFirst
    fun slot function s hSlot hFunction hs => by
      have hNumber : PciFunction.number ⟨bus, ⟨slot, hSlot⟩, ⟨function, hFunction⟩⟩ =
        bus * 256 + (slot * 8 + function) := rfl
      rw [← hNumber] at hs
      rw [← Nat.add_assoc, ← hNumber]
      exact hs.round hFew ⟨bus, ⟨slot, hSlot⟩, ⟨function, hFunction⟩⟩
  refine ⟨s', hRun, ?_⟩
  rwa [Nat.succ_mul]

/-- The three loops. -/
theorem pciCheckAllBuses_scanned (config : PciConfig) (pciDevices : Nat → PciDevice)
    (hFew : (Finset.univ.filter config.Answers).card ≤ 32) :
    ∃ s, pciCheckAllBuses config pciDevices = some s ∧
      s.Scanned config pciDevices (256 * 256) := by
  have hInit : PciScan.Scanned config pciDevices (0 * 256) ⟨pciDevices, 0⟩ :=
    ⟨[], List.Pairwise.nil, by simp, rfl, by simp, fun _ _ => rfl⟩
  exact Loop.invariant
    (f := fun bus => Loop.run (fun slot => Loop.run (fun function =>
      checkFunction config (BitVec.ofNat 32 bus) (BitVec.ofNat 32 slot) (BitVec.ofNat 32 function))
      8 0) 32 0)
    (fun bus => PciScan.Scanned config pciDevices (bus * 256)) 256 hInit
    fun bus s _ hBus hs => hs.bus hFew ⟨bus, by omega⟩

/-- **Enumeration.** Where 32 functions at most answer, the array holds exactly
those, in lexicographic order and each once, with their identification; the other
entries are as they were. -/
theorem pci_enumeration_exact (config : PciConfig) (pciDevices : Nat → PciDevice)
    (hFew : (Finset.univ.filter config.Answers).card ≤ 32) :
    ∃ (s : PciScan) (found : List PciFunction), pciCheckAllBuses config pciDevices = some s ∧
      found.Pairwise PciFunction.Before ∧ (∀ f, f ∈ found ↔ config.Answers f) ∧
      s.i = found.length ∧
      (∀ k f, found[k]? = some f → s.pciDevices k = config.entry f (pciDevices k)) ∧
      ∀ k, found.length ≤ k → s.pciDevices k = pciDevices k := by
  obtain ⟨s, hRun, found, hOrder, hMem, hHolds⟩ :=
    pciCheckAllBuses_scanned config pciDevices hFew
  refine ⟨s, found, hRun, hOrder, ?_, hHolds.count, hHolds.entries, hHolds.rest⟩
  intro f
  rw [hMem]
  have := f.number_lt
  exact ⟨fun hf => hf.1, fun hf => ⟨hf, by omega⟩⟩

/-- A configuration space with two functions that answer. -/
def sampleConfig : PciConfig := fun f reg =>
  if f = ⟨0, 0, 0⟩ then [0x12378086#32, 0, 0x06000002#32].getD reg 0
  else if f = ⟨0, 3, 0⟩ then [0x100E8086#32, 0, 0x02000003#32].getD reg 0
  else 0xFFFFFFFF#32

/-- Five devices that do not look at the number of the function. -/
def fiveDevices : PciConfig := fun f _ =>
  if f.bus = 0 ∧ f.slot.val < 5 then 0x12378086#32 else 0xFFFFFFFF#32

theorem sampleConfig_answers (f : PciFunction) :
    sampleConfig.Answers f ↔ f = ⟨0, 0, 0⟩ ∨ f = ⟨0, 3, 0⟩ := by
  unfold PciConfig.Answers PciConfig.word sampleConfig
  by_cases h0 : f = ⟨0, 0, 0⟩
  · simp [h0]
  · by_cases h3 : f = ⟨0, 3, 0⟩
    · simp [h3]
    · simp [h0, h3]

theorem sampleConfig_few : (Finset.univ.filter sampleConfig.Answers).card ≤ 32 := by
  have hMem : ∀ f, sampleConfig.Answers f →
      f ∈ ({⟨0, 0, 0⟩, ⟨0, 3, 0⟩} : Finset PciFunction) := by
    intro f hf
    simpa using (sampleConfig_answers f).mp hf
  exact (card_filter_le hMem).trans (by decide)

/-- The two functions are found, each with its entry. -/
theorem pci_enumeration_two_devices :
    ∃ (s : PciScan) (found : List PciFunction),
      pciCheckAllBuses sampleConfig (fun _ => ⟨0, 0, 0, 0, 0, 0, 0, 0, 0⟩) = some s ∧
      found.Pairwise PciFunction.Before ∧ s.i = found.length ∧
      (∀ f, f ∈ found ↔ f = ⟨0, 0, 0⟩ ∨ f = ⟨0, 3, 0⟩) ∧
      ∃ k, s.pciDevices k = ⟨0, 3, 0x8086, 0x100E, 0, 2, 0, 0, 0⟩ := by
  obtain ⟨s, found, hRun, hOrder, hMem, hCount, hEntries, -⟩ :=
    pci_enumeration_exact sampleConfig (fun _ => ⟨0, 0, 0, 0, 0, 0, 0, 0, 0⟩) sampleConfig_few
  have hFound : ∀ f, f ∈ found ↔ f = ⟨0, 0, 0⟩ ∨ f = ⟨0, 3, 0⟩ := by
    intro f
    rw [hMem, sampleConfig_answers]
  obtain ⟨k, hk⟩ := List.mem_iff_getElem?.mp ((hFound ⟨0, 3, 0⟩).mpr (Or.inr rfl))
  exact ⟨s, found, hRun, hOrder, hCount, hFound, k, hEntries k _ hk⟩

end Hexos
