import Hexos.Io.Pci
import Hexos.Libc.Itoa

/-!
# HexOS — the bounds of the PCI table

`pci_check_all_buses` once more, for any number of functions that answer. The
array has 32 entries and the text of their number three bytes, and neither is
checked: the 33rd function that answers is written behind the array.

## Results

* `pciCheckAllBuses_counts` — a run that stays within the array has found all that
  answers, in 32 entries at most.
* `pci_bounds_iff` — when the writes stay within both.
-/

namespace Hexos

/-- The end of `pci_check_all_buses`: the number of entries as text in `buf`. -/
def pciCountText (fuel : Nat) (s : PciScan) (buf : Nat) (m : Mem) : Outcome StoreLog :=
  itoa fuel s.i buf 10 ⟨m, []⟩

/-- What answers is found by the time the loops end. -/
theorem PciScan.Scanned.card_le {config : PciConfig} {old : Nat → PciDevice} {s : PciScan}
    (h : s.Scanned config old (256 * 256)) : (Finset.univ.filter config.Answers).card ≤ s.i := by
  obtain ⟨found, -, hMem, hHolds⟩ := h
  rw [hHolds.count]
  refine (card_filter_le ?_).trans (List.toFinset_card_le found)
  intro f hf
  rw [List.mem_toFinset, hMem]
  exact ⟨hf, f.number_lt⟩

/-- One round that does not leave the array. -/
theorem PciScan.Scanned.next {config : PciConfig} {old : Nat → PciDevice} {s s' : PciScan}
    {f : PciFunction} (h : s.Scanned config old f.number)
    (hRound : checkFunction config (BitVec.ofNat 32 f.bus) (BitVec.ofNat 32 f.slot)
      (BitVec.ofNat 32 f.func) s = some s')
    (hRoom : s.i ≤ 32) : s'.Scanned config old (f.number + 1) ∧ s'.i ≤ 32 := by
  rw [checkFunction_round] at hRound
  by_cases hAnswers : config.Answers f
  · rw [if_pos hAnswers] at hRound
    split at hRound
    · obtain rfl := Option.some.inj hRound
      exact ⟨h.push hAnswers, by assumption⟩
    · cases hRound
  · rw [if_neg hAnswers] at hRound
    obtain rfl := Option.some.inj hRound
    exact ⟨h.skip hAnswers, hRoom⟩

/-- **A run within the array.** The invariant of the three loops is carried from one
to the next by the number of the round. -/
theorem pciCheckAllBuses_counts {config : PciConfig} {pciDevices : Nat → PciDevice} {s : PciScan}
    (hRun : pciCheckAllBuses config pciDevices = some s) :
    s.Scanned config pciDevices (256 * 256) ∧ s.i ≤ 32 := by
  have hInit : PciScan.Scanned config pciDevices (0 * 256) ⟨pciDevices, 0⟩ :=
    ⟨[], List.Pairwise.nil, by simp, rfl, by simp, fun _ _ => rfl⟩
  refine Loop.run_eq_some (fun bus s => s.Scanned config pciDevices (bus * 256) ∧ s.i ≤ 32) hRun
    ⟨hInit, Nat.zero_le 32⟩ ?_
  intro bus s s' _ hBus hSlots hs
  have hSlotsEnd := Loop.run_eq_some
    (fun slot s => s.Scanned config pciDevices (bus * 256 + slot * 8) ∧ s.i ≤ 32) hSlots
    (by simpa using hs) ?_
  · rwa [show bus * 256 + (0 + 32) * 8 = (bus + 1) * 256 by omega] at hSlotsEnd
  intro slot s s' _ hSlot hFunctions hs
  have hFunctionsEnd := Loop.run_eq_some
    (fun function s => s.Scanned config pciDevices (bus * 256 + (slot * 8 + function)) ∧
    s.i ≤ 32)
    hFunctions hs ?_
  · rwa [show bus * 256 + (slot * 8 + (0 + 8)) =
      bus * 256 + (slot + 1) * 8 by omega] at hFunctionsEnd
  intro function s s' _ hFunction hRound hs
  have hNumber :
      PciFunction.number ⟨⟨bus, by omega⟩, ⟨slot, by omega⟩, ⟨function, by omega⟩⟩ =
    bus * 256 + (slot * 8 + function) := rfl
  rw [← hNumber] at hs
  rw [← Nat.add_assoc, ← Nat.add_assoc, Nat.add_assoc (bus * 256), ← hNumber]
  exact hs.1.next hRound hs.2

/-- The text of a number of two digits at most. -/
theorem itoaText_length_two {n : Nat} (hn : n < 100) : (itoaText n 10).length ≤ 2 := by
  rcases Nat.eq_zero_or_pos n with rfl | hPos
  · decide
  · rw [itoaText_of_pos (by omega), itoaChars, List.length_map, List.length_reverse,
      Int.natAbs_natCast, Nat.digits_length_le_iff (by omega)]
    exact hn

/-- **The bounds.** The writes of `pci_check_all_buses` stay within the array and within
the three bytes of the text exactly when no more than 32 functions answer. -/
theorem pci_bounds_iff (config : PciConfig) (pciDevices : Nat → PciDevice) (buf : Nat) (m : Mem)
    {fuel : Nat} (hFuel : 34 ≤ fuel) :
    (∃ s log, pciCheckAllBuses config pciDevices = some s ∧
      pciCountText fuel s buf m = .done log ∧
      ∀ a ∈ log.stores, buf ≤ a ∧ a < buf + 3) ↔
        (Finset.univ.filter config.Answers).card ≤ 32 := by
  constructor
  · rintro ⟨s, log, hRun, -, -⟩
    obtain ⟨hScanned, hRoom⟩ := pciCheckAllBuses_counts hRun
    exact hScanned.card_le.trans hRoom
  · intro hFew
    obtain ⟨s, hRun, hScanned⟩ := pciCheckAllBuses_scanned config pciDevices hFew
    have hCount : s.i ≤ 32 := hScanned.count_le.trans hFew
    have hLength := itoaText_length_two (n := s.i) (by omega)
    obtain ⟨log, hText, -, hWithin⟩ := itoa_spec s.i 10 buf ⟨m, []⟩ (by omega) (by omega)
      (show (itoaText s.i 10).length < fuel by omega)
    obtain ⟨new, hNew, hIn⟩ := hWithin.stores
    refine ⟨s, log, hRun, hText, ?_⟩
    intro a ha
    have hBounds := hIn a (by rwa [hNew] at ha)
    omega

/-- Two functions that answer. -/
theorem pci_bounds_two_devices :
    ∃ s log, pciCheckAllBuses sampleConfig (fun _ => ⟨0, 0, 0, 0, 0, 0, 0, 0, 0⟩) = some s ∧
      pciCountText 34 s 100 (fun _ => 0) = .done log ∧ ∀ a ∈ log.stores, 100 ≤ a ∧
      a < 100 + 3 :=
  (pci_bounds_iff sampleConfig _ 100 _ (Nat.le_refl 34)).mpr sampleConfig_few

theorem fiveDevices_answers {f : PciFunction} (h : f.bus = 0 ∧ f.slot.val < 5) :
    fiveDevices.Answers f := by
  unfold PciConfig.Answers PciConfig.word fiveDevices
  rw [if_pos h]
  decide

/-- Values that are told apart are no more than there are. -/
theorem card_le_card_filter {α β : Type} [Fintype α] [Fintype β] {P : α → Prop}
    [DecidablePred P] {g : β → α} (hInjective : Function.Injective g) (hP : ∀ b, P (g b)) :
    Fintype.card β ≤ (Finset.univ.filter P).card := by
  refine Finset.card_le_card_of_injOn g ?_ hInjective.injOn
  intro b _
  rw [Finset.mem_coe, Finset.mem_filter]
  exact ⟨Finset.mem_univ _, hP b⟩

theorem fiveDevices_card : 40 ≤ (Finset.univ.filter fiveDevices.Answers).card := by
  have hCard : Fintype.card (Fin 5 × Fin 8) = 40 := by simp
  rw [← hCard]
  refine card_le_card_filter (g := fun p => ⟨0, ⟨p.1, by omega⟩, p.2⟩) ?_ ?_
  · intro p q hEq
    simp only [PciFunction.mk.injEq, Fin.mk.injEq, true_and] at hEq
    exact Prod.ext (Fin.ext hEq.1) hEq.2
  · exact fun p => fiveDevices_answers ⟨rfl, p.1.isLt⟩

/-- Their 40 functions do not fit into the array. -/
theorem pci_bounds_five_devices :
    ¬ ∃ s log, pciCheckAllBuses fiveDevices (fun _ => ⟨0, 0, 0, 0, 0, 0, 0, 0, 0⟩) =
      some s ∧
      pciCountText 34 s 0 (fun _ => 0) = .done log ∧ ∀ a ∈ log.stores, 0 ≤ a ∧
      a < 0 + 3 := by
  rintro ⟨s, log, hRun, -, -⟩
  obtain ⟨hScanned, hRoom⟩ := pciCheckAllBuses_counts hRun
  have hMany := fiveDevices_card.trans hScanned.card_le
  omega

end Hexos
