import Hexos.Fs.Extent
import Hexos.Fs.Trace
import Hexos.Lib.Loop

/-!
# HexOS — when the walks stay in their sector

The walks over a directory and a path table advance by lengths from the disk
and stop at a zero length only. They stay in the 2048 bytes of their buffer
exactly when the chain of lengths comes to a zero below 2048, with every field
read on the way in the sector: then they also end. `iso9660_finddir` follows a
chain of its own, because it clears the byte behind every identifier it
compares.

## Results

* `readdirStays_iff`, `finddirStays_iff`, `scansStay_iff` — the walks of the three
  functions.
* `walks_stay_iff` — the three together, in terms of the sectors on the device.
-/

namespace Hexos

open Mem

-- ---------------------------------------------------------------------------
-- Offsets below 2048
-- ---------------------------------------------------------------------------

/-- The walk ends, and all offsets it read or wrote are in the sector. -/
def Stays (x : Outcome (List Nat)) : Prop := ∃ as, x = .done as ∧ ∀ a ∈ as, a < 2048

theorem not_stays_running : ¬ Stays .running := by
  rintro ⟨as, h, -⟩
  cases h

theorem stays_done {as : List Nat} : Stays (.done as) ↔ ∀ a ∈ as, a < 2048 := by
  constructor
  · rintro ⟨bs, h, hStay⟩
    obtain rfl := Outcome.done.inj h
    exact hStay
  · exact fun h => ⟨as, rfl, h⟩

/-- A walk that ends takes a round. -/
theorem exists_stays_succ (walk : Nat → Outcome (List Nat)) (hRun : walk 0 = .running)
    (h : ∃ fuel, Stays (walk fuel)) : ∃ fuel, Stays (walk (fuel + 1)) := by
  obtain ⟨fuel, hStay⟩ := h
  cases fuel with
  | zero =>
    rw [hRun] at hStay
    exact absurd hStay not_stays_running
  | succ fuel => exact ⟨fuel, hStay⟩

/-- What is accessed before the rest of a walk. -/
theorem stays_map {α : Type} (x : Outcome α) (pre : List Nat) (f : α → List Nat) :
    Stays (x.map fun a => pre ++ f a) ↔ (∀ a ∈ pre, a < 2048) ∧ Stays (x.map f) := by
  constructor
  · rintro ⟨as, h, hStay⟩
    obtain ⟨y, rfl, rfl⟩ := Outcome.map_eq_done.mp h
    exact ⟨fun a ha => hStay a (List.mem_append_left _ ha), f y, rfl,
      fun a ha => hStay a (List.mem_append_right pre ha)⟩
  · rintro ⟨hPre, as, h, hStay⟩
    obtain ⟨y, rfl, rfl⟩ := Outcome.map_eq_done.mp h
    refine ⟨pre ++ f y, rfl, ?_⟩
    intro a ha
    rcases List.mem_append.mp ha with ha | ha
    · exact hPre a ha
    · exact hStay a ha

theorem stringReads_le {w : Mem} {n o a : Nat} (h : a ∈ stringReads w n o) : a ≤ o + n := by
  induction n generalizing o with
  | zero =>
    rw [stringReads, List.mem_singleton] at h
    omega
  | succ n ih =>
    rw [stringReads] at h
    split at h
    · rcases List.mem_cons.mp h with rfl | h
      · omega
      · have := ih h
        omega
    · rw [List.mem_singleton] at h
      omega

/-- `strcmp` does not read beyond a terminator. -/
theorem strEqReads_le {w : Mem} {name : List UInt8} {o z a : Nat} (hz : w z = 0) (hoz : o ≤ z)
    (h : a ∈ strEqReads w o name) : a ≤ z := by
  induction name generalizing o with
  | nil =>
    rw [strEqReads, List.mem_singleton] at h
    omega
  | cons c cs ih =>
    rw [strEqReads] at h
    split at h
    · next hGo =>
      have hne : o ≠ z := fun hc => hGo.1 (by rw [hc, hz])
      rcases List.mem_cons.mp h with rfl | h
      · omega
      · exact ih (by omega) h
    · rw [List.mem_singleton] at h
      omega

/-- A match has read a whole name, and met no terminator on the way. -/
theorem strEq_nonzero {w : Mem} {name : List UInt8} {o : Nat} (hName : 0 ∉ name)
    (h : strEq w o name = true) {j : Nat} (hj : j < name.length) : w (o + j) ≠ 0 := by
  induction name generalizing o j with
  | nil => simp at hj
  | cons c cs ih =>
    have hc : c ≠ 0 := fun hc => hName (by simp [hc])
    rw [strEq] at h
    split at h
    · next hGo =>
      cases j with
      | zero => exact hGo.1
      | succ j =>
        rw [show o + (j + 1) = o + 1 + j by omega]
        exact ih (fun hc => hName (List.mem_cons_of_mem c hc)) h (by simpa using hj)
    · next hGo =>
      -- unequal bytes are no match
      have hEq : w o = c := by simpa using h
      exact absurd ⟨by rw [hEq]; exact hc, hEq⟩ hGo

-- ---------------------------------------------------------------------------
-- The chain of records
-- ---------------------------------------------------------------------------

/-- Where a walk over the records of a directory stands: the sector as it is by
then, the offset, and whether this is the first record. -/
structure RecordCursor where
  sector : Mem
  offset : Nat
  first  : Bool

namespace RecordCursor

/-- The zero length that ends a walk. -/
def AtEnd (c : RecordCursor) : Prop := c.sector c.offset = 0

instance (c : RecordCursor) : Decidable c.AtEnd := inferInstanceAs (Decidable (_ = _))

/-- The record is compared or numbered. -/
def Shown (c : RecordCursor) : Prop := c.first = false ∧ c.sector (c.offset + 33) ≠ 1

instance (c : RecordCursor) : Decidable c.Shown := inferInstanceAs (Decidable (_ ∧ _))

/-- The byte behind the identifier. -/
def identEnd (c : RecordCursor) : Nat := c.offset + 33 + (c.sector (c.offset + 32)).toNat

/-- The next record. With `mark`, the byte behind the identifier of a record that
is shown is cleared. -/
def next (mark : Bool) (c : RecordCursor) : RecordCursor :=
  if c.AtEnd then { c with first := false }
  else
    { sector := if mark = true ∧ c.Shown then c.sector.store8 c.identEnd 0 else c.sector
      offset := c.offset + (c.sector c.offset).toNat
      first := false }

/-- What is read of a record is in the sector: the first byte of its identifier,
unless it is the first record, and the byte behind, if it is shown. -/
def FieldsInSector (c : RecordCursor) : Prop :=
  ¬ c.AtEnd → c.first = false → c.offset + 33 < 2048 ∧ (c.Shown → c.identEnd < 2048)

variable {mark : Bool} {c : RecordCursor}

theorem next_end (h : c.AtEnd) : c.next mark = { c with first := false } := if_pos h

theorem next_offset : (c.next mark).offset = c.offset + (c.sector c.offset).toNat := by
  unfold next
  split
  · next h =>
    rw [show c.sector c.offset = 0 from h]
    rfl
  · rfl

theorem next_first : (c.next mark).first = false := by
  unfold next
  split <;> rfl

theorem next_plain (h : ¬ c.AtEnd) (hPlain : ¬ (mark = true ∧ c.Shown)) :
    c.next mark = ⟨c.sector, c.offset + (c.sector c.offset).toNat, false⟩ := by
  unfold next
  rw [if_neg h, if_neg hPlain]

theorem next_marked (h : ¬ c.AtEnd) (hShown : c.Shown) :
    c.next true =
      ⟨c.sector.store8 c.identEnd 0, c.offset + (c.sector c.offset).toNat, false⟩ := by
  unfold next
  rw [if_neg h, if_pos ⟨rfl, hShown⟩]

/-- A length is 1 at least. -/
theorem next_lt (mark : Bool) (h : ¬ c.AtEnd) : c.offset < (c.next mark).offset := by
  have hPos : (c.sector c.offset).toNat ≠ 0 := fun hc => h (UInt8.toNat_inj.mp hc)
  rw [next_offset]
  omega

end RecordCursor

/-- The record with the number `k` of a sector, as a walk meets it. -/
def record (mark : Bool) (sec : Mem) (k : Nat) : RecordCursor :=
  (RecordCursor.next mark)^[k] ⟨sec, 0, true⟩

/-- The records of a sector come to a zero length in the sector, and what is read
of each is in the sector. -/
structure RecordsEnd (mark : Bool) (sec : Mem) : Prop where
  ends   : ∃ n, (record mark sec n).AtEnd ∧ (record mark sec n).offset < 2048
  fields : ∀ k, (record mark sec k).FieldsInSector

section Chain

variable {mark : Bool} {sec : Mem} {k : Nat}

theorem record_succ : record mark sec (k + 1) = (record mark sec k).next mark :=
  Function.iterate_succ_apply' _ _ _

theorem record_mono {j : Nat} (h : j ≤ k) :
    (record mark sec j).offset ≤ (record mark sec k).offset :=
  Walk.pos_mono (RecordCursor.next mark) RecordCursor.offset
    (fun c => by rw [RecordCursor.next_offset]; omega) _ h

/-- From the end on nothing changes. -/
theorem record_end {j : Nat} (h : (record mark sec j).AtEnd) (hjk : j ≤ k) :
    (record mark sec k).AtEnd ∧ (record mark sec k).offset = (record mark sec j).offset := by
  refine Walk.stop_stays (RecordCursor.next mark) RecordCursor.offset RecordCursor.AtEnd ?_ h hjk
  intro c hc
  rw [RecordCursor.next_end hc]
  exact ⟨hc, rfl⟩

/-- A chain below 2048 comes to an end. -/
theorem RecordsEnd.of_bound (h : ∀ k, (record mark sec k).offset < 2048)
    (hFields : ∀ k, (record mark sec k).FieldsInSector) : RecordsEnd mark sec := by
  obtain ⟨n, -, hEnd⟩ :=
    Walk.exists_stop (RecordCursor.next mark) RecordCursor.offset RecordCursor.AtEnd
    (fun c hc => RecordCursor.next_lt mark hc) 2048 ⟨sec, 0, true⟩ fun k _ => h k
  exact ⟨⟨n, hEnd, h n⟩, hFields⟩

/-- **Induction from the end.** What holds at the end of the chain, and of a record
if it holds of the next one, holds of all records. -/
theorem RecordsEnd.induction (h : RecordsEnd mark sec) {P : Nat → Prop}
    (hEnd : ∀ k, (record mark sec k).AtEnd → P k)
    (hStep : ∀ k, ¬ (record mark sec k).AtEnd → P (k + 1) → P k) (k : Nat) : P k := by
  obtain ⟨n, hLast, -⟩ := h.ends
  obtain ⟨d, hd⟩ : ∃ d, d = n - k := ⟨_, rfl⟩
  induction d generalizing k with
  | zero => exact hEnd k (record_end hLast (by omega)).1
  | succ d ih =>
    by_cases hStop : (record mark sec k).AtEnd
    · exact hEnd k hStop
    · exact hStep k hStop (ih (k + 1) (by omega))

/-- All records come before the end. -/
theorem RecordsEnd.offset_lt (h : RecordsEnd mark sec) (k : Nat) :
    (record mark sec k).offset < 2048 := by
  obtain ⟨n, hEnd, hLt⟩ := h.ends
  rcases Nat.le_total k n with hk | hk
  · exact Nat.lt_of_le_of_lt (record_mono hk) hLt
  · rw [(record_end hEnd hk).2]
    exact hLt

/-- Cursors that differ behind the sector only. -/
structure RecordCursor.Agree (c c' : RecordCursor) : Prop where
  sector : ∀ k, k < 2048 → c'.sector k = c.sector k
  offset : c'.offset = c.offset
  first  : c'.first = c.first

/-- Cursors that agree are at the end, shown and in the sector together. -/
theorem RecordCursor.Agree.reads {c c' : RecordCursor} (h : c.Agree c') (hLt : c.offset < 2048) :
    (c'.AtEnd ↔ c.AtEnd) ∧
      (c.offset + 33 < 2048 → (c'.Shown ↔ c.Shown) ∧ c'.identEnd = c.identEnd) := by
  refine ⟨?_, ?_⟩
  · unfold RecordCursor.AtEnd
    rw [h.offset, h.sector _ hLt]
  · intro hField
    unfold RecordCursor.Shown RecordCursor.identEnd
    rw [h.offset, h.first, h.sector _ hField, h.sector _ (show c.offset + 32 < 2048 by omega)]
    exact ⟨Iff.rfl, rfl⟩

theorem RecordCursor.Agree.next {c c' : RecordCursor} (h : c.Agree c') (hLt : c.offset < 2048)
    (hFields : c.FieldsInSector) : (c.next mark).Agree (c'.next mark) := by
  obtain ⟨hEnd, hReads⟩ := h.reads hLt
  by_cases hStop : c.AtEnd
  · rw [RecordCursor.next_end hStop, RecordCursor.next_end (hEnd.mpr hStop)]
    exact ⟨h.sector, h.offset, rfl⟩
  · refine ⟨?_, ?_, by rw [next_first, next_first]⟩
    · intro k hk
      unfold RecordCursor.next
      rw [if_neg hStop, if_neg (fun hc => hStop (hEnd.mp hc))]
      simp only
      by_cases hClear : mark = true ∧ c.Shown
      · obtain ⟨hShown, hIdent⟩ := hReads (hFields hStop hClear.2.1).1
        rw [if_pos hClear, if_pos ⟨hClear.1, hShown.mpr hClear.2⟩, hIdent]
        unfold store8
        rw [h.sector k hk]
      · have hClear' : ¬ (mark = true ∧ c'.Shown) := by
          rintro ⟨hMark, hShown⟩
          have hFirst : c.first = false := by
            rw [← h.first]
            exact hShown.1
          exact hClear ⟨hMark, (hReads (hFields hStop hFirst).1).1.mp hShown⟩
        rw [if_neg hClear, if_neg hClear']
        exact h.sector k hk
    · rw [next_offset, next_offset, h.offset, h.sector _ hLt]

/-- Only the bytes of the sector matter. -/
theorem RecordsEnd.congr {w : Mem} (h : RecordsEnd mark sec)
    (hSame : ∀ k, k < 2048 → w k = sec k) :
    RecordsEnd mark w := by
  have hAgree : ∀ k, (record mark sec k).Agree (record mark w k) := by
    intro k
    induction k with
    | zero => exact ⟨hSame, rfl, rfl⟩
    | succ k ih =>
      rw [record_succ, record_succ]
      exact ih.next (h.offset_lt k) (h.fields k)
  refine ⟨?_, ?_⟩
  · obtain ⟨n, hEnd, hLt⟩ := h.ends
    exact ⟨n, ((hAgree n).reads hLt).1.mpr hEnd, by rw [(hAgree n).offset]; exact hLt⟩
  · intro k hStop hFirst
    obtain ⟨hEnd, hReads⟩ := (hAgree k).reads (h.offset_lt k)
    obtain ⟨hField, hIdent⟩ :=
      h.fields k (fun hc => hStop (hEnd.mpr hc)) (by rw [← (hAgree k).first]; exact hFirst)
    obtain ⟨hShown, hEq⟩ := hReads hField
    rw [(hAgree k).offset, hShown, hEq]
    exact ⟨hField, hIdent⟩

end Chain

-- ---------------------------------------------------------------------------
-- iso9660_readdir
-- ---------------------------------------------------------------------------

/-- What `iso9660_readdir` reads and writes from the record `c` on. -/
def readdirAccesses (i fuel : Nat) (c : RecordCursor) (count : Nat) : Outcome (List Nat) :=
  (readdirWalk c.sector i fuel c.offset c.first count).map fun (_, as) => as

/-- `iso9660_readdir` stays in the buffer `w`, whatever the number it is given. -/
def ReaddirStays (w : Mem) : Prop :=
  ∀ i, i < 2 ^ 32 → ∃ fuel, Stays (readdirAccesses i fuel ⟨w, 0, true⟩ 0)

theorem nameAccesses_lt {c : RecordCursor} :
    (∀ a ∈ nameAccesses c.sector c.offset, a < 2048) ↔ c.identEnd < 2048 := by
  unfold nameAccesses RecordCursor.identEnd
  constructor
  · exact fun h => h _ (by simp)
  · intro h a ha
    simp only [List.mem_cons] at ha
    rcases ha with rfl | rfl | ha
    · omega
    · exact h
    · have := stringReads_le ha
      omega

/-- **One record** of the walk. -/
theorem readdir_stays_succ {i fuel count : Nat} {c : RecordCursor} :
    Stays (readdirAccesses i (fuel + 1) c count) ↔ c.offset < 2048 ∧ (¬ c.AtEnd →
      (c.first = false → c.offset + 33 < 2048) ∧
        (c.Shown → count = i → c.identEnd < 2048) ∧
      (¬ (c.Shown ∧ count = i) →
        Stays (readdirAccesses i fuel (c.next false) (if c.Shown then count + 1 else count)))) := by
  unfold readdirAccesses
  rw [readdirWalk]
  by_cases hEnd : c.AtEnd
  · rw [if_pos (show c.sector c.offset = 0 from hEnd), Outcome.map_done, stays_done]
    simp [hEnd]
  · rw [if_neg (show ¬ c.sector c.offset = 0 from hEnd), RecordCursor.next_plain hEnd (by simp)]
    have hRest := fun pre count' => stays_map (readdirWalk c.sector i fuel
      (c.offset + (c.sector c.offset).toNat) false count') pre fun (_, as) => as
    cases hFirst : c.first with
    | true =>
      have hShown : ¬ c.Shown := fun hc => absurd (hFirst.symm.trans hc.1) (by decide)
      rw [if_pos rfl, Outcome.map_map, if_neg hShown]
      refine (hRest [c.offset] count).trans ?_
      simp [hEnd, hShown]
    | false =>
      rw [if_neg (show ¬ false = true by decide)]
      by_cases hIdent : c.sector (c.offset + 33) ≠ 1
      · have hShown : c.Shown := ⟨hFirst, hIdent⟩
        rw [if_pos hIdent, if_pos hShown]
        by_cases hCount : count = i
        · rw [if_pos hCount, Outcome.map_done, stays_done]
          have hName := nameAccesses_lt (c := c)
          simp only [List.forall_mem_cons, hName, hEnd, hShown, hCount]
          simp
        · rw [if_neg hCount, Outcome.map_map]
          refine (hRest [c.offset, c.offset + 33] (count + 1)).trans ?_
          simp [hEnd, hShown, hCount, and_assoc]
      · have hShown : ¬ c.Shown := fun hc => hIdent hc.2
        rw [if_neg hIdent, if_neg hShown, Outcome.map_map]
        refine (hRest [c.offset, c.offset + 33] count).trans ?_
        simp [hEnd, hShown, and_assoc]

/-- The records shown before the one with the number `k`. -/
def shownBefore (w : Mem) : Nat → Nat
  | 0 => 0
  | k + 1 =>
    if ¬ (record false w k).AtEnd ∧ (record false w k).Shown then shownBefore w k + 1
    else shownBefore w k

section Readdir

variable {w : Mem} {i k : Nat}

theorem shownBefore_le (w : Mem) (k : Nat) : shownBefore w k ≤ (record false w k).offset := by
  induction k with
  | zero => exact Nat.zero_le _
  | succ k ih =>
    rw [shownBefore, record_succ]
    split
    · next h =>
      have := RecordCursor.next_lt false h.1
      omega
    · rw [RecordCursor.next_offset]
      omega

theorem shownBefore_succ : shownBefore w k ≤ shownBefore w (k + 1) ∧
    shownBefore w (k + 1) ≤ shownBefore w k + 1 := by
  rw [shownBefore]
  split <;> omega

/-- A walk that stays in the buffer comes to every record with a number up to
its own. -/
theorem readdir_reaches (h : ∃ fuel, Stays (readdirAccesses i fuel ⟨w, 0, true⟩ 0))
    (hi : shownBefore w k ≤ i) :
    ∃ fuel, Stays (readdirAccesses i (fuel + 1) (record false w k) (shownBefore w k)) := by
  induction k with
  | zero => exact exists_stays_succ (readdirAccesses i · _ _) rfl h
  | succ k ih =>
    obtain ⟨fuel, hStay⟩ := ih (Nat.le_trans shownBefore_succ.1 hi)
    obtain ⟨hLt, hRest⟩ := readdir_stays_succ.mp hStay
    rw [record_succ]
    by_cases hEnd : (record false w k).AtEnd
    · -- the walk has ended here
      rw [RecordCursor.next_end hEnd]
      exact ⟨0, readdir_stays_succ.mpr ⟨hLt, fun hc => absurd hEnd hc⟩⟩
    · have hCount : shownBefore w (k + 1) =
          if (record false w k).Shown then shownBefore w k + 1 else shownBefore w k := by
        rw [shownBefore]
        simp [hEnd]
      have hNext := (hRest hEnd).2.2 fun hc => by
        rw [hCount, if_pos hc.1] at hi
        omega
      rw [← hCount] at hNext
      exact exists_stays_succ (readdirAccesses i · _ _) rfl ⟨fuel, hNext⟩

/-- **iso9660_readdir.** -/
theorem readdirStays_iff (w : Mem) : ReaddirStays w ↔ RecordsEnd false w := by
  constructor
  · intro h
    have hBound : ∀ k, (record false w k).offset < 2048 := by
      intro k
      induction k with
      | zero => exact (show 0 < 2048 by omega)
      | succ k ih =>
        have hCount := shownBefore_le w k
        have hStep := (shownBefore_succ (w := w) (k := k)).2
        obtain ⟨fuel, hStay⟩ :=
          readdir_reaches (k := k + 1) (h (2 ^ 32 - 1) (by omega)) (by omega)
        exact (readdir_stays_succ.mp hStay).1
    refine RecordsEnd.of_bound hBound ?_
    intro k hStop hFirst
    -- the call with the number of the record itself
    have hCount := shownBefore_le w k
    have hLt := hBound k
    obtain ⟨fuel, hStay⟩ :=
      readdir_reaches (k := k) (h (shownBefore w k) (by omega)) (Nat.le_refl _)
    obtain ⟨hField, hIdent, -⟩ := (readdir_stays_succ.mp hStay).2 hStop
    exact ⟨hField hFirst, fun hShown => hIdent hShown rfl⟩
  · intro h i _
    refine h.induction (P := fun k => ∀ count, ∃ fuel,
      Stays (readdirAccesses i fuel (record false w k) count)) ?_ ?_ 0 0
    · intro k hEnd count
      exact ⟨1, readdir_stays_succ.mpr ⟨h.offset_lt k, fun hc => absurd hEnd hc⟩⟩
    · intro k hStop hNext count
      obtain ⟨fuel, hNext⟩ := hNext (if (record false w k).Shown then count + 1 else count)
      rw [record_succ] at hNext
      refine ⟨fuel + 1, readdir_stays_succ.mpr ⟨h.offset_lt k, fun _ => ⟨fun hFirst => ?_,
        fun hShown _ => ?_, fun _ => hNext⟩⟩⟩
      · exact (h.fields k hStop hFirst).1
      · exact (h.fields k hStop hShown.1).2 hShown

end Readdir

-- ---------------------------------------------------------------------------
-- iso9660_finddir
-- ---------------------------------------------------------------------------

/-- What `iso9660_finddir` reads and writes from the record `c` on. -/
def finddirAccesses (name : CString) (fuel : Nat) (c : RecordCursor) : Outcome (List Nat) :=
  (finddirWalk name fuel c.sector c.offset c.first).map fun (_, _, as) => as

/-- `iso9660_finddir` stays in the buffer `w`, whatever the name it is given. -/
def FinddirStays (w : Mem) : Prop :=
  ∀ name : CString, ∃ fuel, Stays (finddirAccesses name fuel ⟨w, 0, true⟩)

/-- The name is that of the record. -/
def RecordCursor.Matches (c : RecordCursor) (name : CString) : Prop :=
  c.Shown ∧ strEq (c.sector.store8 c.identEnd 0) (c.offset + 33) name.bytes = true

theorem nodeReads_lt {c : RecordCursor} (h : c.identEnd < 2048) {a : Nat}
    (ha : a ∈ nodeReads (c.sector.store8 c.identEnd 0) c.offset) : a < 2048 := by
  have hLen : c.sector.store8 c.identEnd 0 (c.offset + 32) = c.sector (c.offset + 32) :=
    store8_other (by unfold RecordCursor.identEnd; omega)
  unfold RecordCursor.identEnd at h
  unfold nodeReads wordReads at ha
  rw [hLen] at ha
  simp only [List.mem_append, List.mem_cons, List.not_mem_nil, or_false] at ha
  rcases ha with ((rfl | ha) | ha) | ha
  · omega
  · have := stringReads_le ha
    omega
  · omega
  · omega

/-- What is read and written to compare a name ends behind the identifier. -/
theorem compareAccesses_lt {c : RecordCursor} (name : List UInt8) :
    (∀ a ∈ c.offset :: (c.offset + 33) :: (c.offset + 32) :: c.identEnd ::
        strEqReads (c.sector.store8 c.identEnd 0) (c.offset + 33) name, a < 2048) ↔
      c.identEnd < 2048 := by
  have hBehind : c.offset + 33 ≤ c.identEnd := by
    unfold RecordCursor.identEnd
    omega
  constructor
  · exact fun h => h c.identEnd (by simp)
  · intro h a ha
    simp only [List.mem_cons] at ha
    rcases ha with rfl | rfl | rfl | rfl | ha
    · omega
    · omega
    · omega
    · exact h
    · have := strEqReads_le store8_self hBehind ha
      omega

/-- **One record** of the walk. -/
theorem finddir_stays_succ {name : CString} {fuel : Nat} {c : RecordCursor} :
    Stays (finddirAccesses name (fuel + 1) c) ↔ c.offset < 2048 ∧ (¬ c.AtEnd →
      (c.first = false → c.offset + 33 < 2048) ∧ (c.Shown → c.identEnd < 2048) ∧
      (¬ c.Matches name → Stays (finddirAccesses name fuel (c.next true)))) := by
  unfold finddirAccesses
  rw [finddirWalk]
  by_cases hEnd : c.AtEnd
  · rw [if_pos (show c.sector c.offset = 0 from hEnd), Outcome.map_done, stays_done]
    simp [hEnd]
  · rw [if_neg (show ¬ c.sector c.offset = 0 from hEnd)]
    have hRest := fun pre sector => stays_map (finddirWalk name fuel sector
      (c.offset + (c.sector c.offset).toNat) false) pre fun (_, _, as) => as
    cases hFirst : c.first with
    | true =>
      have hShown : ¬ c.Shown := fun hc => absurd (hFirst.symm.trans hc.1) (by decide)
      have hMatch : ¬ c.Matches name := fun hc => hShown hc.1
      rw [if_pos rfl, Outcome.map_map, RecordCursor.next_plain hEnd fun hc => hShown hc.2]
      refine (hRest [c.offset] c.sector).trans ?_
      simp [hEnd, hShown, hMatch]
    | false =>
      rw [if_neg (show ¬ false = true by decide)]
      by_cases hIdent : c.sector (c.offset + 33) ≠ 1
      · have hShown : c.Shown := ⟨hFirst, hIdent⟩
        have hByte := (c.sector (c.offset + 32)).toNat_lt
        rw [if_pos hIdent, if_pos (show (c.sector (c.offset + 32)).toNat ≤ 255 by omega),
          RecordCursor.next_marked hEnd hShown]
        -- the terminator is written behind the record's length
        have hLen : c.sector.store8 c.identEnd 0 c.offset = c.sector c.offset :=
          store8_other (by unfold RecordCursor.identEnd; omega)
        have hHere := compareAccesses_lt (c := c) name.bytes
        have hOffset : c.identEnd < 2048 → c.offset + 33 < 2048 := by
          unfold RecordCursor.identEnd
          omega
        rw [show c.offset + 33 + (c.sector (c.offset + 32)).toNat = c.identEnd from rfl]
        simp only [hLen]
        by_cases hEq : strEq (c.sector.store8 c.identEnd 0) (c.offset + 33) name.bytes = true
        · have hMatch : c.Matches name := ⟨hShown, hEq⟩
          rw [if_pos hEq, Outcome.map_done, stays_done]
          simp only [List.forall_mem_append, hHere]
          refine ⟨fun h =>
            ⟨by have := hOffset h.1; omega, fun _ => ⟨fun _ => hOffset h.1, fun _ => h.1,
            fun hc => absurd hMatch hc⟩⟩, ?_⟩
          intro h
          have hLt := (h.2 hEnd).2.1 hShown
          exact ⟨hLt, fun a ha => nodeReads_lt hLt ha⟩
        · have hMatch : ¬ c.Matches name := fun hc => hEq hc.2
          rw [if_neg hEq, Outcome.map_map]
          refine (hRest _ _).trans ?_
          rw [hHere]
          refine ⟨fun h =>
            ⟨by have := hOffset h.1; omega, fun _ => ⟨fun _ => hOffset h.1, fun _ => h.1,
            fun _ => h.2⟩⟩, ?_⟩
          intro h
          obtain ⟨-, hLt, hNext⟩ := h.2 hEnd
          exact ⟨hLt hShown, hNext hMatch⟩
      · have hShown : ¬ c.Shown := fun hc => hIdent hc.2
        have hMatch : ¬ c.Matches name := fun hc => hShown hc.1
        rw [if_neg hIdent, Outcome.map_map, RecordCursor.next_plain hEnd fun hc => hShown hc.2]
        refine (hRest [c.offset, c.offset + 33] c.sector).trans ?_
        simp [hEnd, hShown, hMatch, and_assoc]

/-- A name longer than every identifier. -/
def CString.long : CString :=
  ⟨List.replicate 256 0x41, fun h => absurd (List.eq_of_mem_replicate h) (by decide)⟩

/-- No record has it. -/
theorem RecordCursor.not_matches_long (c : RecordCursor) : ¬ c.Matches CString.long := by
  rintro ⟨-, hEq⟩
  have hByte := (c.sector (c.offset + 32)).toNat_lt
  refine strEq_nonzero CString.long.nonzero hEq
    (j := (c.sector (c.offset + 32)).toNat) ?_ store8_self
  rw [show CString.long.bytes.length = 256 from List.length_replicate]
  omega

/-- A walk that stays in the buffer comes to every record, with a name that none
has. -/
theorem finddir_reaches {w : Mem}
    (h : ∃ fuel, Stays (finddirAccesses CString.long fuel ⟨w, 0, true⟩))
    (k : Nat) : ∃ fuel, Stays (finddirAccesses CString.long (fuel + 1) (record true w k)) := by
  induction k with
  | zero => exact exists_stays_succ (finddirAccesses CString.long · _) rfl h
  | succ k ih =>
    obtain ⟨fuel, hStay⟩ := ih
    obtain ⟨hLt, hRest⟩ := finddir_stays_succ.mp hStay
    rw [record_succ]
    by_cases hEnd : (record true w k).AtEnd
    · rw [RecordCursor.next_end hEnd]
      exact ⟨0, finddir_stays_succ.mpr ⟨hLt, fun hc => absurd hEnd hc⟩⟩
    · have hNext := (hRest hEnd).2.2 (RecordCursor.not_matches_long _)
      exact exists_stays_succ (finddirAccesses CString.long · _) rfl ⟨fuel, hNext⟩

/-- **iso9660_finddir.** -/
theorem finddirStays_iff (w : Mem) : FinddirStays w ↔ RecordsEnd true w := by
  constructor
  · intro h
    refine RecordsEnd.of_bound ?_ ?_
    · intro k
      obtain ⟨fuel, hStay⟩ := finddir_reaches (h CString.long) k
      exact (finddir_stays_succ.mp hStay).1
    · intro k hStop hFirst
      obtain ⟨fuel, hStay⟩ := finddir_reaches (h CString.long) k
      obtain ⟨hField, hIdent, -⟩ := (finddir_stays_succ.mp hStay).2 hStop
      exact ⟨hField hFirst, hIdent⟩
  · intro h name
    refine h.induction
      (P := fun k => ∃ fuel, Stays (finddirAccesses name fuel (record true w k))) ?_ ?_
      0
    · intro k hEnd
      exact ⟨1, finddir_stays_succ.mpr ⟨h.offset_lt k, fun hc => absurd hEnd hc⟩⟩
    · intro k hStop hNext
      obtain ⟨fuel, hNext⟩ := hNext
      rw [record_succ] at hNext
      refine ⟨fuel + 1, finddir_stays_succ.mpr ⟨h.offset_lt k, fun _ => ⟨fun hFirst => ?_,
        fun hShown => ?_, fun _ => hNext⟩⟩⟩
      · exact (h.fields k hStop hFirst).1
      · exact (h.fields k hStop hShown.1).2 hShown

-- ---------------------------------------------------------------------------
-- The path table
-- ---------------------------------------------------------------------------

/-- The entry behind the one at `p`; the entry with an empty identifier is the
last. -/
def nextEntry (tab : Mem) (p : Nat) : Nat := if tab p = 0 then p else p + pathEntryLen tab p

/-- The offset of the entry with the number `k`. -/
def entryOffset (tab : Mem) (k : Nat) : Nat := (nextEntry tab)^[k] 0

/-- The entries come to an empty identifier in the sector, with the lba there in
the sector, and the number of the parent, too, if no entry before has that
lba. -/
def EntriesEnd (tab : Mem) : Prop :=
  ∃ n, tab (entryOffset tab n) = 0 ∧ entryOffset tab n + 5 < 2048 ∧
    (entryOffset tab n + 7 < 2048 ∨ ∃ k, entryOffset tab k < entryOffset tab n ∧
      tab.load32 (entryOffset tab k + 2) = tab.load32 (entryOffset tab n + 2))

/-- The scans of `iso9660_recreate` stay in the buffer `w`, whatever the lba. -/
def ScansStay (w : Mem) : Prop :=
  ∀ inode, inode < 2 ^ 32 → ∃ fuel, Stays (scanAccesses w inode fuel)

section Entries

variable {tab : Mem} {j k : Nat}

theorem entryOffset_succ : entryOffset tab (k + 1) = nextEntry tab (entryOffset tab k) :=
  Function.iterate_succ_apply' _ _ _

theorem nextEntry_end {p : Nat} (h : tab p = 0) : nextEntry tab p = p := if_pos h

/-- An entry takes eight bytes at least. -/
theorem nextEntry_le {p : Nat} (h : tab p ≠ 0) : p + 8 ≤ nextEntry tab p := by
  unfold nextEntry pathEntryLen
  rw [if_neg h]
  omega

theorem entryOffset_mono (tab : Mem) (h : j ≤ k) : entryOffset tab j ≤ entryOffset tab k := by
  refine Walk.pos_mono (nextEntry tab) id ?_ 0 h
  intro p
  unfold nextEntry
  split
  · exact Nat.le_refl p
  · exact Nat.le_add_right p _

/-- From the end on nothing changes. -/
theorem entryOffset_end (h : tab (entryOffset tab j) = 0) (hjk : j ≤ k) :
    entryOffset tab k = entryOffset tab j :=
  (Walk.stop_stays (nextEntry tab) id (fun p => tab p = 0)
    (fun p hp => by rw [nextEntry_end hp]; exact ⟨hp, rfl⟩) h hjk).2

theorem EntriesEnd.offset_lt (h : EntriesEnd tab) (k : Nat) : entryOffset tab k + 5 < 2048 := by
  obtain ⟨n, hEnd, hLt, -⟩ := h
  rcases Nat.le_total k n with hk | hk
  · have := entryOffset_mono tab hk
    omega
  · rw [entryOffset_end hEnd hk]
    exact hLt

/-- Only the bytes of the sector matter. -/
theorem EntriesEnd.congr {w : Mem} (h : EntriesEnd tab) (hSame : ∀ k, k < 2048 → w k = tab k) :
    EntriesEnd w := by
  have hBound := h.offset_lt
  have hOffset : ∀ k, entryOffset w k = entryOffset tab k := by
    intro k
    induction k with
    | zero => rfl
    | succ k ih =>
      have := hBound k
      rw [entryOffset_succ, entryOffset_succ, ih]
      unfold nextEntry pathEntryLen
      rw [hSame _ (by omega)]
  have hLba : ∀ k, w.load32 (entryOffset tab k + 2) = tab.load32 (entryOffset tab k + 2) := by
    intro k
    have := hBound k
    unfold Mem.load32
    rw [hSame _ (by omega), hSame _ (by omega), hSame _ (by omega), hSame _ (by omega)]
  obtain ⟨n, hEnd, hLt, hParent⟩ := h
  refine ⟨n, ?_, by rw [hOffset]; exact hLt, ?_⟩
  · rw [hOffset, hSame _ (by omega)]
    exact hEnd
  · rw [hOffset, hLba]
    rcases hParent with hParent | ⟨k, hk, hEq⟩
    · exact Or.inl hParent
    · exact Or.inr ⟨k, by rw [hOffset]; exact hk, by rw [hOffset, hLba]; exact hEq⟩

end Entries

/-- What is read once the first scan has ended. -/
def afterFind (w : Mem) : Option (Nat × Bool) → List Nat
  | none => []
  | some (p, isFirstEntry) =>
    [p + 6, p + 7] ++ if isFirstEntry then [] else (skipWalk w (w.load16 (p + 6) - 1) 0).2

/-- Both scans, from the entry at `p` on. -/
def scanFrom (w : Mem) (inode fuel p : Nat) (isFirstEntry : Bool) : Outcome (List Nat) :=
  (findWalk w inode fuel p isFirstEntry).map fun (r, as) => as ++ afterFind w r

theorem scanAccesses_eq (w : Mem) (inode fuel : Nat) :
    scanAccesses w inode fuel = scanFrom w inode fuel 0 true := by
  unfold scanAccesses scanFrom
  congr 1
  funext ⟨r, as⟩
  rcases r with _ | ⟨p, first⟩
  · exact (List.append_nil as).symm
  · exact List.append_assoc _ _ _

theorem wordReads_lt {p : Nat} : (∀ a ∈ wordReads (p + 2), a < 2048) ↔ p + 5 < 2048 := by
  unfold wordReads
  simp only [List.forall_mem_cons, List.not_mem_nil, false_imp_iff, implies_true, and_true]
  omega

theorem afterFind_lt {w : Mem} {p : Nat} {first : Bool} :
    (∀ a ∈ afterFind w (some (p, first)), a < 2048) ↔ p + 7 < 2048 ∧
      (first = false → ∀ a ∈ (skipWalk w (w.load16 (p + 6) - 1) 0).2, a < 2048) := by
  unfold afterFind
  rw [List.forall_mem_append]
  have hFields : (∀ a ∈ [p + 6, p + 7], a < 2048) ↔ p + 7 < 2048 := by
    simp only [List.forall_mem_cons, List.not_mem_nil, false_imp_iff, implies_true, and_true]
    omega
  rw [hFields]
  cases first <;> simp

/-- **One entry** of the first scan. -/
theorem scan_stays_succ {w : Mem} {inode fuel p : Nat} {first : Bool} :
    Stays (scanFrom w inode (fuel + 1) p first) ↔ p + 5 < 2048 ∧
      (w.load32 (p + 2) = inode → p + 7 < 2048 ∧
        (first = false → ∀ a ∈ (skipWalk w (w.load16 (p + 6) - 1) 0).2, a < 2048)) ∧
      (w.load32 (p + 2) ≠ inode → w p ≠ 0 →
        Stays (scanFrom w inode fuel (p + pathEntryLen w p) false)) := by
  unfold scanFrom
  rw [findWalk]
  by_cases hFound : w.load32 (p + 2) = inode
  · rw [if_pos hFound, Outcome.map_done, stays_done, List.forall_mem_append, wordReads_lt,
      afterFind_lt]
    simp [hFound]
  · rw [if_neg hFound]
    have hHere : (∀ a ∈ wordReads (p + 2) ++ [p], a < 2048) ↔ p + 5 < 2048 := by
      rw [List.forall_mem_append, wordReads_lt, List.forall_mem_singleton]
      omega
    by_cases hEnd : w p = 0
    · rw [if_pos hEnd, Outcome.map_done, stays_done]
      simp only [afterFind, List.append_nil]
      rw [hHere]
      simp [hFound, hEnd]
    · rw [if_neg hEnd, Outcome.map_map]
      have hRest := stays_map (findWalk w inode fuel (p + pathEntryLen w p) false)
        (wordReads (p + 2) ++ [p]) fun (r, as) => as ++ afterFind w r
      simp only [List.append_assoc, List.cons_append, List.nil_append] at hRest ⊢
      rw [hRest, hHere]
      simp [hFound, hEnd]

section Scans

variable {w : Mem} {inode j k n : Nat}

/-- A scan that stays in the buffer comes to the entry `k`, if none before it is
the last one or has the lba. -/
theorem scan_reaches (h : ∃ fuel, Stays (scanAccesses w inode fuel))
    (hOpen : ∀ j, j < k → w (entryOffset w j) ≠ 0)
    (hLba : ∀ j, j < k → w.load32 (entryOffset w j + 2) ≠ inode) :
    ∃ fuel, Stays (scanFrom w inode (fuel + 1) (entryOffset w k) (decide (k = 0))) := by
  induction k with
  | zero =>
    obtain ⟨fuel, hStay⟩ := h
    rw [scanAccesses_eq] at hStay
    exact exists_stays_succ (scanFrom w inode · 0 true) rfl ⟨fuel, hStay⟩
  | succ k ih =>
    obtain ⟨fuel, hStay⟩ := ih (fun j hj => hOpen j (by omega)) fun j hj => hLba j (by omega)
    have hNext := (scan_stays_succ.mp hStay).2.2 (hLba k (by omega)) (hOpen k (by omega))
    have hOffset : entryOffset w (k + 1) = entryOffset w k + pathEntryLen w (entryOffset w k) := by
      rw [entryOffset_succ, nextEntry, if_neg (hOpen k (by omega))]
    rw [hOffset]
    exact exists_stays_succ (scanFrom w inode · _ false) rfl ⟨fuel, hNext⟩

/-- Some lba is that of none of the first entries. -/
theorem exists_fresh_lba (f : Nat → Nat) :
    ∃ x, x < 2 ^ 32 ∧ ∀ k, k ≤ 2048 → f k ≠ x := by
  have hCard : ((Finset.range 2049).image f).card < (Finset.range 2050).card := by
    refine Nat.lt_of_le_of_lt Finset.card_image_le ?_
    rw [Finset.card_range, Finset.card_range]
    decide
  obtain ⟨x, hx, hNot⟩ := Finset.exists_mem_notMem_of_card_lt_card hCard
  refine ⟨x, Nat.lt_of_lt_of_le (Finset.mem_range.mp hx) (by omega), fun k hk hEq => hNot ?_⟩
  exact Finset.mem_image.mpr ⟨k, Finset.mem_range.mpr (by omega), hEq⟩

/-- The second scan stays in the buffer when all entries do. -/
theorem skipWalk_lt (h : ∀ k, entryOffset w k + 5 < 2048) {m a : Nat}
    (ha : a ∈ (skipWalk w m (entryOffset w k)).2) : a < 2048 := by
  have hHere := h k
  induction m generalizing k with
  | zero =>
    rw [skipWalk] at ha
    exact wordReads_lt.mpr hHere a ha
  | succ m ih =>
    rw [skipWalk] at ha
    split at ha
    · rw [List.mem_singleton] at ha
      omega
    · next hOpen =>
      have hOffset : entryOffset w (k + 1) =
          entryOffset w k + pathEntryLen w (entryOffset w k) := by
        rw [entryOffset_succ, nextEntry, if_neg hOpen]
      rw [← hOffset] at ha
      rcases List.mem_cons.mp ha with rfl | ha
      · omega
      · exact ih ha (h (k + 1))

/-- An entry before the last one comes before it. -/
theorem entryOffset_lt (hjk : j < k) (hOpen : w (entryOffset w j) ≠ 0) :
    entryOffset w j + 8 ≤ entryOffset w k := by
  have hNext := nextEntry_le hOpen
  rw [← entryOffset_succ] at hNext
  exact Nat.le_trans hNext (entryOffset_mono w hjk)

/-- The scan ends at the last entry, whose number of the parent is read only if no
entry before has the lba. -/
theorem scan_stays_last (h : EntriesEnd w) (hLast : w (entryOffset w j) = 0)
    (hLba : ∀ k, entryOffset w k < entryOffset w j → w.load32 (entryOffset w k + 2) ≠ inode)
    (first : Bool) : Stays (scanFrom w inode 1 (entryOffset w j) first) := by
  have hBound := h.offset_lt
  obtain ⟨n, hEnd, -, hParent⟩ := h
  have hSame : entryOffset w n = entryOffset w j := by
    rcases Nat.le_total j n with hjn | hjn
    · exact entryOffset_end hLast hjn
    · exact (entryOffset_end hEnd hjn).symm
  rw [hSame] at hParent
  refine scan_stays_succ.mpr ⟨hBound j, fun hFound => ⟨?_, fun _ a ha => ?_⟩,
    fun _ hOpen => absurd hLast hOpen⟩
  · rcases hParent with hParent | ⟨k, hk, hEq⟩
    · exact hParent
    · exact absurd (hEq.trans hFound) (hLba k hk)
  · exact skipWalk_lt (k := 0) hBound ha

/-- A scan from the entry `j` on stays in the buffer, if no entry before has the
lba. -/
theorem scan_stays_from (h : EntriesEnd w) (hLba : ∀ k, entryOffset w k < entryOffset w j →
    w.load32 (entryOffset w k + 2) ≠ inode) (first : Bool) :
    ∃ fuel, Stays (scanFrom w inode fuel (entryOffset w j) first) := by
  have hBound := h.offset_lt
  have ⟨n, hEnd, _⟩ := h
  -- induction on the number of entries up to the last one
  obtain ⟨d, hd⟩ : ∃ d, d = n - j := ⟨_, rfl⟩
  induction d generalizing j first with
  | zero =>
    have hLast : w (entryOffset w j) = 0 := by
      rw [entryOffset_end hEnd (show n ≤ j by omega)]
      exact hEnd
    exact ⟨1, scan_stays_last h hLast hLba first⟩
  | succ d ih =>
    by_cases hOpen : w (entryOffset w j) = 0
    · exact ⟨1, scan_stays_last h hOpen hLba first⟩
    · have hOffset : entryOffset w (j + 1) =
          entryOffset w j + pathEntryLen w (entryOffset w j) := by
        rw [entryOffset_succ, nextEntry, if_neg hOpen]
      by_cases hFound : w.load32 (entryOffset w j + 2) = inode
      · refine ⟨1, scan_stays_succ.mpr ⟨hBound j, fun _ => ⟨?_, fun _ a ha => ?_⟩,
          fun hc => absurd hFound hc⟩⟩
        · have hBefore := entryOffset_lt (Nat.lt_succ_self j) hOpen
          have := hBound (j + 1)
          simp only [Nat.succ_eq_add_one] at hBefore
          omega
        · exact skipWalk_lt (k := 0) hBound ha
      · -- the entries before the next one are this one and those before it
        have hLba' : ∀ k, entryOffset w k < entryOffset w (j + 1) →
            w.load32 (entryOffset w k + 2) ≠ inode := by
          intro k hk
          have hkj : k ≤ j := by
            by_contra hc
            have := entryOffset_mono w (show j + 1 ≤ k by omega)
            omega
          rcases Nat.lt_or_eq_of_le (entryOffset_mono w hkj) with hlt | heq
          · exact hLba k hlt
          · rw [heq]
            exact hFound
        obtain ⟨fuel, hNext⟩ := ih hLba' false (by omega)
        rw [hOffset] at hNext
        exact ⟨fuel + 1,
          scan_stays_succ.mpr ⟨hBound j, fun hc => absurd hc hFound, fun _ _ => hNext⟩⟩

/-- **The scans of iso9660_recreate.** -/
theorem scansStay_iff (w : Mem) : ScansStay w ↔ EntriesEnd w := by
  constructor
  · intro h
    -- an lba that no entry has leads over all of them
    obtain ⟨x, hx, hFresh⟩ := exists_fresh_lba fun k => w.load32 (entryOffset w k + 2)
    have hBefore : ∀ k, k ≤ 2048 → (∀ j, j < k → w (entryOffset w j) ≠ 0) →
        entryOffset w k + 5 < 2048 := by
      intro k hk hOpen
      obtain ⟨fuel, hStay⟩ := scan_reaches (h x hx) hOpen fun j hj => hFresh j (by omega)
      exact (scan_stays_succ.mp hStay).1
    have hExists : ∃ n, n ≤ 2048 ∧ w (entryOffset w n) = 0 := by
      by_contra hNone
      have hOpen : ∀ k, k ≤ 2048 → w (entryOffset w k) ≠ 0 :=
        fun k hk hc => hNone ⟨k, hk, hc⟩
      refine hNone (Walk.exists_stop (nextEntry w) id (fun p => w p = 0) ?_ 2048 0 ?_)
      · intro p hp
        have := nextEntry_le hp
        simp only [id]
        omega
      · intro k hk
        have := hBefore k hk fun j hj => hOpen j (by omega)
        show entryOffset w k < 2048
        omega
    obtain ⟨m, hm, hEnd⟩ := hExists
    -- the last entry, and all before it are not
    obtain ⟨n, hLast, hOpen, hLe⟩ : ∃ n, w (entryOffset w n) = 0 ∧
        (∀ j, j < n → w (entryOffset w j) ≠ 0) ∧ n ≤ 2048 := by
      have hFind : ∃ n, w (entryOffset w n) = 0 := ⟨m, hEnd⟩
      exact ⟨Nat.find hFind, Nat.find_spec hFind, fun j hj => Nat.find_min hFind hj,
        Nat.le_trans (Nat.find_min' hFind hEnd) hm⟩
    refine ⟨n, hLast, hBefore n hLe hOpen, ?_⟩
    by_cases hTwin : ∃ k, entryOffset w k < entryOffset w n ∧
        w.load32 (entryOffset w k + 2) = w.load32 (entryOffset w n + 2)
    · exact Or.inr hTwin
    · -- the lba found there is looked for
      obtain ⟨fuel, hStay⟩ :=
        scan_reaches (h _ (load32_lt w (entryOffset w n + 2))) hOpen fun j hj hc =>
        hTwin ⟨j, by have := entryOffset_lt hj (hOpen j hj); omega, hc⟩
      exact Or.inl ((scan_stays_succ.mp hStay).2.1 rfl).1
  · intro h inode _
    obtain ⟨fuel, hStay⟩ :=
      scan_stays_from (j := 0) h (fun k hk => absurd hk (Nat.not_lt_zero _)) true
    exact ⟨fuel, by rw [scanAccesses_eq]; exact hStay⟩

end Scans

-- ---------------------------------------------------------------------------
-- What the device returns
-- ---------------------------------------------------------------------------

section Buffer

variable {m sec tab : Mem} {base : Nat} {mark : Bool}

theorem window_copyIn {k : Nat} (hk : k < 2048) : window (m.copyIn base 2048 sec) base k = sec k :=
  copyIn_in hk

/-- The buffer holds the sector; what is behind it does not matter. -/
theorem recordsEnd_buffer :
    RecordsEnd mark (window (m.copyIn base 2048 sec) base) ↔ RecordsEnd mark sec :=
  ⟨fun h => h.congr fun _ hk => (window_copyIn hk).symm,
    fun h => h.congr fun _ hk => window_copyIn hk⟩

theorem entriesEnd_buffer : EntriesEnd (window (m.copyIn base 2048 tab) base) ↔ EntriesEnd tab :=
  ⟨fun h => h.congr fun _ hk => (window_copyIn hk).symm,
    fun h => h.congr fun _ hk => window_copyIn hk⟩

end Buffer

/-- **The walks stay in their sector** exactly when the chain of lengths they
follow ends in it, with all they read on the way in it, too. The sector `sec` of
a directory and the sector `tab` of the path table are read to buffers at `base`;
what the memory holds behind them is not known. -/
theorem walks_stay_iff (m : Mem) (base : Nat) (sec tab : Mem) :
    (ReaddirStays (window (m.copyIn base 2048 sec) base) ↔ RecordsEnd false sec) ∧
      (FinddirStays (window (m.copyIn base 2048 sec) base) ↔ RecordsEnd true sec) ∧
      (ScansStay (window (m.copyIn base 2048 tab) base) ↔ EntriesEnd tab) :=
  ⟨(readdirStays_iff _).trans recordsEnd_buffer, (finddirStays_iff _).trans recordsEnd_buffer,
    (scansStay_iff _).trans entriesEnd_buffer⟩

/-- A directory whose first sector is full: the two records for itself and 30
files with identifiers of 32 characters take all 2048 bytes. -/
def fullRecords : List DirRecord :=
  ⟨34, 20, 4096, 2, [0]⟩ :: ⟨34, 20, 4096, 2, [1]⟩ :: (List.range 30).map fun i =>
    ⟨66, 100 + i, 2048, 0,
      List.replicate 28 0x46 ++
      [UInt8.ofNat (0x30 + i / 10), UInt8.ofNat (0x30 + i % 10), 0x3B, 0x31]⟩

/-- In a well-formed sector that is full no walk meets a zero length: both leave
the buffer. -/
theorem full_sector_overrun :
    SectorRecords (sectorOfRecords fullRecords) 0 fullRecords ∧ recordBytes fullRecords = 2048 ∧
      ¬ ReaddirStays
        (window (Mem.copyIn (fun _ => 0) 0x10000 2048 (sectorOfRecords fullRecords)) 0x10000) ∧
      ¬ FinddirStays
        (window (Mem.copyIn (fun _ => 0) 0x10000 2048 (sectorOfRecords fullRecords)) 0x10000) := by
  have hBehind : ∀ mark, (record mark (sectorOfRecords fullRecords) 32).offset = 2048 := by
    decide +kernel
  have hOverrun : ∀ mark, ¬ RecordsEnd mark (sectorOfRecords fullRecords) := by
    intro mark h
    have := h.offset_lt 32
    have := hBehind mark
    omega
  refine ⟨sectorRecords_packed (by decide +kernel) (by decide +kernel)
    fun k => by rw [Nat.zero_add],
    by decide +kernel, ?_, ?_⟩
  · intro h
    exact hOverrun false (recordsEnd_buffer.mp ((readdirStays_iff _).mp h))
  · intro h
    exact hOverrun true (recordsEnd_buffer.mp ((finddirStays_iff _).mp h))

end Hexos
