import Hexos.Lib.Loop
import Mathlib.Data.Nat.Basic

/-!
# HexOS — the real-time clock

`kernel/kernel/rtc.c`. The chip has its registers behind two ports: the number of a
register is written to the one (with bit 7 set, which masks NMIs), and its contents are
read from the other. `rtc_get_time` waits for the update flag to be clear, reads the
six registers of the time and then status register B, which says what format they are
in: binary or BCD, 24 hours or 12 hours with bit 7 for PM.

The chip is a function of the number of reads so far, so its registers may change
between any two of them. Bytes are `BitVec 8`; no sum of `rtc_bcd_convert` or of the
conversion of the hours exceeds a byte.

The conversion from BCD takes the PM bit for part of the tens, and the conversion from
12 hours adds 12 to noon and leaves midnight.

## Results

* `rtcGetTime_eq` — what the function returns when the registers hold still.
* `decodeTime_encode_iff` — when that is the time they hold.
-/

namespace Hexos

/-- The contents of each register at each read of `RTC_DATA_PORT`. -/
abbrev RtcChip := Nat → BitVec 8 → BitVec 8

/-- `rtc_time`. -/
@[ext]
structure RtcTime where
  seconds : BitVec 8
  minutes : BitVec 8
  hours   : BitVec 8
  day     : BitVec 8
  month   : BitVec 8
  year    : BitVec 16
deriving DecidableEq

/-- The last byte written to `RTC_ADDRESS_PORT`, the reads of `RTC_DATA_PORT` so far,
and the interrupt flag. -/
structure RtcPorts where
  address    : BitVec 8
  reads      : Nat
  interrupts : Bool

/-- `RTC_BASE` and the numbers of the registers. -/
def rtcBase : BitVec 8 := 0x80
def rtcSeconds : BitVec 8 := rtcBase + 0
def rtcMinutes : BitVec 8 := rtcBase + 2
def rtcHours : BitVec 8 := rtcBase + 4
def rtcDay : BitVec 8 := rtcBase + 7
def rtcMonth : BitVec 8 := rtcBase + 8
def rtcYear : BitVec 8 := rtcBase + 9
def rtcStatusB : BitVec 8 := rtcBase + 11

section

variable (chip : RtcChip)

/-- `rtc_read`: the register is the address without the bit for NMIs. -/
def rtcRead (addr : BitVec 8) (s : RtcPorts) : BitVec 8 × RtcPorts :=
  (chip s.reads (addr &&& 0x7F), { s with address := addr, reads := s.reads + 1 })

/-- `rtc_update_in_progress`. -/
def rtcUpdateInProgress (s : RtcPorts) : Bool × RtcPorts :=
  let (statusA, s) := rtcRead chip 0x0A s
  (statusA &&& 0x80 ≠ 0, s)

/-- `while (rtc_update_in_progress()) {}`; `none` if it has not ended. -/
def rtcWait : Nat → RtcPorts → Option RtcPorts
  | 0, _ => none
  | fuel + 1, s =>
    match rtcUpdateInProgress chip s with
    | (true, s) => rtcWait fuel s
    | (false, s) => some s

/-- `rtc_get_time` up to the first register. -/
def rtcStart (fuel : Nat) (s : RtcPorts) : Option RtcPorts :=
  let s := { s with interrupts := false }
  (rtcWait chip fuel s).bind fun s => rtcWait chip fuel s

/-- The raw values and status register B. -/
def rtcReadRegisters (s : RtcPorts) : RtcTime × BitVec 8 × RtcPorts :=
  let (seconds, s) := rtcRead chip rtcSeconds s
  let (minutes, s) := rtcRead chip rtcMinutes s
  let (hours, s) := rtcRead chip rtcHours s
  let (month, s) := rtcRead chip rtcMonth s
  let (day, s) := rtcRead chip rtcDay s
  let (year, s) := rtcRead chip rtcYear s
  let (statusB, s) := rtcRead chip rtcStatusB s
  (⟨seconds, minutes, hours, day, month, year.setWidth 16⟩, statusB, s)

end

/-- `rtc_bcd_convert`. -/
def rtcBcdConvert (bcd : BitVec 8) : BitVec 8 :=
  ((bcd &&& 0xF0) >>> 1) + (((bcd &&& 0xF0) >>> 3) + (bcd &&& 0xF))

/-- What `rtc_get_time` makes of the raw values. -/
def decodeTime (statusB : BitVec 8) (time : RtcTime) : RtcTime :=
  let time : RtcTime :=
    if statusB &&& 0x04 = 0 then
      { seconds := rtcBcdConvert time.seconds
        minutes := rtcBcdConvert time.minutes
        hours   := rtcBcdConvert time.hours
        day     := rtcBcdConvert time.day
        month   := rtcBcdConvert time.month
        year    := (rtcBcdConvert (time.year.setWidth 8)).setWidth 16 }
    else time
  let time : RtcTime :=
    if statusB &&& 0x02 = 0 ∧ time.hours &&& 0x80 ≠ 0 then
      { time with hours := ((time.hours &&& 0x7F) + 12) % 24 }
    else time
  { time with year := time.year + 2000 }

/-- `rtc_get_time`. -/
def rtcGetTime (chip : RtcChip) (fuel : Nat) (s : RtcPorts) : Option (RtcTime × RtcPorts) :=
  (rtcStart chip fuel s).map fun s =>
    let (time, statusB, s) := rtcReadRegisters chip s
    (decodeTime statusB time, { s with interrupts := true })

-- ---------------------------------------------------------------------------
-- What the registers hold
-- ---------------------------------------------------------------------------

/-- A date and time from 2000 to 2099. -/
structure DateTime where
  year    : Nat
  month   : Nat
  day     : Nat
  hour    : Nat
  minute  : Nat
  second  : Nat
  century : 2000 ≤ year ∧ year ≤ 2099
  date    : 1 ≤ month ∧ month ≤ 12 ∧ 1 ≤ day ∧ day ≤ 31
  time    : hour < 24 ∧ minute < 60 ∧ second < 60

/-- The `rtc_time` of a date and time. -/
def DateTime.toRtcTime (t : DateTime) : RtcTime where
  seconds := BitVec.ofNat 8 t.second
  minutes := BitVec.ofNat 8 t.minute
  hours   := BitVec.ofNat 8 t.hour
  day     := BitVec.ofNat 8 t.day
  month   := BitVec.ofNat 8 t.month
  year    := BitVec.ofNat 16 t.year

/-- A number of two digits in the format of status register B: binary or BCD. -/
def encodeField (statusB : BitVec 8) (n : Nat) : BitVec 8 :=
  if statusB &&& 0x04 = 0 then BitVec.ofNat 8 (n / 10 * 16 + n % 10) else BitVec.ofNat 8 n

/-- The hour on a dial of 12 hours. -/
def dialHour (hour : Nat) : Nat := if hour % 12 = 0 then 12 else hour % 12

/-- The hour in the format of status register B. -/
def encodeHour (statusB : BitVec 8) (hour : Nat) : BitVec 8 :=
  if statusB &&& 0x02 = 0 then
    encodeField statusB (dialHour hour) ||| (if hour < 12 then 0 else 0x80)
  else encodeField statusB hour

/-- The raw values of a date and time. -/
def DateTime.encode (t : DateTime) (statusB : BitVec 8) : RtcTime where
  seconds := encodeField statusB t.second
  minutes := encodeField statusB t.minute
  hours   := encodeHour statusB t.hour
  day     := encodeField statusB t.day
  month   := encodeField statusB t.month
  year    := (encodeField statusB (t.year - 2000)).setWidth 16

/-- At the read `n` the registers hold `t` in the format of `statusB`. -/
structure RtcChip.HoldsAt (chip : RtcChip) (n : Nat) (t : DateTime) (statusB : BitVec 8) :
    Prop where
  seconds : chip n 0 = encodeField statusB t.second
  minutes : chip n 2 = encodeField statusB t.minute
  hours   : chip n 4 = encodeHour statusB t.hour
  day     : chip n 7 = encodeField statusB t.day
  month   : chip n 8 = encodeField statusB t.month
  year    : chip n 9 = encodeField statusB (t.year - 2000)
  status  : chip n 11 = statusB

/-- The registers hold `t` and do not change during the reads: the seven that come when
the waiting is over. -/
def RtcChip.Held (chip : RtcChip) (s : RtcPorts) (t : DateTime) (statusB : BitVec 8) : Prop :=
  ∀ fuel s', rtcStart chip fuel s = some s' →
    ∀ n, s'.reads ≤ n → n < s'.reads + 7 → chip.HoldsAt n t statusB

/-- No update lasts for ever. -/
def RtcChip.UpdatesEnd (chip : RtcChip) : Prop := ∀ n, ∃ k ≥ n, chip k 0x0A &&& 0x80 = 0

-- ---------------------------------------------------------------------------
-- The conversions
-- ---------------------------------------------------------------------------

/-- The BCD conversion is right for every number of two digits. -/
theorem rtcBcdConvert_bcd {n : Nat} (h : n < 100) :
    rtcBcdConvert (BitVec.ofNat 8 (n / 10 * 16 + n % 10)) = BitVec.ofNat 8 n := by
  revert n
  decide

/-- Two digits of a year. -/
theorem century_add {n : Nat} (h : n < 100) :
    (BitVec.ofNat 8 n).setWidth 16 + 2000 = BitVec.ofNat 16 (2000 + n) := by
  revert n
  decide

/-- A field as `rtc_get_time` converts it. -/
def decodeField (statusB : BitVec 8) (field : BitVec 8) : BitVec 8 :=
  if statusB &&& 0x04 = 0 then rtcBcdConvert field else field

/-- The hours as `rtc_get_time` converts them, from the field on. -/
def decodeHour (statusB : BitVec 8) (hours : BitVec 8) : BitVec 8 :=
  if statusB &&& 0x02 = 0 ∧ hours &&& 0x80 ≠ 0 then ((hours &&& 0x7F) + 12) % 24 else hours

/-- **One field at a time.** -/
theorem decodeTime_eq (statusB : BitVec 8) (time : RtcTime) :
    decodeTime statusB time =
      { seconds := decodeField statusB time.seconds
        minutes := decodeField statusB time.minutes
        hours   := decodeHour statusB (decodeField statusB time.hours)
        day     := decodeField statusB time.day
        month   := decodeField statusB time.month
        year    := (if statusB &&& 0x04 = 0 then (rtcBcdConvert (time.year.setWidth 8)).setWidth 16
          else time.year) + 2000 } := by
  unfold decodeTime decodeHour decodeField
  by_cases hBcd : statusB &&& 0x04 = 0
  · simp only [hBcd, if_true]
    split
    · rfl
    · rfl
  · simp only [hBcd, if_false]
    split
    · rfl
    · rfl

theorem decodeField_encodeField (statusB : BitVec 8) {n : Nat} (h : n < 100) :
    decodeField statusB (encodeField statusB n) = BitVec.ofNat 8 n := by
  unfold decodeField encodeField
  split
  · exact rtcBcdConvert_bcd h
  · rfl

/-- The year, which is wider than its register. -/
theorem decodeYear_encodeField (statusB : BitVec 8) {n : Nat} (h : n < 100) :
    (if statusB &&& 0x04 = 0 then
        (rtcBcdConvert (((encodeField statusB n).setWidth 16).setWidth 8)).setWidth 16
      else (encodeField statusB n).setWidth 16) + 2000 = BitVec.ofNat 16 (2000 + n) := by
  have hWidth : ∀ b : BitVec 8, (b.setWidth 16).setWidth 8 = b := by
    intro b
    rw [BitVec.setWidth_setWidth_of_le b (by omega), BitVec.setWidth_eq]
  rw [hWidth, ← century_add h, ← decodeField_encodeField statusB h, decodeField]
  split
  · rfl
  · rfl

/-- The times at which the hour comes back. -/
def HourKept (statusB : BitVec 8) (hour : Nat) : Prop :=
  statusB &&& 0x02 ≠ 0 ∨ (hour ≠ 0 ∧ hour ≠ 12 ∧ (statusB &&& 0x04 ≠ 0 ∨ hour < 12))

/-- **The hour** comes back at these times and at no other one. -/
theorem decodeHour_encodeHour (statusB : BitVec 8) {hour : Nat} (h : hour < 24) :
    decodeHour statusB (decodeField statusB (encodeHour statusB hour)) = BitVec.ofNat 8 hour ↔
      HourKept statusB hour := by
  unfold HourKept decodeHour decodeField encodeHour encodeField
  by_cases hBcd : statusB &&& 0x04 = 0
  all_goals by_cases hDial : statusB &&& 0x02 = 0
  -- the 24 hours in each of the four formats
  all_goals
    simp only [hBcd, hDial, ne_eq]
    revert hour
    decide

/-- **The time** comes back exactly when the hour does. -/
theorem decodeTime_encode_iff (t : DateTime) (statusB : BitVec 8) :
    decodeTime statusB (t.encode statusB) = t.toRtcTime ↔ HourKept statusB t.hour := by
  obtain ⟨hHour, hMinute, hSecond⟩ := t.time
  obtain ⟨-, hMonth, -, hDay⟩ := t.date
  obtain ⟨hFrom, hTo⟩ := t.century
  have hYear : 2000 + (t.year - 2000) = t.year := by omega
  rw [decodeTime_eq, RtcTime.ext_iff]
  simp only [DateTime.encode, DateTime.toRtcTime]
  rw [decodeField_encodeField statusB (by omega), decodeField_encodeField statusB (by omega),
    decodeField_encodeField statusB (by omega), decodeField_encodeField statusB (by omega),
    decodeYear_encodeField statusB (by omega), hYear, decodeHour_encodeHour statusB hHour]
  simp

-- ---------------------------------------------------------------------------
-- The reads
-- ---------------------------------------------------------------------------

section

variable {chip : RtcChip} {s : RtcPorts}

theorem rtcUpdateInProgress_eq (s : RtcPorts) :
    rtcUpdateInProgress chip s =
      (decide (chip s.reads 0x0A &&& 0x80 ≠ 0),
        { s with address := 0x0A, reads := s.reads + 1 }) := by
  have hRegister : (0x0A : BitVec 8) &&& 0x7F = 0x0A := by decide
  rw [rtcUpdateInProgress, rtcRead, hRegister]

/-- The loop polls the update flag. -/
theorem rtcWait_eq_poll (fuel : Nat) (s : RtcPorts) :
    rtcWait chip fuel s = Poll.run (fun s => (rtcUpdateInProgress chip s).2)
      (fun s => (rtcUpdateInProgress chip s).1 = false) fuel s := by
  induction fuel generalizing s with
  | zero => rfl
  | succ fuel ih =>
    rw [rtcWait, Poll.run]
    rcases rtcUpdateInProgress chip s with ⟨inProgress, s'⟩
    cases inProgress with
    | true => exact ih s'
    | false => rfl

theorem iterate_reads (k : Nat) :
    ((fun s => (rtcUpdateInProgress chip s).2)^[k] s).reads = s.reads + k := by
  induction k with
  | zero => rfl
  | succ k ih =>
    rw [Function.iterate_succ_apply', rtcUpdateInProgress_eq]
    simp only [ih, Nat.add_assoc]

/-- **The loop ends** at a read at which the flag is clear. -/
theorem rtcWait_ends {k : Nat} (hFrom : s.reads ≤ k) (hClear : chip k 0x0A &&& 0x80 = 0) :
    ∃ s', ∀ fuel, k - s.reads < fuel → rtcWait chip fuel s = some s' := by
  have hStop :
      (rtcUpdateInProgress chip ((fun s => (rtcUpdateInProgress chip s).2)^[k - s.reads] s)).1 =
      false := by
    rw [rtcUpdateInProgress_eq, iterate_reads, show s.reads + (k - s.reads) = k by omega, hClear]
    rfl
  obtain ⟨s', hReturns⟩ :=
    Poll.returns _ (fun s => (rtcUpdateInProgress chip s).1 = false) hStop
  refine ⟨s', ?_⟩
  intro fuel hFuel
  rw [rtcWait_eq_poll]
  exact hReturns fuel hFuel

/-- Both loops end. -/
theorem rtcStart_ends (hEnd : chip.UpdatesEnd) (s : RtcPorts) :
    ∃ fuel₀ s', ∀ fuel ≥ fuel₀, rtcStart chip fuel s = some s' := by
  obtain ⟨k₁, hFrom₁, hClear₁⟩ := hEnd s.reads
  obtain ⟨s₁, hWait₁⟩ :=
    rtcWait_ends (s := { s with interrupts := false }) hFrom₁ hClear₁
  obtain ⟨k₂, hFrom₂, hClear₂⟩ := hEnd s₁.reads
  obtain ⟨s₂, hWait₂⟩ := rtcWait_ends hFrom₂ hClear₂
  refine ⟨k₁ + k₂ + 1, s₂, ?_⟩
  intro fuel hFuel
  rw [rtcStart, hWait₁ fuel (by simp only; omega), Option.bind_some, hWait₂ fuel (by omega)]

/-- The seven reads. -/
theorem rtcReadRegisters_eq {t : DateTime} {statusB : BitVec 8}
    (hHeld : ∀ n, s.reads ≤ n → n < s.reads + 7 → chip.HoldsAt n t statusB) :
    ∃ s', rtcReadRegisters chip s = (t.encode statusB, statusB, s') := by
  refine ⟨{ s with address := rtcStatusB, reads := s.reads + 7 }, ?_⟩
  have h (i : Nat) (hi : i < 7) : chip.HoldsAt (s.reads + i) t statusB :=
    hHeld (s.reads + i) (by omega) (by omega)
  simp only [rtcReadRegisters, rtcRead, DateTime.encode, Prod.mk.injEq, RtcTime.mk.injEq]
  refine ⟨⟨(h 0 (by omega)).seconds, (h 1 (by omega)).minutes, (h 2 (by omega)).hours,
    (h 4 (by omega)).day, (h 3 (by omega)).month, ?_⟩, (h 6 (by omega)).status, trivial⟩
  exact congrArg (BitVec.setWidth 16) (h 5 (by omega)).year

/-- **What the function returns**, whatever the format. -/
theorem rtcGetTime_eq {t : DateTime} {statusB : BitVec 8} (hEnd : chip.UpdatesEnd)
    (hHeld : chip.Held s t statusB) :
    ∃ fuel₀ s', ∀ fuel ≥ fuel₀,
      rtcGetTime chip fuel s = some (decodeTime statusB (t.encode statusB), s') := by
  obtain ⟨fuel₀, s₁, hStart⟩ := rtcStart_ends hEnd s
  obtain ⟨s₂, hRead⟩ :=
    rtcReadRegisters_eq (hHeld fuel₀ s₁ (hStart fuel₀ (Nat.le_refl _)))
  refine ⟨fuel₀, { s₂ with interrupts := true }, ?_⟩
  intro fuel hFuel
  rw [rtcGetTime, hStart fuel hFuel, Option.map_some, hRead]

end

-- ---------------------------------------------------------------------------
-- The formats
-- ---------------------------------------------------------------------------

/-- `rtc_get_time` returns, and returns the time `t`. -/
def ReturnsTime (chip : RtcChip) (s : RtcPorts) (t : DateTime) : Prop :=
  ∃ fuel₀, ∀ fuel ≥ fuel₀, ∃ s', rtcGetTime chip fuel s = some (t.toRtcTime, s')

theorem returnsTime_iff {chip : RtcChip} {s : RtcPorts} {t : DateTime} {statusB : BitVec 8}
    (hEnd : chip.UpdatesEnd) (hHeld : chip.Held s t statusB) :
    ReturnsTime chip s t ↔ decodeTime statusB (t.encode statusB) = t.toRtcTime := by
  obtain ⟨fuel₀, s', hGet⟩ := rtcGetTime_eq hEnd hHeld
  refine ⟨?_, ?_⟩
  · rintro ⟨fuel₁, hReturns⟩
    obtain ⟨s'', hTime⟩ := hReturns (fuel₀ + fuel₁) (by omega)
    rw [hGet (fuel₀ + fuel₁) (by omega)] at hTime
    exact congrArg Prod.fst (Option.some.inj hTime)
  · intro hTime
    refine ⟨fuel₀, ?_⟩
    intro fuel hFuel
    exact ⟨s', by rw [hGet fuel hFuel, hTime]⟩

/-- **rtc_get_time** returns the time that the registers hold if and only if they have 24
hours, or the hour is neither midnight nor noon and, in BCD, before noon. -/
theorem rtc_get_time_iff (chip : RtcChip) (s : RtcPorts) (t : DateTime) (statusB : BitVec 8)
    (hEnd : chip.UpdatesEnd) (hHeld : chip.Held s t statusB) :
    ReturnsTime chip s t ↔
      statusB &&& 0x02 ≠ 0 ∨
      (t.hour ≠ 0 ∧ t.hour ≠ 12 ∧ (statusB &&& 0x04 ≠ 0 ∨ t.hour < 12)) :=
  (returnsTime_iff hEnd hHeld).trans (decodeTime_encode_iff t statusB)

/-- The first of March 2024, five past one in the afternoon. -/
def sampleTime : DateTime where
  year    := 2024
  month   := 3
  day     := 1
  hour    := 13
  minute  := 5
  second  := 59
  century := by decide
  date    := by decide
  time    := by decide

/-- A chip that stands still at a time. -/
def stillChip (t : DateTime) (statusB : BitVec 8) : RtcChip := fun _ register =>
  if register = 0 then encodeField statusB t.second
  else if register = 2 then encodeField statusB t.minute
  else if register = 4 then encodeHour statusB t.hour
  else if register = 7 then encodeField statusB t.day
  else if register = 8 then encodeField statusB t.month
  else if register = 9 then encodeField statusB (t.year - 2000)
  else if register = 11 then statusB
  else 0

theorem stillChip_updatesEnd (t : DateTime) (statusB : BitVec 8) :
    (stillChip t statusB).UpdatesEnd :=
  fun n => ⟨n, Nat.le_refl n, by simp [stillChip]⟩

theorem stillChip_held (t : DateTime) (statusB : BitVec 8) (s : RtcPorts) :
    (stillChip t statusB).Held s t statusB :=
  fun _ _ _ _ _ _ => ⟨rfl, rfl, rfl, rfl, rfl, rfl, rfl⟩

/-- In BCD with 24 hours. -/
theorem rtc_get_time_bcd : ReturnsTime (stillChip sampleTime 0x02) ⟨0, 0, true⟩ sampleTime :=
  (rtc_get_time_iff (stillChip sampleTime 0x02) ⟨0, 0, true⟩ sampleTime 0x02
    (stillChip_updatesEnd sampleTime 0x02) (stillChip_held sampleTime 0x02 _)).mpr
    (.inl (by decide))

/-- In BCD with 12 hours, 1 PM is hour 81. -/
theorem rtc_get_time_bcd_afternoon :
    (stillChip sampleTime 0x00).UpdatesEnd ∧
      (stillChip sampleTime 0x00).Held ⟨0, 0, true⟩ sampleTime 0x00 ∧
      (∃ s, rtcGetTime (stillChip sampleTime 0x00) 1 ⟨0, 0, true⟩ =
        some ({ sampleTime.toRtcTime with hours := 81 }, s)) ∧
      ¬ ReturnsTime (stillChip sampleTime 0x00) ⟨0, 0, true⟩ sampleTime := by
  have hEnd := stillChip_updatesEnd sampleTime 0x00
  have hHeld := stillChip_held sampleTime 0x00 ⟨0, 0, true⟩
  refine ⟨hEnd, hHeld, ⟨_, rfl⟩, ?_⟩
  rw [returnsTime_iff hEnd hHeld]
  decide

end Hexos
