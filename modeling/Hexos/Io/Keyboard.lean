import Mathlib.Data.List.Induction

/-!
# HexOS — the keyboard

`kernel/kernel/ps2keyboard.c`. A key sends its make code when it is pressed and
the make code with the top bit set when it is released. `keyboard_handler`
keeps one flag for the two shift keys: either of them clears it when it is
released, also while the other one is still held.

## Results

* `runHandler_shiftDown` — the flag after any sequence of bytes.
* `shift_tracking_iff` — exactly when the flag is true while a shift key is held.
-/

namespace Hexos

/-- A character of the source as a byte. -/
def byteOf (c : Char) : UInt8 := UInt8.ofNat c.toNat

/-- The keys from 54 on, the same in both maps: right shift, the keypad star,
alt, space, caps lock, the function keys and the keypad. -/
def commonKeys : List UInt8 :=
  [0, byteOf '*', 0, byteOf ' ', 0] ++ List.replicate 15 0 ++ [byteOf '-', 0, 0, 0, byteOf '+'] ++
    List.replicate 49 0

/-- `scancode_map`. -/
def scancodeMap : List UInt8 :=
  [0, 27] ++ ['1', '2', '3', '4', '5', '6', '7', '8', '9', '0', '-', '='].map byteOf ++ [8, 9] ++
    ['q', 'w', 'e', 'r', 't', 'y', 'u', 'i', 'o', 'p', '[', ']'].map byteOf ++ [10, 0] ++
    ['a', 's', 'd', 'f', 'g', 'h', 'j', 'k', 'l', ';'].map byteOf ++ [0x27, 0x60, 0, 0x5C] ++
    ['z', 'x', 'c', 'v', 'b', 'n', 'm', ',', '.', '/'].map byteOf ++ commonKeys

/-- `shift_map`. -/
def shiftMap : List UInt8 :=
  [0, 27] ++ ['!', '@', '#', '$', '%', '^', '&', '*', '(', ')', '_', '+'].map byteOf ++ [8, 9] ++
    ['Q', 'W', 'E', 'R', 'T', 'Y', 'U', 'I', 'O', 'P'].map byteOf ++ [0x7B, 0x7D, 10, 0] ++
    ['A', 'S', 'D', 'F', 'G', 'H', 'J', 'K', 'L', ':'].map byteOf ++ [0x22, 0x7E, 0, 0x7C] ++
    ['Z', 'X', 'C', 'V', 'B', 'N', 'M', '<', '>', '?'].map byteOf ++ commonKeys

/-- The character of a make code in a map of 128 keys. -/
def charOf (map : List UInt8) (scancode : BitVec 8) : UInt8 := map.getD scancode.toNat 0

/-- The make code of a shift key. -/
def isShift (scancode : BitVec 8) : Bool := scancode == 42 || scancode == 54

/-- `keyboard_handler` for the byte read from the port: the flag `shift_down`
it leaves, and the character it passes to `shell_putchar`. -/
def keyboardHandler (shiftDown : Bool) (scancode : BitVec 8) : Bool × Option UInt8 :=
  if scancode &&& 0x80 ≠ 0 then
    -- key released
    (if isShift (scancode ^^^ 0x80) then false else shiftDown, none)
  else if charOf scancodeMap scancode = 0 then
    (if isShift scancode then true else shiftDown, none)
  else if shiftDown then (shiftDown, some (charOf shiftMap scancode))
  else (shiftDown, some (charOf scancodeMap scancode))

/-- `shift_down` after the bytes of a sequence. -/
def runHandler (bytes : List (BitVec 8)) : Bool :=
  bytes.foldl (fun shiftDown scancode => (keyboardHandler shiftDown scancode).1) false

-- ---------------------------------------------------------------------------
-- The keys held
-- ---------------------------------------------------------------------------

/-- The keys held after one more byte, by make code. -/
def holdKey (held : List (BitVec 8)) (scancode : BitVec 8) : List (BitVec 8) :=
  if scancode &&& 0x80 ≠ 0 then held.filter (· ≠ scancode ^^^ 0x80) else scancode :: held

/-- The keys held after the bytes of a sequence, from no key held. -/
def heldKeys (bytes : List (BitVec 8)) : List (BitVec 8) := bytes.foldl holdKey []

/-- A shift key is held. -/
def ShiftHeld (bytes : List (BitVec 8)) : Prop := 42 ∈ heldKeys bytes ∨ 54 ∈ heldKeys bytes

instance (bytes : List (BitVec 8)) : Decidable (ShiftHeld bytes) :=
  inferInstanceAs (Decidable (_ ∨ _))

/-- The order of the bytes is one that keys can produce: a key is pressed when it
is up and released when it is held. -/
def physicallyPossible (held : List (BitVec 8)) : List (BitVec 8) → Bool
  | [] => true
  | scancode :: bytes =>
    (if scancode &&& 0x80 ≠ 0 then held.contains (scancode ^^^ 0x80)
      else !held.contains scancode) &&
      physicallyPossible (holdKey held scancode) bytes

/-- The flag agrees with the keys held. -/
def Tracks (bytes : List (BitVec 8)) : Prop := runHandler bytes = true ↔ ShiftHeld bytes

/-- One shift key is released while the other one is held. -/
def Overlaps (before : List (BitVec 8)) (scancode : BitVec 8) : Prop :=
  scancode = 0xAA ∧ 54 ∈ heldKeys before ∨ scancode = 0xB6 ∧ 42 ∈ heldKeys before

-- ---------------------------------------------------------------------------
-- One byte
-- ---------------------------------------------------------------------------

theorem runHandler_append (before : List (BitVec 8)) (scancode : BitVec 8) :
    runHandler (before ++ [scancode]) = (keyboardHandler (runHandler before) scancode).1 :=
  List.foldl_append

theorem heldKeys_append (before : List (BitVec 8)) (scancode : BitVec 8) :
    heldKeys (before ++ [scancode]) = holdKey (heldKeys before) scancode :=
  List.foldl_append

theorem mem_holdKey (key : BitVec 8) (held : List (BitVec 8)) (scancode : BitVec 8) :
    key ∈ holdKey held scancode ↔
      if scancode &&& 0x80 ≠ 0 then key ∈ held ∧ key ≠ scancode ^^^ 0x80
      else key = scancode ∨ key ∈ held := by
  unfold holdKey
  by_cases h : scancode &&& 0x80 ≠ 0
  · rw [if_pos h, if_pos h]
    simp
  · rw [if_neg h, if_neg h]
    exact List.mem_cons

/-- The flag after one byte: the break codes of the shift keys clear it, their
make codes set it, and no other byte changes it. -/
theorem keyboardHandler_flag : ∀ (shiftDown : Bool) (scancode : BitVec 8),
    (keyboardHandler shiftDown scancode).1 =
      if scancode = 0xAA ∨ scancode = 0xB6 then false
      else if scancode = 42 ∨ scancode = 54 then true else shiftDown := by
  decide +kernel

/-- The two shift keys after one byte. -/
theorem mem_shift_holdKey (held : List (BitVec 8)) (scancode : BitVec 8) :
    (42 ∈ holdKey held scancode ↔ scancode = 42 ∨ (scancode ≠ 0xAA ∧ 42 ∈ held)) ∧
      (54 ∈ holdKey held scancode ↔ scancode = 54 ∨ (scancode ≠ 0xB6 ∧ 54 ∈ held)) := by
  have hCodes : ∀ scancode : BitVec 8,
      (if scancode &&& 0x80 ≠ 0 then scancode ≠ 42 ∧ scancode ≠ 54 ∧
          (42 ≠ scancode ^^^ 0x80 ↔ scancode ≠ 0xAA) ∧
          (54 ≠ scancode ^^^ 0x80 ↔ scancode ≠ 0xB6)
        else scancode ≠ 0xAA ∧ scancode ≠ 0xB6) := by
    decide +kernel
  have hCode := hCodes scancode
  rw [mem_holdKey, mem_holdKey]
  by_cases h : scancode &&& 0x80 ≠ 0
  · rw [if_pos h] at hCode
    rw [if_pos h, if_pos h]
    obtain ⟨hLeft, hRight, hUpLeft, hUpRight⟩ := hCode
    rw [hUpLeft, hUpRight, or_iff_right hLeft, or_iff_right hRight]
    exact ⟨and_comm, and_comm⟩
  · rw [if_neg h] at hCode
    rw [if_neg h, if_neg h, eq_comm, @eq_comm _ (54 : BitVec 8), and_iff_right hCode.1,
      and_iff_right hCode.2]
    exact ⟨Iff.rfl, Iff.rfl⟩

/-- The character a byte passes on, if any, is the one of the map that the flag
selects. -/
theorem keyboardHandler_char {shiftDown : Bool} {scancode : BitVec 8} {c : UInt8}
    (h : (keyboardHandler shiftDown scancode).2 = some c) :
    c = charOf (if shiftDown then shiftMap else scancodeMap) scancode := by
  unfold keyboardHandler at h
  by_cases hBreak : scancode &&& 0x80 ≠ 0
  · rw [if_pos hBreak] at h
    cases h
  · rw [if_neg hBreak] at h
    by_cases hNone : charOf scancodeMap scancode = 0
    · rw [if_pos hNone] at h
      cases h
    · rw [if_neg hNone] at h
      cases shiftDown with
      | false => exact (Option.some.inj h).symm
      | true => exact (Option.some.inj h).symm

-- ---------------------------------------------------------------------------
-- Sequences of bytes
-- ---------------------------------------------------------------------------

/-- **Step lemma.** The flag agrees with the keys after one more byte unless a
shift key was released while the other one was held. -/
theorem Tracks.append {before : List (BitVec 8)} (h : Tracks before) {scancode : BitVec 8}
    (hApart : ¬ Overlaps before scancode) : Tracks (before ++ [scancode]) := by
  unfold Tracks ShiftHeld at h ⊢
  unfold Overlaps at hApart
  obtain ⟨hLeft, hRight⟩ := mem_shift_holdKey (heldKeys before) scancode
  rw [runHandler_append, heldKeys_append, keyboardHandler_flag, hLeft, hRight]
  by_cases hUp : scancode = 0xAA ∨ scancode = 0xB6
  · rw [if_pos hUp]
    rcases hUp with rfl | rfl
    · simp_all
    · simp_all
  · rw [if_neg hUp]
    obtain ⟨hUpLeft, hUpRight⟩ := not_or.mp hUp
    by_cases hDown : scancode = 42 ∨ scancode = 54
    · rw [if_pos hDown]
      rcases hDown with rfl | rfl
      · simp
      · simp
    · obtain ⟨hDownLeft, hDownRight⟩ := not_or.mp hDown
      rw [if_neg hDown, h, or_iff_right hDownLeft, or_iff_right hDownRight, and_iff_right hUpLeft,
        and_iff_right hUpRight]

/-- A shift key released while the other one is held clears the flag. -/
theorem not_tracks_of_overlaps {before : List (BitVec 8)} {scancode : BitVec 8}
    (h : Overlaps before scancode) : ¬ Tracks (before ++ [scancode]) := by
  intro hTracks
  unfold Tracks ShiftHeld at hTracks
  obtain ⟨hLeft, hRight⟩ := mem_shift_holdKey (heldKeys before) scancode
  rw [runHandler_append, heldKeys_append, keyboardHandler_flag, hLeft, hRight] at hTracks
  rcases h with ⟨rfl, hHeld⟩ | ⟨rfl, hHeld⟩
  · simp at hTracks
    exact hTracks hHeld
  · simp at hTracks
    exact hTracks hHeld

/-- **Run lemma.** The flag agrees with the keys along a whole sequence. -/
theorem runHandler_shiftDown {bytes : List (BitVec 8)}
    (hApart : ∀ before scancode, before ++ [scancode] <+: bytes → ¬ Overlaps before scancode) :
    ∀ before, before <+: bytes → Tracks before := by
  intro before
  induction before using List.reverseRecOn with
  | nil =>
    intro _
    unfold Tracks ShiftHeld
    simp [runHandler, heldKeys]
  | append_singleton before scancode ih =>
    intro hPrefix
    exact (ih ((List.prefix_append _ _).trans hPrefix)).append (hApart before scancode hPrefix)

/-- **Shift tracking.** Along a sequence of bytes the flag is true exactly while
a shift key is held, and the characters are those of the map that goes with
it, if and only if no shift key is released while the other one is held. -/
theorem shift_tracking_iff (bytes : List (BitVec 8)) :
    (∀ before scancode, before ++ [scancode] <+: bytes →
      (runHandler (before ++ [scancode]) = true ↔ ShiftHeld (before ++ [scancode])) ∧
      ∀ c, (keyboardHandler (runHandler before) scancode).2 = some c →
        c = charOf (if ShiftHeld before then shiftMap else scancodeMap) scancode) ↔
    ∀ before scancode, before ++ [scancode] <+: bytes →
      ¬ (scancode = 0xAA ∧ 54 ∈ heldKeys before ∨ scancode = 0xB6 ∧
        42 ∈ heldKeys before) := by
  constructor
  · intro h before scancode hPrefix hOverlaps
    exact not_tracks_of_overlaps hOverlaps (h before scancode hPrefix).1
  · intro hApart before scancode hPrefix
    have hBefore : Tracks before :=
      runHandler_shiftDown hApart before ((List.prefix_append _ _).trans hPrefix)
    refine ⟨hBefore.append (hApart before scancode hPrefix), ?_⟩
    intro c hChar
    rw [keyboardHandler_char hChar]
    by_cases hHeld : ShiftHeld before
    · rw [if_pos hHeld, if_pos (hBefore.mpr hHeld)]
    · rw [if_neg hHeld, if_neg fun hc => hHeld (hBefore.mp hc)]

/-- The left shift key is pressed, then the right one, and the left one is
released: the flag is false with the right shift key held. -/
theorem shift_lost_on_overlap :
    physicallyPossible [] [42, 54, 0xAA] = true ∧
      ShiftHeld [42, 54, 0xAA] ∧ runHandler [42, 54, 0xAA] = false := by
  decide +kernel

end Hexos
