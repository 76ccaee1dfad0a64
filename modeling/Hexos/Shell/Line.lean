import Hexos.Fs.Directory
import Hexos.Shell.Definitions
import Mathlib.Data.List.Induction

/-!
# HexOS — the line editor of the shell

The line being typed as a list of characters, and `shell_buffer` as the array
that holds it. The array has 128 bytes, the capacity check of `shell_putchar`
lets lines grow to 255 characters: the character after the first 127 puts the
terminator behind the array.

## Results

* `shellPutchar_holds` — one character on the line and in the array.
* `runChars_holds` — any sequence of characters without a newline.
* `line_editor_iff` — exactly when every index written is in the array.
-/

namespace Hexos

-- ---------------------------------------------------------------------------
-- The line
-- ---------------------------------------------------------------------------

/-- One character other than a newline: `\b` takes the last one off, and every
other character is put behind the line if it is accepted. -/
def editLine (line : List UInt8) (c : UInt8) : List UInt8 :=
  if c = 8 then line.dropLast else if line.length > 254 then line else line ++ [c]

/-- The line after the characters `chars`. -/
def typed (chars : List UInt8) : List UInt8 := chars.foldl editLine []

/-- Every ordinary character finds room in an array of 128 bytes, for itself and
for the terminator. -/
def Fits (chars : List UInt8) : Prop :=
  ∀ before c, before ++ [c] <+: chars → c ≠ 8 → (typed before).length < 127

theorem typed_append (before : List UInt8) (c : UInt8) :
    typed (before ++ [c]) = editLine (typed before) c :=
  List.foldl_append

theorem Fits.of_prefix {before chars : List UInt8} (h : Fits chars) (hPrefix : before <+: chars) :
    Fits before :=
  fun b c hb => h b c (hb.trans hPrefix)

theorem fits_append (before : List UInt8) (c : UInt8) :
    Fits (before ++ [c]) ↔ Fits before ∧ (c ≠ 8 → (typed before).length < 127) := by
  constructor
  · intro h
    exact ⟨h.of_prefix (List.prefix_append _ _), h before c (List.prefix_refl _)⟩
  · rintro ⟨hBefore, hLast⟩ b d hPrefix
    rcases List.prefix_concat_iff.mp hPrefix with hEq | hPrefix
    · obtain ⟨rfl, hd⟩ := List.append_inj' hEq rfl
      obtain rfl : d = c := by simpa using hd
      exact hLast
    · exact hBefore b d hPrefix

/-- A line has at most the characters typed. -/
theorem typed_length_le (chars : List UInt8) : (typed chars).length ≤ chars.length := by
  induction chars using List.reverseRecOn with
  | nil => exact Nat.le_refl _
  | append_singleton before c ih =>
    rw [typed_append, List.length_append, List.length_singleton]
    unfold editLine
    by_cases hc : c = 8
    · rw [if_pos hc, List.length_dropLast]
      omega
    · rw [if_neg hc]
      by_cases hFull : (typed before).length > 254
      · rw [if_pos hFull]
        omega
      · rw [if_neg hFull, List.length_append, List.length_singleton]
        omega

/-- A line that fits has 127 characters at most. -/
theorem Fits.length_le {chars : List UInt8} (h : Fits chars) : (typed chars).length ≤ 127 := by
  induction chars using List.reverseRecOn with
  | nil => exact Nat.zero_le _
  | append_singleton before c ih =>
    obtain ⟨hBefore, hLast⟩ := (fits_append before c).mp h
    have hLength := ih hBefore
    rw [typed_append]
    unfold editLine
    by_cases hc : c = 8
    · rw [if_pos hc, List.length_dropLast]
      omega
    · have := hLast hc
      rw [if_neg hc, if_neg (by omega), List.length_append, List.length_singleton]
      omega

-- ---------------------------------------------------------------------------
-- One character
-- ---------------------------------------------------------------------------

section Editor

variable {World : Type}
  (processCommand : ProcessCommand → World → Outcome (List UInt8 × World))
  (env : ShellEnv) (fuel : Nat)

/-- `shell_buffer` holds the line, NUL-terminated, and `shell_buffer_len` is its
length. -/
structure Console.Holds (s : Console World) (line : List UInt8) : Prop where
  len   : s.len = line.length
  bytes : ∀ i, ∀ hi : i < line.length, s.buffer i = line.get ⟨i, hi⟩
  nul   : s.buffer line.length = 0

/-- The indices of `shell_buffer` that a character writes. -/
def writtenBy (line : List UInt8) (c : UInt8) : List Nat :=
  if c = 8 then (if line = [] then [] else [line.length - 1])
  else if line.length > 254 then [] else [line.length, line.length + 1]

/-- The state at the start of a line: the shell has been started, or a newline
has been handled. -/
inductive LineStart : Console World → Prop
  | boot (shell : Shell) (world : World) : LineStart ⟨fun _ => 0, 0, shell, world⟩
  | newline {s : Console World} {k : Keystroke World} :
      shellPutchar processCommand env fuel s 10 = .done k → LineStart k.console

/-- A sequence of characters: the indices of `shell_buffer` written, and the state
it leaves. -/
def runChars : Console World → List UInt8 → Outcome (List Nat × Console World)
  | s, [] => .done ([], s)
  | s, c :: chars =>
    (shellPutchar processCommand env fuel s c).bind fun k =>
    (runChars k.console chars).map fun (written, s) => (k.written ++ written, s)

variable {processCommand env fuel}

/-- The terminator of the line before stands in the first byte. -/
theorem LineStart.holds {s : Console World} (h : LineStart processCommand env fuel s) :
    s.Holds [] := by
  cases h with
  | boot shell world => exact ⟨rfl, fun i hi => absurd hi (Nat.not_lt_zero i), rfl⟩
  | @newline s k hKey =>
    unfold shellPutchar at hKey
    rw [if_pos rfl] at hKey
    obtain ⟨⟨text, sh, world⟩, -, rfl⟩ := Outcome.map_eq_done.mp hKey
    refine ⟨rfl, fun i hi => absurd hi (Nat.not_lt_zero i), ?_⟩
    show s.buffer.store8 0 0 0 = 0
    exact if_pos rfl

variable (processCommand env fuel)

/-- **Step lemma.** A character other than a newline changes the line that the
array holds. -/
theorem shellPutchar_holds {s : Console World} {line : List UInt8} (h : s.Holds line) {c : UInt8}
    (hc : c ≠ 10) :
    ∃ k, shellPutchar processCommand env fuel s c = .done k ∧
      k.console.Holds (editLine line c) ∧ k.written = writtenBy line c := by
  obtain ⟨hLen, hBytes, hNul⟩ := h
  unfold shellPutchar editLine writtenBy
  rw [if_neg hc]
  by_cases hBack : c = 8
  · rw [if_pos hBack, if_pos hBack, if_pos hBack]
    by_cases hEmpty : line = []
    · subst hEmpty
      rw [if_pos (by simp [hLen]), if_pos rfl]
      exact ⟨_, rfl, ⟨hLen, hBytes, hNul⟩, rfl⟩
    · have hPos : 0 < line.length := List.length_pos_of_ne_nil hEmpty
      rw [if_neg (by omega), if_neg hEmpty]
      refine ⟨_, rfl, ⟨?_, ?_, ?_⟩, by rw [hLen]⟩
      · rw [List.length_dropLast, hLen]
      · intro i hi
        rw [List.length_dropLast] at hi
        show s.buffer.store8 (s.len - 1) 0 i = _
        rw [List.get_eq_getElem, List.getElem_dropLast, Mem.store8, if_neg (by omega),
          hBytes i (by omega), List.get_eq_getElem]
      · show s.buffer.store8 (s.len - 1) 0 _ = _
        rw [List.length_dropLast, Mem.store8, if_pos (by omega)]
  · rw [if_neg hBack, if_neg hBack, if_neg hBack]
    by_cases hFull : line.length > 254
    · rw [if_pos (by omega), if_pos hFull, if_pos hFull]
      exact ⟨_, rfl, ⟨hLen, hBytes, hNul⟩, rfl⟩
    · rw [if_neg (by omega), if_neg hFull, if_neg hFull]
      refine ⟨_, rfl, ⟨?_, ?_, ?_⟩, by rw [hLen]⟩
      · rw [List.length_append, List.length_singleton, hLen]
      · intro i hi
        rw [List.length_append, List.length_singleton] at hi
        show (s.buffer.store8 s.len c).store8 (s.len + 1) 0 i = _
        rw [Mem.store8, if_neg (by omega), Mem.store8]
        simp only [List.get_eq_getElem]
        by_cases hLast : i = s.len
        · rw [if_pos hLast, List.getElem_append_right (by omega)]
          simp
        · rw [if_neg hLast, List.getElem_append_left (by omega), hBytes i (by omega),
            List.get_eq_getElem]
      · show (s.buffer.store8 s.len c).store8 (s.len + 1) 0 _ = _
        rw [List.length_append, List.length_singleton, Mem.store8, if_pos (by omega)]

-- ---------------------------------------------------------------------------
-- Sequences of characters
-- ---------------------------------------------------------------------------

theorem runChars_append (s : Console World) (before : List UInt8) (c : UInt8) :
    runChars processCommand env fuel s (before ++ [c]) =
      (runChars processCommand env fuel s before).bind fun (written, s) =>
      (shellPutchar processCommand env fuel s c).map fun k =>
        (written ++ k.written, k.console) := by
  induction before generalizing s with
  | nil =>
    rw [List.nil_append, runChars, runChars, Outcome.bind_done]
    unfold Outcome.map
    congr 1
    funext k
    simp [runChars]
  | cons d before ih =>
    rw [List.cons_append, runChars, runChars]
    cases shellPutchar processCommand env fuel s d with
    | panic msg => rfl
    | running => rfl
    | done k =>
      rw [Outcome.bind_done, Outcome.bind_done, ih]
      cases runChars processCommand env fuel k.console before with
      | panic msg => rfl
      | running => rfl
      | done r =>
        obtain ⟨written, s'⟩ := r
        rw [Outcome.bind_done, Outcome.map_done, Outcome.bind_done, Outcome.map_map]
        simp only [List.append_assoc]

/-- What one character writes lies in the array if and only if the character finds
room there. -/
theorem writtenBy_lt_iff {line : List UInt8} (hLine : line.length ≤ 127) (c : UInt8) :
    (∀ i ∈ writtenBy line c, i < 128) ↔ (c ≠ 8 → line.length < 127) := by
  unfold writtenBy
  by_cases hBack : c = 8
  · rw [if_pos hBack]
    refine iff_of_true ?_ (fun h => absurd hBack h)
    intro i hi
    by_cases hEmpty : line = []
    · rw [if_pos hEmpty] at hi
      cases hi
    · rw [if_neg hEmpty, List.mem_singleton] at hi
      omega
  · rw [if_neg hBack, if_neg (by omega)]
    constructor
    · intro h _
      have := h (line.length + 1) (by simp)
      omega
    · intro h i hi
      have := h hBack
      rcases List.mem_pair.mp hi with rfl | rfl
      · omega
      · omega

/-- **Run lemma.** After any characters but a newline the array holds the line
typed, and every index written is in the array exactly when the line fits. -/
theorem runChars_holds {s : Console World} (h : s.Holds []) {chars : List UInt8}
    (hChars : 10 ∉ chars) :
    ∃ written s', runChars processCommand env fuel s chars = .done (written, s') ∧
      s'.Holds (typed chars) ∧ ((∀ i ∈ written, i < 128) ↔ Fits chars) := by
  induction chars using List.reverseRecOn with
  | nil =>
    refine ⟨[], s, rfl, h, iff_of_true (by simp) ?_⟩
    intro b c hPrefix
    exact absurd (List.prefix_nil.mp hPrefix) (by simp)
  | append_singleton before c ih =>
    rw [List.mem_append, List.mem_singleton, not_or] at hChars
    obtain ⟨written, s', hRun, hHolds, hFits⟩ := ih hChars.1
    obtain ⟨k, hKey, hNext, hWritten⟩ :=
      shellPutchar_holds processCommand env fuel hHolds (Ne.symm hChars.2)
    refine ⟨written ++ k.written, k.console, ?_, ?_, ?_⟩
    · rw [runChars_append, hRun, Outcome.bind_done]
      simp only [hKey, Outcome.map_done]
    · rw [typed_append]
      exact hNext
    · rw [List.forall_mem_append, hFits, fits_append, hWritten]
      refine and_congr_right ?_
      intro hBefore
      exact writtenBy_lt_iff hBefore.length_le c

/-- **Line editor.** For the characters since the last newline, `shell_buffer`
holds the line they make, NUL-terminated, `shell_buffer_len` is its length and
every index written is below 128, if and only if no character arrives when the
line has 127 characters. -/
theorem line_editor_iff (s : Console World) (hStart : LineStart processCommand env fuel s)
    (chars : List UInt8) (hChars : 10 ∉ chars) :
    (∀ before, before <+: chars → ∃ written s',
      runChars processCommand env fuel s before = .done (written, s') ∧
      s'.Holds (typed before) ∧ ∀ i ∈ written, i < 128) ↔
    ∀ before c, before ++ [c] <+: chars → c ≠ 8 → (typed before).length < 127 := by
  constructor
  · intro h
    obtain ⟨written, s', hRun, -, hFits⟩ :=
      runChars_holds processCommand env fuel hStart.holds hChars
    obtain ⟨written', s'', hRun', -, hBound⟩ := h chars (List.prefix_refl _)
    rw [hRun] at hRun'
    cases hRun'
    exact hFits.mp hBound
  · intro hFits before hPrefix
    have hBefore : 10 ∉ before := fun hMem => hChars (hPrefix.subset hMem)
    obtain ⟨written, s', hRun, hHolds, hIff⟩ :=
      runChars_holds processCommand env fuel hStart.holds hBefore
    exact ⟨written, s', hRun, hHolds, hIff.mpr (Fits.of_prefix hFits hPrefix)⟩

end Editor

/-- The addresses of the sample, with `dirent_resp`. -/
def sampleShellEnv (disk : Nat → Mem) : ShellEnv where
  toEnv := sampleEnv disk
  direntResp := 0x6000
  dirent_ne_null := by decide
  dirent_apart := by simp [sampleEnv]
  readdir_ne := by simp [sampleEnv]

/-- A shell with the variables of `shell.c` as they are at the start. -/
def sampleConsole : Console Unit := ⟨fun _ => 0, 0, ⟨0x1000, ⟨[], fun _ => 0⟩⟩, ()⟩

/-- The processes of the sample do nothing. -/
def idleProcesses : ProcessCommand → Unit → Outcome (List UInt8 × Unit) :=
  fun _ world => .done ([], world)

/-- The characters `l`, `x`, backspace and `s`. -/
theorem line_editor_short_line :
    ∃ written s', runChars idleProcesses (sampleShellEnv sampleDisk) 600 sampleConsole
        [0x6C, 0x78, 8, 0x73] = .done (written, s') ∧
      s'.Holds [0x6C, 0x73] ∧ ∀ i ∈ written, i < 128 := by
  refine (line_editor_iff idleProcesses (sampleShellEnv sampleDisk) 600 sampleConsole
    (.boot _ _) [0x6C, 0x78, 8, 0x73] (by decide)).mpr ?_
    [0x6C, 0x78, 8, 0x73] (List.prefix_refl _)
  intro before c hPrefix _
  have hLength := hPrefix.length_le
  rw [List.length_append] at hLength
  have := typed_length_le before
  simp only [List.length_cons, List.length_nil] at hLength
  omega

/-- With 128 characters the terminator goes to the index 128. -/
theorem line_editor_overruns :
    ∃ written s', runChars idleProcesses (sampleShellEnv sampleDisk) 600 sampleConsole
        (List.replicate 128 0x61) = .done (written, s') ∧ 128 ∈ written := by
  have hEval : (runChars idleProcesses (sampleShellEnv sampleDisk) 600 sampleConsole
      (List.replicate 128 0x61)).toOption.map (fun r => decide (128 ∈ r.1)) = some true := by
    decide +kernel
  obtain ⟨⟨written, s'⟩, hRun, hMem⟩ := Option.map_eq_some_iff.mp hEval
  exact ⟨written, s', Outcome.toOption_eq_some.mp hRun, of_decide_eq_true hMem⟩

end Hexos
