import Hexos.Shell.Line
import Mathlib.Data.List.GetD

/-!
# HexOS — what a command reads of the buffer

A command should depend on the line alone, not on what earlier and longer lines
left behind its terminator. The tests of `shell_runcmd` stop at the terminator.
The arguments of `cd` and `cat` start behind a space, which the test has seen;
that of `filesize` starts at the byte 9, and for the line `filesize` this is one
byte behind the terminator.

## Results

* `startsWith_iff`, `stringAt_spec` — the tests and the argument of a line.
* `shellCommand_congr` — the command is a function of the line.
* `runcmd_depends_on_line_iff` — exactly for which lines.
-/

namespace Hexos

-- ---------------------------------------------------------------------------
-- Reading a line
-- ---------------------------------------------------------------------------

/-- `shell_buffer` holds the line: its bytes and a NUL, with anything behind. -/
def HoldsLine (buffer : Mem) (line : CString) : Prop := StringAt buffer 0 line.bytes

/-- The comparison byte by byte is one of prefixes: it does not go beyond the NUL. -/
theorem startsWith_iff {text : List UInt8} (hText : 0 ∉ text) {str : List UInt8}
    {m : Mem} {p : Nat} (h : StringAt m p str) : startsWith m p text = true ↔ text <+: str := by
  induction text generalizing str p with
  | nil => exact iff_of_true rfl List.nil_prefix
  | cons c cs ih =>
    have hc : c ≠ 0 := fun hc => hText (by simp [hc])
    have hcs : 0 ∉ cs := fun hc => hText (List.mem_cons_of_mem c hc)
    rw [startsWith, Bool.and_eq_true, beq_iff_eq]
    cases str with
    | nil =>
      have hEnd : m p = 0 := h.2
      rw [hEnd]
      exact iff_of_false (fun hEq => hc hEq.1.symm) (by simp)
    | cons d ds =>
      obtain ⟨hHead, hTail⟩ := stringAt_cons.mp h
      rw [hHead, ih hcs hTail, List.cons_prefix_cons, eq_comm]

/-- The string read is the string there, if the bound on its length is large enough. -/
theorem stringAt_spec {str : List UInt8} (hStr : 0 ∉ str) {m : Mem} {p : Nat}
    (h : StringAt m p str) (fuel : Nat) :
    stringAt fuel m p = if str.length < fuel then .done ⟨str, hStr⟩ else .running := by
  induction str generalizing fuel p with
  | nil =>
    have hEnd : m p = 0 := h.2
    cases fuel with
    | zero => rfl
    | succ fuel =>
      rw [stringAt, dif_neg (by simpa using hEnd), List.length_nil, if_pos (Nat.zero_lt_succ fuel)]
  | cons c cs ih =>
    obtain ⟨hHead, hTail⟩ := stringAt_cons.mp h
    have hc : c ≠ 0 := fun hc => hStr (by simp [hc])
    cases fuel with
    | zero => rfl
    | succ fuel =>
      rw [stringAt, dif_pos (by rw [hHead]; exact hc),
        ih (fun hc => hStr (List.mem_cons_of_mem c hc)) hTail fuel, List.length_cons]
      by_cases hFuel : cs.length < fuel
      · rw [if_pos hFuel, if_pos (by omega), Outcome.map_done]
        simp only [CString.push, hHead]
      · rw [if_neg hFuel, if_neg (by omega)]
        rfl

-- ---------------------------------------------------------------------------
-- Commands
-- ---------------------------------------------------------------------------

/-- The command of a line is the same whatever follows the terminator. -/
theorem shellCommand_congr {line : CString} {buffer buffer' : Mem} (h : HoldsLine buffer line)
    (h' : HoldsLine buffer' line) {len : Nat}
    (hLine : ¬ (len ≠ 0 ∧ line.bytes = ascii "filesize")) (fuel : Nat) :
    shellCommand fuel buffer len = shellCommand fuel buffer' len := by
  have hEq : ∀ text, 0 ∉ text → strEq buffer 0 text = strEq buffer' 0 text := by
    intro text hText
    rw [Bool.eq_iff_iff, strEq_iff line.nonzero hText h, strEq_iff line.nonzero hText h']
  have hStarts : ∀ text, 0 ∉ text → startsWith buffer 0 text = startsWith buffer' 0 text := by
    intro text hText
    rw [Bool.eq_iff_iff, startsWith_iff hText h, startsWith_iff hText h']
  have hArgument : ∀ k, k ≤ line.bytes.length →
      stringAt fuel buffer k = stringAt fuel buffer' k := by
    intro k hk
    have hRest := h.drop hk
    have hRest' := h'.drop hk
    rw [Nat.zero_add] at hRest hRest'
    have hNonzero : 0 ∉ line.bytes.drop k := fun hc => line.nonzero (List.mem_of_mem_drop hc)
    rw [stringAt_spec hNonzero hRest fuel, stringAt_spec hNonzero hRest' fuel]
  unfold shellCommand
  by_cases hLen : len = 0
  · rw [if_pos hLen, if_pos hLen]
  rw [if_neg hLen, if_neg hLen, ← hEq _ (by decide), ← hEq (ascii "ls") (by decide),
    ← hStarts (ascii "cd ") (by decide), ← hStarts (ascii "cat ") (by decide),
    ← hStarts (ascii "filesize") (by decide), ← hEq (ascii "pwd") (by decide),
    ← hEq (ascii "mem") (by decide), ← hEq (ascii "dump") (by decide), ← hEq (ascii "top")
    (by decide), ← hEq (ascii "proctest") (by decide), ← hEq (ascii "memtest") (by decide),
    ← hEq (ascii "exit") (by decide)]
  -- a line that passes one of the three tests for a prefix reaches to its argument
  refine ite_congr rfl (fun _ => rfl) fun _ => ite_congr rfl (fun _ => rfl) fun _ =>
    ite_congr rfl (fun hCd => ?_) fun _ => ite_congr rfl (fun hCat => ?_) fun _ =>
    ite_congr rfl (fun hSize => ?_) fun _ => rfl
  · have hPrefix := (startsWith_iff (by decide) h).mp hCd
    rw [hArgument 3 hPrefix.length_le]
  · have hPrefix := (startsWith_iff (by decide) h).mp hCat
    rw [hArgument 4 hPrefix.length_le]
  · have hPrefix := (startsWith_iff (by decide) h).mp hSize
    have hLength : 8 ≤ line.bytes.length := hPrefix.length_le
    rw [hArgument 9]
    by_contra hShort
    refine hLine ⟨hLen, (hPrefix.eq_of_length ?_).symm⟩
    rw [show (ascii "filesize").length = 8 by decide]
    omega

/-- The line `filesize`, with `text` behind its terminator. -/
def filesizeLine (text : List UInt8) : Mem := sectorOf (ascii "filesize" ++ 0 :: text)

theorem filesizeLine_holds (text : List UInt8) :
    StringAt (filesizeLine text) 0 (ascii "filesize") := by
  refine ⟨?_, ?_⟩
  · intro j hj
    show (ascii "filesize" ++ 0 :: text).getD (0 + j) 0 = _
    rw [Nat.zero_add, List.getD_append _ _ _ _ hj, List.getD_eq_getElem _ _ hj, List.get_eq_getElem]
  · show (ascii "filesize" ++ 0 :: text).getD (0 + (ascii "filesize").length) 0 = 0
    rw [Nat.zero_add, List.getD_append_right _ _ _ _ (Nat.le_refl _), Nat.sub_self]
    rfl

/-- What is behind the terminator is taken for the argument. -/
theorem shellCommand_filesize {buffer : Mem} (h : StringAt buffer 0 (ascii "filesize")) {len : Nat}
    (hLen : len ≠ 0) (fuel : Nat) :
    shellCommand fuel buffer len = (stringAt fuel buffer 9).map .filesize := by
  have hEq : ∀ text, 0 ∉ text → ascii "filesize" ≠ text → ¬ strEq buffer 0 text = true :=
    fun text hText hne hc => hne ((strEq_iff (by decide) hText h).mp hc)
  have hStarts : ∀ text, 0 ∉ text → ¬ text <+: ascii "filesize" →
      ¬ startsWith buffer 0 text = true :=
    fun text hText hne hc => hne ((startsWith_iff hText h).mp hc)
  unfold shellCommand
  rw [if_neg hLen, if_neg (hEq _ (by decide) (by decide)), if_neg (hEq _ (by decide) (by decide)),
    if_neg (hStarts _ (by decide) (by decide)), if_neg (hStarts _ (by decide) (by decide)),
    if_pos ((startsWith_iff (by decide) h).mpr (List.prefix_refl _))]

/-- **Leftovers.** `shell_runcmd` prints the same and leaves the same state for all
buffers that hold a line, in every state, if and only if the line is not
`filesize` without an argument. -/
theorem runcmd_depends_on_line_iff {World : Type}
    (processCommand : ProcessCommand → World → Outcome (List UInt8 × World)) (world : World)
    (line : CString) (len : Nat) :
    (∀ env fuel sh buffer buffer', HoldsLine buffer line → HoldsLine buffer' line →
      shellRuncmd processCommand env fuel buffer len sh world =
        shellRuncmd processCommand env fuel buffer' len sh world) ↔
      ¬ (len ≠ 0 ∧ line.bytes = ascii "filesize") := by
  constructor
  · rintro h ⟨hLen, hLine⟩
    have hHolds : ∀ text, HoldsLine (filesizeLine text) line := by
      intro text
      unfold HoldsLine
      rw [hLine]
      exact filesizeLine_holds text
    -- in a directory without entries the name is part of the message
    have hOut : ∀ c : UInt8, c ≠ 0 →
        shellRuncmd processCommand (sampleShellEnv sampleDisk) 600 (filesizeLine [c]) len
          ⟨0, ⟨[], fun _ => 0⟩⟩ world =
        .done (ascii "filesize: " ++ [c] ++ ascii ": no such file or directory\n",
          ⟨0, ⟨[], fun _ => 0⟩⟩, world) := by
      intro c hc
      have hString : StringAt (filesizeLine [c]) 9 [c] := by
        exact stringAt_cons.mpr ⟨rfl, by simp, rfl⟩
      unfold shellRuncmd
      rw [shellCommand_filesize (filesizeLine_holds [c]) hLen,
        stringAt_spec (by simpa using hc.symm) hString, if_pos (by simp), Outcome.map_done,
        Outcome.bind_done]
      rfl
    have hSame :=
      h (sampleShellEnv sampleDisk) 600 ⟨0, ⟨[], fun _ => 0⟩⟩ (filesizeLine [0x61])
      (filesizeLine [0x62]) (hHolds _) (hHolds _)
    rw [hOut 0x61 (by decide), hOut 0x62 (by decide)] at hSame
    simp at hSame
  · intro hLine env fuel sh buffer buffer' hBuffer hBuffer'
    unfold shellRuncmd
    rw [shellCommand_congr hBuffer hBuffer' hLine fuel]

/-- The shell after `vfs_init` and `shell_init`. -/
def rootShell : Shell := ⟨0x1000, ⟨[], vfsInit (sampleEnv sampleDisk) fun _ => 0⟩⟩

/-- The line `filesize`, typed after the line `filesize mnt` and typed first: the
output is not the same. -/
theorem filesize_reads_behind_line :
    HoldsLine (filesizeLine (ascii "mnt")) ⟨ascii "filesize", by decide⟩ ∧
    HoldsLine (filesizeLine []) ⟨ascii "filesize", by decide⟩ ∧
    (shellRuncmd idleProcesses (sampleShellEnv sampleDisk) 600 (filesizeLine (ascii "mnt")) 8
      rootShell ()).toOption.map (·.1) = some (ascii "filesize: mnt: is a directory\n") ∧
    (shellRuncmd idleProcesses (sampleShellEnv sampleDisk) 600 (filesizeLine []) 8
      rootShell ()).toOption.map (·.1) = some (ascii "filesize: : no such file or directory\n") :=
  ⟨filesizeLine_holds _, filesizeLine_holds _, by decide +kernel, by decide +kernel⟩

end Hexos
