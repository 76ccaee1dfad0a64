import Hexos.Lib.Storage
import Hexos.Lib.Transition
import Hexos.Libc.PrintfInt
import Hexos.Shell.Definitions

/-!
# HexOS — what the shell is for

The shell is a walk on a tree of directories: it stands in one of them and answers
each command from what the tree has there. There are no nodes, links or buffers at
this level, and nothing can fail but the command itself.

## Results

* `Browses` — the commands and their answers.
* `browse_tour` — a way down and as many `cd ..`.
-/

namespace Hexos

open Dialogue

section Browser

variable {δ World : Type} (t : FileTree δ (List UInt8) UInt8)
  (processCommand : ProcessCommand → World → Outcome (List UInt8 × World))

/-- One command in a directory: the answer, and the directory after it. -/
inductive Browses : Turn (δ × World) Command (List UInt8)
  | empty {st : δ × World} : Browses st .empty [] st
  | uname {st : δ × World} : Browses st .uname (ascii "HexOS\n") st
  | ls {st : δ × World} :
      Browses st .ls ((t.listing st.1).flatMap fun name => name ++ ascii "\n") st
  | cdUp {d e : δ} {world : World} : t.above d = some e →
      Browses (d, world) (.cd CString.dotDot) [] (e, world)
  | cdTop {d : δ} {world : World} : t.above d = none →
      Browses (d, world) (.cd CString.dotDot) (ascii "cd: cannot go up further\n") (d, world)
  | cdDown {d e : δ} {world : World} {dest : CString} : dest ≠ CString.dotDot →
      t.find d dest.bytes = some (.dir e) → Browses (d, world) (.cd dest) [] (e, world)
  | cdFile {st : δ × World} {dest : CString} {content : List UInt8} : dest ≠ CString.dotDot →
      t.find st.1 dest.bytes = some (.file content) →
      Browses st (.cd dest) (ascii "cd: " ++ dest.bytes ++ ascii ": is a file\n") st
  | cdMissing {st : δ × World} {dest : CString} : dest ≠ CString.dotDot →
      t.find st.1 dest.bytes = none →
      Browses st (.cd dest) (ascii "cd: " ++ dest.bytes ++ ascii ": no such file or directory\n") st
  | cat {st : δ × World} {dest : CString} {content : List UInt8} :
      t.find st.1 dest.bytes = some (.file content) →
      Browses st (.cat dest) (content ++ ascii "\n") st
  | catDir {st : δ × World} {dest : CString} {e : δ} : t.find st.1 dest.bytes = some (.dir e) →
      Browses st (.cat dest) (ascii "cat: " ++ dest.bytes ++ ascii ": is a directory\n") st
  | catMissing {st : δ × World} {dest : CString} : t.find st.1 dest.bytes = none →
      Browses st (.cat dest)
        (ascii "cat: " ++ dest.bytes ++ ascii ": no such file or directory\n") st
  | filesize {st : δ × World} {dest : CString} {content digits : List UInt8} :
      t.find st.1 dest.bytes = some (.file content) → IsDecimal content.length digits →
      Browses st (.filesize dest) (digits ++ ascii "\n") st
  | filesizeDir {st : δ × World} {dest : CString} {e : δ} :
      t.find st.1 dest.bytes = some (.dir e) →
      Browses st (.filesize dest)
        (ascii "filesize: " ++ dest.bytes ++ ascii ": is a directory\n") st
  | filesizeMissing {st : δ × World} {dest : CString} : t.find st.1 dest.bytes = none →
      Browses st (.filesize dest)
        (ascii "filesize: " ++ dest.bytes ++ ascii ": no such file or directory\n") st
  | pwd {st : δ × World} : Browses st .pwd (ascii "hex\n") st
  | mem {st : δ × World} : Browses st .mem (ascii "TODO: this\n") st
  | exit {d : δ} {world world' : World} {text : List UInt8} :
      processCommand .exit world = .done (text, world') →
      Browses (d, world) (.process .exit) (ascii "bye\n" ++ text) (d, world')
  | process {d : δ} {world world' : World} {command : ProcessCommand} {text : List UInt8} :
      command ≠ .exit → processCommand command world = .done (text, world') →
      Browses (d, world) (.process command) text (d, world')
  | unknown {st : δ × World} : Browses st .unknown (ascii "Unknown or invalid command!\n") st

variable {t processCommand} {st st' st'' : δ × World} {names : List CString}

theorem Browses.ls_text {text : List UInt8} (h : Browses t processCommand st .ls text st') :
    text = (t.listing st.1).flatMap fun name => name ++ ascii "\n" := by
  cases h
  rfl

/-- The answer to `cat` is a matter of the directory. -/
theorem Browses.cat_text {text : List UInt8} {dest : CString}
    (h : Browses t processCommand st (.cat dest) text st') :
    text = match t.find st.1 dest.bytes with
      | none => ascii "cat: " ++ dest.bytes ++ ascii ": no such file or directory\n"
      | some (.dir _) => ascii "cat: " ++ dest.bytes ++ ascii ": is a directory\n"
      | some (.file content) => content ++ ascii "\n" := by
  cases h with
  | cat hFind => rw [hFind]
  | catDir hFind => rw [hFind]
  | catMissing hFind => rw [hFind]

/-- Only `cd name` into a directory is silent. -/
theorem Browses.quiet_down {dest : CString} (hDest : dest ≠ CString.dotDot)
    (h : Browses t processCommand st (.cd dest) [] st') :
    t.find st.1 dest.bytes = some (.dir st'.1) := by
  generalize hText : ([] : List UInt8) = text at h
  cases h with
  | cdUp _ => exact absurd rfl hDest
  | cdTop _ => exact absurd rfl hDest
  | cdDown _ hFind => exact hFind
  | cdFile _ _ => simp [ascii] at hText
  | cdMissing _ _ => simp [ascii] at hText

/-- Only `cd ..` where there is a directory above is silent. -/
theorem Browses.quiet_up (h : Browses t processCommand st (.cd CString.dotDot) [] st') :
    t.above st.1 = some st'.1 := by
  generalize hText : ([] : List UInt8) = text at h
  cases h with
  | cdUp hAbove => exact hAbove
  | cdTop _ => simp [ascii] at hText
  | cdDown hDest _ => exact absurd rfl hDest
  | cdFile hDest _ => exact absurd rfl hDest
  | cdMissing hDest _ => exact absurd rfl hDest

theorem Browses.down (hNames : CString.dotDot ∉ names)
    (h : Run (Browses t processCommand) st (names.map fun name => (.cd name, [])) st') :
    t.Down st.1 (names.map CString.bytes) st'.1 := by
  induction names generalizing st with
  | nil =>
    cases h
    exact .nil _
  | cons name names ih =>
    obtain ⟨hName, hRest⟩ : name ≠ CString.dotDot ∧ CString.dotDot ∉ names := by
      simpa [eq_comm] using hNames
    cases h with
    | cons hTurn hRun => exact .cons (hTurn.quiet_down hName) (ih hRest hRun)

theorem Browses.up {k : Nat}
    (h : Run (Browses t processCommand) st (List.replicate k (.cd CString.dotDot, [])) st') :
    t.Up st.1 k st'.1 := by
  induction k generalizing st with
  | zero =>
    cases h
    exact .zero _
  | succ k ih =>
    cases h with
    | cons hTurn hRun => exact .succ hTurn.quiet_up (ih hRun)

/-- **A tour** of the tree ends where it began. -/
theorem browse_tour (hNames : CString.dotDot ∉ names)
    (hDown : Run (Browses t processCommand) st (names.map fun name => (.cd name, [])) st')
    (hUp : Run (Browses t processCommand) st' (List.replicate names.length (.cd CString.dotDot, []))
      st'') : st''.1 = st.1 := by
  have hBack := FileTree.up_down (Browses.down hNames hDown)
  rw [List.length_map] at hBack
  exact (Browses.up hUp).unique hBack

end Browser

end Hexos
