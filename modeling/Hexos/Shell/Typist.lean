import Hexos.Io.Keyboard
import Hexos.Shell.Browser
import Hexos.Shell.Line
import Hexos.Tty.Layout

/-!
# HexOS — what typing is for

Someone sits at the keyboard and looks at the screen. The keys make a line, the enter
key makes the line a command, and the page shows all that has been said so far with
the line that is being typed. There is no flag for the shift keys at this level, no
array for the line and no buffer for the screen.

## Results

* `Types` — one byte of the keyboard.
* `Types.answers` — the lines entered are a walk on the tree.
-/

namespace Hexos

open Dialogue

-- ---------------------------------------------------------------------------
-- Lines and keys
-- ---------------------------------------------------------------------------

/-- The string up to the first NUL. -/
def CString.upTo (bytes : List UInt8) : CString where
  bytes := bytes.takeWhile (· ≠ 0)
  nonzero h := by simpa using List.mem_takeWhile_imp h

/-- What a line asks for. The argument of `filesize` is what follows one character,
whichever it is. -/
def lineCommand (line : List UInt8) : Command :=
  if line = [] then .empty
  else if line = ascii "uname" then .uname
  else if line = ascii "ls" then .ls
  else if ascii "cd " <+: line then .cd (.upTo (line.drop 3))
  else if ascii "cat " <+: line then .cat (.upTo (line.drop 4))
  else if ascii "filesize" <+: line then .filesize (.upTo (line.drop 9))
  else if line = ascii "pwd" then .pwd
  else if line = ascii "mem" then .mem
  else if line = ascii "dump" then .process .dump
  else if line = ascii "top" then .process .top
  else if line = ascii "proctest" then .process .proctest
  else if line = ascii "memtest" then .process .memtest
  else if line = ascii "exit" then .process .exit
  else .unknown

/-- The character that a byte of the keyboard stands for after the bytes before it:
the release of a key and a key without a character stand for none. -/
def keyMeans (before : List (BitVec 8)) (scancode : BitVec 8) : Option UInt8 :=
  if scancode &&& 0x80 ≠ 0 ∨ charOf scancodeMap scancode = 0 then none
  else some (charOf (if ShiftHeld before then shiftMap else scancodeMap) scancode)

-- ---------------------------------------------------------------------------
-- The sitting
-- ---------------------------------------------------------------------------

/-- What has come of a sitting at the keyboard so far. -/
structure Sitting (δ World : Type) where
  keys  : List (BitVec 8)
  log   : List (List UInt8 × List UInt8)
  line  : List UInt8
  place : δ × World

/-- The text that was shown at the start, every line with its answer and the prompt after
it, and the line that is being typed. -/
def Sitting.shown {δ World : Type} (greeting : List UInt8) (s : Sitting δ World) : List UInt8 :=
  greeting ++ (s.log.flatMap fun (line, text) => line ++ ascii "\n" ++ text ++ ascii "> ") ++ s.line

section Typist

variable {δ World : Type} (t : FileTree δ (List UInt8) UInt8)
  (processCommand : ProcessCommand → World → Outcome (List UInt8 × World))

/-- One byte of the keyboard. -/
inductive Types : Turn (Sitting δ World) (BitVec 8) Unit
  | still {s : Sitting δ World} {scancode : BitVec 8} : keyMeans s.keys scancode = none →
      Types s scancode () { s with keys := s.keys ++ [scancode] }
  | edit {s : Sitting δ World} {scancode : BitVec 8} {c : UInt8} :
      keyMeans s.keys scancode = some c → c ≠ 10 →
      Types s scancode () { s with keys := s.keys ++ [scancode], line := editLine s.line c }
  | enter {s : Sitting δ World} {scancode : BitVec 8} {text : List UInt8} {place' : δ × World} :
      keyMeans s.keys scancode = some 10 →
      Browses t processCommand s.place (lineCommand s.line) text place' →
      Types s scancode () ⟨s.keys ++ [scancode], s.log ++ [(s.line, text)], [], place'⟩

variable {t processCommand} {s s' : Sitting δ World}

/-- **The lines entered** are a walk on the tree. The induction is on the bytes. -/
theorem Types.answers {keys : List (BitVec 8 × Unit)}
    (h : Run (Types t processCommand) s keys s') :
    ∃ log, s'.log = s.log ++ log ∧
      Run (Browses t processCommand) s.place
        (log.map fun (line, text) => (lineCommand line, text)) s'.place := by
  induction h with
  | nil s => exact ⟨[], (List.append_nil _).symm, .nil _⟩
  | cons hTurn _ ih =>
    obtain ⟨log, hLog, hRun⟩ := ih
    cases hTurn with
    | still _ => exact ⟨log, hLog, hRun⟩
    | edit _ _ => exact ⟨log, hLog, hRun⟩
    | enter _ hBrowse =>
      exact ⟨_ :: log, hLog.trans (List.append_assoc _ _ _), .cons hBrowse hRun⟩

/-- An answer has no carriage return or ends with its line, if the commands on processes
write none. -/
theorem Browses.text_ends {command : Command} {text : List UInt8} {st st' : δ × World}
    (hProcess : ∀ command world text world', processCommand command world =
      .done (text, world') →
      13 ∉ text)
    (h : Browses t processCommand st command text st') : 13 ∉ text ∨ ascii "\n" <:+ text := by
  have hMessage : ∀ {before message : List UInt8}, ascii "\n" <:+ message →
      13 ∉ before ++ message ∨ ascii "\n" <:+ before ++ message :=
    fun h => .inr (h.trans (List.suffix_append _ _))
  cases h with
  | empty => exact .inl List.not_mem_nil
  | uname => exact .inr (by decide)
  | ls =>
    induction t.listing st.1 using List.reverseRecOn with
    | nil => exact .inl List.not_mem_nil
    | append_singleton names name _ =>
      rw [List.flatMap_append, List.flatMap_singleton, ← List.append_assoc]
      exact hMessage (List.suffix_refl _)
  | cdUp _ => exact .inl List.not_mem_nil
  | cdTop _ => exact .inr (by decide)
  | cdDown _ _ => exact .inl List.not_mem_nil
  | cdFile _ _ => exact hMessage (by decide)
  | cdMissing _ _ => exact hMessage (by decide)
  | cat _ => exact hMessage (List.suffix_refl _)
  | catDir _ => exact hMessage (by decide)
  | catMissing _ => exact hMessage (by decide)
  | filesize _ _ => exact hMessage (List.suffix_refl _)
  | filesizeDir _ => exact hMessage (by decide)
  | filesizeMissing _ => exact hMessage (by decide)
  | pwd => exact .inr (by decide)
  | mem => exact .inr (by decide)
  | exit hRun =>
    refine .inl ?_
    rw [List.mem_append, not_or]
    exact ⟨by decide, hProcess _ _ _ _ hRun⟩
  | process _ hRun => exact .inl (hProcess _ _ _ _ hRun)
  | unknown => exact .inr (by decide)

end Typist

end Hexos
