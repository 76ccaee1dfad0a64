import Hexos.Lib.Loop
import Mathlib.Algebra.Group.Nat.Defs
import Mathlib.Logic.Function.Basic

/-!
# HexOS — the terminal

`kernel/arch/i386/tty.c`: a cursor and the buffer of the VGA text mode, 80
columns by 25 rows of 16-bit entries, the character in the low byte. The cursor
is a pair of 32-bit unsigned words. A write outside the buffer is a failure
here; in the kernel it would go to whatever memory comes next.
-/

namespace Hexos

/-- `VGA_WIDTH`. -/
def vgaWidth : Nat := 80

/-- `VGA_HEIGHT`. -/
def vgaHeight : Nat := 25

/-- `make_color`. -/
def makeColor (fg bg : Nat) : UInt8 := UInt8.ofNat (fg ||| bg <<< 4)

/-- `make_vgaentry`; `char` is signed, so a character from `0x80` on sets the
whole high byte. -/
def makeVgaentry (c color : UInt8) : BitVec 16 :=
  c.toBitVec.signExtend 16 ||| (color.toBitVec.setWidth 16 <<< 8)

/-- The character of an entry. -/
def entryChar (e : BitVec 16) : UInt8 := ⟨e.setWidth 8⟩

/-- The variables of `tty.c`, with the entries that `terminal_buffer` points
to. -/
structure Tty where
  row    : Nat
  column : Nat
  color  : UInt8
  buffer : Nat → BitVec 16

namespace Tty

/-- `terminal_buffer[index] = entry`. -/
def store (t : Tty) (index : Nat) (entry : BitVec 16) : Option Tty :=
  if index < vgaHeight * vgaWidth then
    some { t with buffer := Function.update t.buffer index entry }
  else none

/-- `terminal_putentryat`. -/
def terminalPutentryat (t : Tty) (c color : UInt8) (x y : Nat) : Option Tty :=
  let index := (y * vgaWidth + x) % 2 ^ 32
  t.store index (makeVgaentry c color)

/-- `terminal_initialize`, from any values of the variables. -/
def terminalInitialize (t : Tty) : Option Tty :=
  -- COLOR_LIGHT_GREY on COLOR_BLACK
  let t := { t with row := 0, column := 0, color := makeColor 7 0 }
  Loop.run (fun y => Loop.run (fun x t =>
    let index := y * vgaWidth + x
    t.store index (makeVgaentry 32 t.color)) vgaWidth 0) vgaHeight 0 t

/-- The first loops of `terminal_scrollup`: the rows are copied within the
buffer, from the top down. -/
def copyRows (t : Tty) : Option Tty :=
  Loop.run (fun y => Loop.run (fun x t =>
    let index := y * vgaWidth + x
    if y ≠ 0 then t.store (index - vgaWidth) (t.buffer index) else some t)
      vgaWidth 0) vgaHeight 0 t

/-- Its last loop: the last line is cleared. -/
def clearLastLine (t : Tty) : Option Tty :=
  Loop.run (fun x t => t.store ((vgaHeight - 1) * vgaWidth + x) (makeVgaentry 32 t.color))
    vgaWidth 0 t

/-- `terminal_scrollup`. -/
def terminalScrollup (t : Tty) : Option Tty := t.copyRows.bind clearLastLine

/-- `terminal_setcolor`. -/
def terminalSetcolor (t : Tty) (color : UInt8) : Tty := { t with color := color }

/-- The lines of `terminal_putchar` that go to the next row. -/
def nextRow (t : Tty) : Option Tty := do
  let t := { t with column := 0, row := t.row + 1 }
  if t.row = vgaHeight then
    let t ← t.terminalScrollup
    some { t with row := t.row - 1 }
  else some t

/-- `terminal_putchar`. -/
def terminalPutchar (t : Tty) (c : UInt8) : Option Tty :=
  if c = 13 then some { t with column := 0 }
  else if c = 10 then t.nextRow
  else do
    let t ← t.terminalPutentryat c t.color t.column t.row
    let t := { t with column := (t.column + 1) % 2 ^ 32 }
    if t.column = vgaWidth then t.nextRow else some t

/-- `terminal_write`. -/
def terminalWrite (t : Tty) : List UInt8 → Option Tty
  | [] => some t
  | c :: data => (t.terminalPutchar c).bind fun t => t.terminalWrite data

/-- `terminal_deletechar`. The test for a column below 0 is never true of an
unsigned word. -/
def terminalDeletechar (t : Tty) : Option Tty :=
  let t := { t with column := (t.column + 2 ^ 32 - 1) % 2 ^ 32 }
  let t :=
    if t.column < 0 then { t with row := (t.row + 2 ^ 32 - 1) % 2 ^ 32, column := vgaWidth - 1 }
    else t
  t.terminalPutentryat 32 t.color t.column t.row

end Tty

end Hexos
