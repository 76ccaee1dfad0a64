import Hexos.Lib.Transition
import Hexos.Tty.Layout

/-!
# HexOS — the cursor and backspace

`terminal_deletechar` steps back by one column and blanks the cell. At the start
of a row it should go to the end of the row above, but the test for that case is
never true: the column wraps around to `2 ^ 32 - 1`.

## Results

* `terminalPutchar_onScreen` — no character takes the cursor off the screen.
* `terminalDeletechar_inside`, `terminalDeletechar_rowStart` — one step back.
* `cursor_on_screen_unless_row_start` — runs that never step back over the start
  of a row.
-/

namespace Hexos

open Transition

namespace Tty

/-- The cursor is on the screen. -/
def OnScreen (t : Tty) : Prop := t.row < 25 ∧ t.column < 80

/-- A character that is written at the cursor. -/
def Printable (c : UInt8) : Prop := c ≠ 13 ∧ c ≠ 10

instance (c : UInt8) : Decidable (Printable c) := inferInstanceAs (Decidable (_ ∧ _))

/-- `terminal_deletechar` after `terminal_putchar(c)` returns to the position before,
one row higher if the screen was scrolled, and leaves a blank there. -/
def TakesBack (t : Tty) (c : UInt8) : Prop :=
  ∃ t₁ t₂, t.terminalPutchar c = some t₁ ∧ t₁.terminalDeletechar = some t₂ ∧
    t₂.row = (if t.row = 24 ∧ t.column = 79 then t.row - 1 else t.row) ∧
    t₂.column = t.column ∧ entryChar (t₂.buffer (t₂.row * 80 + t₂.column)) = 32

end Tty

/-- The terminal, and the number of printable characters not yet deleted. -/
structure TtyRun where
  tty       : Tty
  undeleted : Nat

/-- One character, or one character taken back when one is left and the guard
allows it. -/
inductive TtyStep (Guard : Tty → Prop) : TtyRun → TtyRun → Prop
  | putchar {s : TtyRun} {c : UInt8} {t : Tty} : s.tty.terminalPutchar c = some t →
      TtyStep Guard s ⟨t, if Tty.Printable c then s.undeleted + 1 else s.undeleted⟩
  | deletechar {s : TtyRun} {t : Tty} : 0 < s.undeleted → Guard s.tty →
      s.tty.terminalDeletechar = some t → TtyStep Guard s ⟨t, s.undeleted - 1⟩

/-- All runs from `terminal_initialize`, in which `terminal_deletechar` is called in
states of the guard only. -/
def ttySystem (Guard : Tty → Prop) : System TtyRun where
  init s := s.undeleted = 0 ∧ ∃ t : Tty, t.terminalInitialize = some s.tty
  step := TtyStep Guard

-- ---------------------------------------------------------------------------
-- One character
-- ---------------------------------------------------------------------------

namespace Tty

variable {t : Tty}

theorem terminalPutentryat_eq (t : Tty) (c : UInt8) {x y : Nat} (hx : x < 80) (hy : y < 25) :
    t.terminalPutentryat c t.color x y = some
      { t with buffer := Function.update t.buffer (y * 80 + x) (makeVgaentry c t.color) } := by
  simp only [terminalPutentryat, vgaWidth]
  rw [Nat.mod_eq_of_lt (show y * 80 + x < 2 ^ 32 by omega), store_eq t _ (by omega)]

theorem nextRow_onScreen (h : t.row < 25) :
    ∃ t', t.nextRow = some t' ∧ t'.row < 25 ∧ t'.column = 0 := by
  rw [nextRow]
  by_cases hLast : t.row + 1 = vgaHeight
  · obtain ⟨t', hScroll, hCursor, -⟩ :=
      terminalScrollup_spec { t with column := 0, row := t.row + 1 }
    have hRow : t'.row = t.row + 1 := hCursor.1
    refine ⟨{ t' with row := t'.row - 1 }, ?_, ?_, hCursor.2.1⟩
    · rw [if_pos hLast, hScroll]
      rfl
    · show t'.row - 1 < 25
      omega
  · refine ⟨{ t with column := 0, row := t.row + 1 }, if_neg hLast, ?_, rfl⟩
    show t.row + 1 < 25
    simp only [vgaHeight] at hLast
    omega

/-- A printable character: the cursor goes one column on, or to the start of the
next row. -/
theorem terminalPutchar_printable (h : t.OnScreen) {c : UInt8} (hc : Printable c) :
    t.terminalPutchar c =
      if t.column = 79 then
        nextRow { t with
          column := 80
          buffer := Function.update t.buffer (t.row * 80 + t.column) (makeVgaentry c t.color) }
      else some { t with
        column := t.column + 1
        buffer := Function.update t.buffer (t.row * 80 + t.column) (makeVgaentry c t.color) } := by
  rw [terminalPutchar, if_neg hc.1, if_neg hc.2, terminalPutentryat_eq t c h.2 h.1]
  have hColumn : (t.column + 1) % 2 ^ 32 = t.column + 1 := Nat.mod_eq_of_lt (by have := h.2; omega)
  simp only [Option.bind_eq_bind, Option.bind_some, hColumn, vgaWidth]
  by_cases hWrap : t.column = 79
  · rw [if_pos hWrap, if_pos (by omega), hWrap]
  · rw [if_neg hWrap, if_neg (by omega)]

/-- **Step lemma**, a character. -/
theorem terminalPutchar_onScreen (h : t.OnScreen) (c : UInt8) :
    ∃ t', t.terminalPutchar c = some t' ∧ t'.OnScreen := by
  by_cases hPrintable : Printable c
  · rw [terminalPutchar_printable h hPrintable]
    by_cases hWrap : t.column = 79
    · rw [if_pos hWrap]
      obtain ⟨t', hNext, hRow, hColumn⟩ := nextRow_onScreen (t := { t with
        column := 80
        buffer := Function.update t.buffer (t.row * 80 + t.column) (makeVgaentry c t.color) }) h.1
      exact ⟨t', hNext, hRow, by omega⟩
    · rw [if_neg hWrap]
      refine ⟨_, rfl, h.1, ?_⟩
      have := h.2
      show t.column + 1 < 80
      omega
  · rw [terminalPutchar]
    by_cases hReturn : c = 13
    · rw [if_pos hReturn]
      exact ⟨_, rfl, h.1, Nat.zero_lt_succ 79⟩
    · have hNewline : c = 10 := by
        by_contra hc
        exact hPrintable ⟨hReturn, hc⟩
      rw [if_neg hReturn, if_pos hNewline]
      obtain ⟨t', hNext, hRow, hColumn⟩ := nextRow_onScreen h.1
      exact ⟨t', hNext, hRow, by omega⟩

-- ---------------------------------------------------------------------------
-- One step back
-- ---------------------------------------------------------------------------

/-- Inside a row the cursor goes back by one and the cell becomes blank. -/
theorem terminalDeletechar_inside (h : t.OnScreen) (hColumn : t.column ≠ 0) :
    t.terminalDeletechar = some { t with
      column := t.column - 1
      buffer :=
        Function.update t.buffer (t.row * 80 + (t.column - 1)) (makeVgaentry 32 t.color) } := by
  obtain ⟨hRow, hWidth⟩ := h
  have hBack : (t.column + 2 ^ 32 - 1) % 2 ^ 32 = t.column - 1 := by omega
  simp only [terminalDeletechar, hBack, Nat.not_lt_zero, if_false]
  exact terminalPutentryat_eq { t with column := t.column - 1 } 32
    (show t.column - 1 < 80 by omega) hRow

/-- At the start of a row the column wraps around. -/
theorem terminalDeletechar_rowStart {t' : Tty} (hColumn : t.column = 0)
    (h : t.terminalDeletechar = some t') : t'.column = 2 ^ 32 - 1 := by
  have hBack : (t.column + 2 ^ 32 - 1) % 2 ^ 32 = 2 ^ 32 - 1 := by omega
  simp only [terminalDeletechar, hBack, Nat.not_lt_zero, if_false, terminalPutentryat, store] at h
  split at h
  · rw [← Option.some.inj h]
  · cases h

/-- A printable character is taken back exactly when it was not put into the last
column. -/
theorem takesBack_iff (h : t.OnScreen) {c : UInt8} (hc : Printable c) :
    t.TakesBack c ↔ t.column ≠ 79 := by
  unfold TakesBack
  rw [terminalPutchar_printable h hc]
  constructor
  · rintro ⟨t₁, t₂, hPut, hDelete, -, hColumn, -⟩ hWrap
    rw [if_pos hWrap] at hPut
    obtain ⟨t', hNext, -, hStart⟩ := nextRow_onScreen (t := { t with
      column := 80
      buffer := Function.update t.buffer (t.row * 80 + t.column) (makeVgaentry c t.color) }) h.1
    rw [hNext] at hPut
    obtain rfl := Option.some.inj hPut
    have := terminalDeletechar_rowStart hStart hDelete
    omega
  · intro hColumn
    have hWidth := h.2
    rw [if_neg hColumn]
    refine ⟨_, _, rfl, terminalDeletechar_inside ⟨h.1, ?_⟩ (Nat.succ_ne_zero t.column),
      ?_, ?_, ?_⟩
    · show t.column + 1 < 80
      omega
    · rw [if_neg fun hc => hColumn hc.2]
    · exact Nat.add_sub_cancel t.column 1
    · simp only [Function.update_self]
      exact entryChar_makeVgaentry 32 t.color

end Tty

-- ---------------------------------------------------------------------------
-- Runs
-- ---------------------------------------------------------------------------

/-- **Step lemma.** A step that does not go back over the start of a row leaves the
cursor on the screen. -/
theorem TtyStep.onScreen {s s' : TtyRun} (h : s.tty.OnScreen)
    (hStep : TtyStep (fun t => t.column ≠ 0) s s') : s'.tty.OnScreen := by
  cases hStep with
  | @putchar c t hPut =>
    obtain ⟨t', hPut', h'⟩ := Tty.terminalPutchar_onScreen h c
    rw [hPut] at hPut'
    obtain rfl := Option.some.inj hPut'
    exact h'
  | @deletechar t _ hColumn hDelete =>
    rw [Tty.terminalDeletechar_inside h hColumn] at hDelete
    obtain rfl := Option.some.inj hDelete
    have := h.2
    refine ⟨h.1, ?_⟩
    show s.tty.column - 1 < 80
    omega

/-- **Cursor and backspace.** In every state that a run reaches which never steps
back over the start of a row, the cursor is on the screen, every character can be
put, and a printable character is taken back unless it fills its row. -/
theorem cursor_on_screen_unless_row_start (s : TtyRun)
    (hs : Reachable (ttySystem fun t => t.column ≠ 0) s) :
    s.tty.row < 25 ∧ s.tty.column < 80 ∧
      (∀ c, ∃ t', s.tty.terminalPutchar c = some t') ∧
      ∀ c, c ≠ 13 → c ≠ 10 → (s.tty.TakesBack c ↔ s.tty.column ≠ 79) := by
  have hScreen : s.tty.OnScreen := by
    refine Reachable.invariant (I := fun s => s.tty.OnScreen) ?_ ?_ hs
    · rintro s ⟨-, t, hInit⟩
      obtain ⟨t', hInit', hRow, hColumn, -⟩ := Tty.terminalInitialize_spec t
      rw [hInit] at hInit'
      obtain rfl : s.tty = t' := Option.some.inj hInit'
      exact ⟨by omega, by omega⟩
    · intro s s' _ h hStep
      exact TtyStep.onScreen h hStep
  refine ⟨hScreen.1, hScreen.2, ?_, ?_⟩
  · intro c
    obtain ⟨t', hPut, -⟩ := Tty.terminalPutchar_onScreen hScreen c
    exact ⟨t', hPut⟩
  · intro c hReturn hNewline
    exact Tty.takesBack_iff hScreen ⟨hReturn, hNewline⟩

/-- Printable characters one after another are a run. -/
theorem terminalWrite_reachable {Guard : Tty → Prop} {s : TtyRun}
    (hs : Reachable (ttySystem Guard) s) {data : List UInt8}
    (hData : ∀ c ∈ data, Tty.Printable c) {t : Tty} (h : s.tty.terminalWrite data = some t) :
    Reachable (ttySystem Guard) ⟨t, s.undeleted + data.length⟩ := by
  induction data generalizing s with
  | nil =>
    obtain rfl : s.tty = t := Option.some.inj h
    exact hs
  | cons c data ih =>
    rw [Tty.terminalWrite, Option.bind_eq_some_iff] at h
    obtain ⟨t₁, hPut, hRest⟩ := h
    have hStep : TtyStep Guard s ⟨t₁, s.undeleted + 1⟩ := by
      have hPutchar :
          TtyStep Guard s ⟨t₁, if Tty.Printable c then s.undeleted + 1 else s.undeleted⟩ :=
        .putchar hPut
      rwa [if_pos (hData c List.mem_cons_self)] at hPutchar
    have hRun := ih (.step hs hStep) (fun d hd => hData d (List.mem_cons_of_mem c hd)) hRest
    rwa [List.length_cons, Nat.add_comm data.length, ← Nat.add_assoc]

/-- A terminal before `terminal_initialize`. -/
def sampleTty : Tty := ⟨0, 0, 0, fun _ => 0⟩

/-- Two characters, and the second of them taken back: the cursor is in column 1. -/
theorem cursor_on_screen_after_delete :
    ∃ s, Reachable (ttySystem fun t => t.column ≠ 0) s ∧ s.undeleted = 1 ∧
      s.tty.column = 1 ∧
      (s.tty.row < 25 ∧ s.tty.column < 80 ∧
        (∀ c, ∃ t', s.tty.terminalPutchar c = some t') ∧
        ∀ c, c ≠ 13 → c ≠ 10 → (s.tty.TakesBack c ↔ s.tty.column ≠ 79)) := by
  have hEval :
      (sampleTty.terminalInitialize.bind fun t => t.terminalWrite [0x61, 0x62]).bind (fun t =>
      t.terminalDeletechar.map fun t' => (t.column, t'.column)) = some (2, 1) := by decide +kernel
  obtain ⟨t, hWritten, hBack⟩ := Option.bind_eq_some_iff.mp hEval
  obtain ⟨t₀, hInit, hWrite⟩ := Option.bind_eq_some_iff.mp hWritten
  obtain ⟨t', hDelete, hColumns⟩ := Option.map_eq_some_iff.mp hBack
  obtain ⟨hColumn, hColumn'⟩ := Prod.mk.inj hColumns
  have hPrintable : ∀ c ∈ [(0x61 : UInt8), 0x62], Tty.Printable c :=
    List.forall_mem_cons.mpr ⟨by decide, List.forall_mem_singleton.mpr (by decide)⟩
  have hs : Reachable (ttySystem fun t => t.column ≠ 0) ⟨t, 0 + 2⟩ :=
    terminalWrite_reachable (s := ⟨t₀, 0⟩) (.init ⟨rfl, sampleTty, hInit⟩) hPrintable hWrite
  have hGuard : t.column ≠ 0 := by
    rw [hColumn]
    decide
  have hs' : Reachable (ttySystem fun t => t.column ≠ 0) ⟨t', 1⟩ :=
    .step hs (.deletechar Nat.zero_lt_two hGuard hDelete)
  exact ⟨⟨t', 1⟩, hs', rfl, hColumn', cursor_on_screen_unless_row_start ⟨t', 1⟩ hs'⟩

/-- The 80 characters of a row, and the last of them taken back: the column is
`2 ^ 32 - 1`. -/
theorem cursor_leaves_screen :
    ∃ s, Reachable (ttySystem fun _ => True) s ∧ s.tty.column = 2 ^ 32 - 1 := by
  have hEval : ((sampleTty.terminalInitialize.bind fun t =>
      t.terminalWrite (List.replicate 80 0x61)).bind Tty.terminalDeletechar).map (·.column) =
      some (2 ^ 32 - 1) := by decide +kernel
  obtain ⟨t', hRun, hColumn⟩ := Option.map_eq_some_iff.mp hEval
  obtain ⟨t, hWritten, hDelete⟩ := Option.bind_eq_some_iff.mp hRun
  obtain ⟨t₀, hInit, hWrite⟩ := Option.bind_eq_some_iff.mp hWritten
  have hs : Reachable (ttySystem fun _ => True) ⟨t, 0 + 80⟩ :=
    terminalWrite_reachable (s := ⟨t₀, 0⟩) (.init ⟨rfl, sampleTty, hInit⟩)
      (fun c hc => List.eq_of_mem_replicate hc ▸ by decide) hWrite
  exact ⟨_, .step hs (.deletechar (Nat.lt_add_left 0 (Nat.zero_lt_succ 79)) trivial hDelete),
    hColumn⟩

end Hexos
