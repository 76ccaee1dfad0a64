import Hexos.Tty.Backspace

/-!
# HexOS — typing and taking back

While a line is typed the cells from the cursor on are blank, in its row and in all
rows below. A character that is taken back inside its row then leaves the page as it
was before it was typed, so that a page shows what is left of the line and no trace of
the rest.

## Results

* `Page.Open.put`, `Page.open_newline` — what keeps the page open at the cursor.
* `Page.back_put` — typing and taking back.
* `InStep.back` — `terminal_deletechar` inside a row.
-/

namespace Hexos

-- ---------------------------------------------------------------------------
-- Pages that are open at the cursor
-- ---------------------------------------------------------------------------

namespace Page

variable {p : Page}

/-- Nothing has been written below the cursor. -/
def Below (p : Page) : Prop := ∀ r x, p.row < r → p.cell r x = 32

/-- Nothing has been written from the cursor on. -/
structure Open (p : Page) : Prop where
  rest  : ∀ x, p.column ≤ x → p.cell p.row x = 32
  below : p.Below

/-- The last character taken back: the cursor goes back by one and leaves a blank. -/
def back (p : Page) : Page :=
  ⟨p.row, p.column - 1,
    Function.update p.cell p.row (Function.update (p.cell p.row) (p.column - 1) 32)⟩

theorem blank_open : blank.Open := ⟨fun _ _ => rfl, fun _ _ _ => rfl⟩

theorem put_return (p : Page) : p.put 13 = { p with column := 0 } := if_pos rfl

theorem put_newline (p : Page) : p.put 10 = { p with column := 0, row := p.row + 1 } := by
  rw [put, if_neg (by decide), if_pos rfl]

/-- A character is written at the cursor. -/
theorem put_printable (p : Page) {c : UInt8} (hc : Tty.Printable c) :
    p.put c =
      let cell := Function.update p.cell p.row (Function.update (p.cell p.row) p.column c)
      if p.column + 1 = 80 then ⟨p.row + 1, 0, cell⟩ else ⟨p.row, p.column + 1, cell⟩ := by
  rw [put, if_neg hc.1, if_neg hc.2]

theorem Below.put (h : p.Below) (c : UInt8) : (p.put c).Below := by
  have hCell : ∀ r x, p.row < r →
      Function.update p.cell p.row (Function.update (p.cell p.row) p.column c) r x = 32 := by
    intro r x hr
    rw [Function.update_of_ne (by omega), h r x hr]
  by_cases hReturn : c = 13
  · rw [hReturn, put_return]
    exact h
  by_cases hNewline : c = 10
  · rw [hNewline, put_newline]
    intro r x hr
    exact h r x (Nat.lt_of_succ_lt hr)
  rw [put_printable p ⟨hReturn, hNewline⟩]
  by_cases hWrap : p.column + 1 = 80
  · simp only [if_pos hWrap]
    intro r x hr
    exact hCell r x (Nat.lt_of_succ_lt hr)
  · simp only [if_neg hWrap]
    exact hCell

theorem Below.write (h : p.Below) (data : List UInt8) : (data.foldl Page.put p).Below := by
  induction data generalizing p with
  | nil => exact h
  | cons c data ih => exact ih (h.put c)

/-- A newline opens the page, whatever is in the row it leaves. -/
theorem open_newline (h : p.Below) : (p.put 10).Open := by
  rw [put_newline]
  exact ⟨fun x _ => h (p.row + 1) x (Nat.lt_succ_self _),
    fun r x hr => h r x (Nat.lt_of_succ_lt hr)⟩

/-- Only a carriage return goes back to what has been written. -/
theorem Open.put (h : p.Open) {c : UInt8} (hc : c ≠ 13) : (p.put c).Open := by
  by_cases hNewline : c = 10
  · rw [hNewline]
    exact open_newline h.below
  refine ⟨?_, h.below.put c⟩
  rw [put_printable p ⟨hc, hNewline⟩]
  by_cases hWrap : p.column + 1 = 80
  · simp only [if_pos hWrap]
    intro x _
    rw [Function.update_of_ne (by omega), h.below _ x (Nat.lt_succ_self _)]
  · simp only [if_neg hWrap]
    intro x hx
    rw [Function.update_self, Function.update_of_ne (by omega), h.rest x (by omega)]

theorem Open.write (h : p.Open) {data : List UInt8} (hData : 13 ∉ data) :
    (data.foldl Page.put p).Open := by
  induction data generalizing p with
  | nil => exact h
  | cons c data ih =>
    rw [List.mem_cons, not_or] at hData
    exact ih (h.put (Ne.symm hData.1)) hData.2

/-- **Typing and taking back.** Where the cursor did not wrap. -/
theorem back_put (h : p.Open) {c : UInt8} (hc : Tty.Printable c)
    (hColumn : (p.put c).column ≠ 0) :
    (p.put c).back = p := by
  rw [put_printable p hc] at hColumn ⊢
  by_cases hWrap : p.column + 1 = 80
  · simp only [if_pos hWrap] at hColumn
    exact absurd rfl hColumn
  · simp only [if_neg hWrap, back, Nat.add_sub_cancel, Function.update_self, Function.update_idem]
    have hCell : Function.update (p.cell p.row) p.column 32 = p.cell p.row := by
      rw [← h.rest p.column (Nat.le_refl _), Function.update_eq_self]
    rw [hCell, Function.update_eq_self]

end Page

-- ---------------------------------------------------------------------------
-- The terminal
-- ---------------------------------------------------------------------------

/-- The screen after `terminal_initialize`. -/
theorem InStep.start (t : Tty) :
    ∃ t₀, t.terminalInitialize = some t₀ ∧ InStep t₀ Page.blank := by
  obtain ⟨t₀, hInit, hRow, hColumn, hBuffer⟩ := Tty.terminalInitialize_spec t
  refine ⟨t₀, hInit, ⟨hRow, hColumn, ?_⟩, Nat.zero_lt_succ 79, fun _ _ _ => rfl⟩
  intro y hy x hx
  show entryChar (t₀.buffer (y * 80 + x)) = 32
  rw [hBuffer _ (by omega), entryChar_makeVgaentry]

/-- **`terminal_deletechar`** inside a row: a blank at the place before the cursor. -/
theorem InStep.back {t : Tty} {p : Page} (h : InStep t p) (hColumn : p.column ≠ 0) :
    ∃ t', t.terminalDeletechar = some t' ∧ InStep t' p.back := by
  have hColumnEq := h.shows.column
  have hWidth := h.width
  have hWord : (t.column + 2 ^ 32 - 1) % 2 ^ 32 = p.column - 1 := by omega
  have hBefore : InStep { t with column := p.column - 1 } { p with column := p.column - 1 } :=
    ⟨⟨h.shows.row, rfl, h.shows.cells⟩, by show p.column - 1 < 80; omega, h.below⟩
  obtain ⟨t', hPut, hCursor, hCells⟩ := Tty.putentry_spec hBefore 32
  refine ⟨t', ?_, ⟨hCursor.1.trans h.shows.row, hCursor.2.1, hCells⟩, hBefore.width, ?_⟩
  · simp only [Tty.terminalDeletechar, hWord, Nat.not_lt_zero, if_false]
    exact hPut
  · intro r x hr
    have hr : p.row < r := hr
    show Function.update p.cell p.row (Function.update (p.cell p.row) (p.column - 1) 32) r x = 32
    rw [Function.update_of_ne (Nat.ne_of_gt hr), h.below r x hr]

end Hexos
