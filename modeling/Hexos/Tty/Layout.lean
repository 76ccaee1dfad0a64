import Hexos.Tty.Definitions

/-!
# HexOS — the screen as a window on a page

What a sequence of characters looks like on a page of 80 columns that has no
last row, and the terminal as the window that shows the last 25 rows of it up
to the cursor.

## Results

* `entryChar_makeVgaentry` — an entry keeps its character.
* `terminalScrollup_spec` — the copy within the buffer moves every row up.
* `Shows.put` — one character on the terminal and on the page.
* `terminal_shows_page` — any sequence of characters.
-/

namespace Hexos

-- ---------------------------------------------------------------------------
-- The page
-- ---------------------------------------------------------------------------

/-- A page with a cursor. -/
structure Page where
  row    : Nat
  column : Nat
  cell   : Nat → Nat → UInt8

namespace Page

/-- An empty page: every cell is a space. -/
def blank : Page := ⟨0, 0, fun _ _ => 32⟩

/-- The character `c` at the cursor: `\r` goes to the start of the row, `\n` to
the start of the next one, and every other character is written, with the
cursor wrapping as soon as column 80 is reached. -/
def put (p : Page) (c : UInt8) : Page :=
  if c = 13 then { p with column := 0 }
  else if c = 10 then { p with column := 0, row := p.row + 1 }
  else
    let cell := Function.update p.cell p.row (Function.update (p.cell p.row) p.column c)
    if p.column + 1 = 80 then ⟨p.row + 1, 0, cell⟩ else ⟨p.row, p.column + 1, cell⟩

/-- The page after the characters `data`. -/
def layout (data : List UInt8) : Page := data.foldl put blank

end Page

/-- The terminal shows the rows `R - 24`, ..., `R - 24 + 24` of the page, where
`R` is the row of the cursor. -/
structure Shows (t : Tty) (p : Page) : Prop where
  row    : t.row = min p.row 24
  column : t.column = p.column
  cells  : ∀ y < 25, ∀ x < 80, entryChar (t.buffer (y * 80 + x)) = p.cell (p.row - 24 + y) x

/-- The terminal and the page between two characters: the cursor is on the
page, and nothing has been written below it. -/
structure InStep (t : Tty) (p : Page) : Prop where
  shows : Shows t p
  width : p.column < 80
  below : ∀ r x, p.row < r → p.cell r x = 32

-- ---------------------------------------------------------------------------
-- Entries and the buffer
-- ---------------------------------------------------------------------------

theorem entryChar_makeVgaentry (c color : UInt8) : entryChar (makeVgaentry c color) = c := by
  apply UInt8.eq_of_toBitVec_eq
  ext i hi
  have hLow : i < 16 := by omega
  simp [entryChar, makeVgaentry, hi, hLow, BitVec.getElem_signExtend]

namespace Tty

variable {t : Tty}

theorem store_eq (t : Tty) (index : Nat) (h : index < 2000) (entry : BitVec 16) :
    t.store index entry = some { t with buffer := Function.update t.buffer index entry } :=
  if_pos h

/-- The cursor and the colour are the same. -/
def SameCursor (t t' : Tty) : Prop := t'.row = t.row ∧ t'.column = t.column ∧ t'.color = t.color

theorem terminalInitialize_spec (t : Tty) :
    ∃ t', t.terminalInitialize = some t' ∧ t'.row = 0 ∧ t'.column = 0 ∧
      ∀ j < 2000, t'.buffer j = makeVgaentry 32 (makeColor 7 0) := by
  simp only [terminalInitialize, vgaWidth, vgaHeight]
  generalize hStart : { t with row := 0, column := 0, color := makeColor 7 0 } = t₀
  obtain ⟨t', hRun, hCursor, hBuffer⟩ := Loop.invariant_nested (s := t₀)
    (f := fun y x t => t.store (y * 80 + x) (makeVgaentry 32 t.color))
    (fun i t => SameCursor t₀ t ∧ ∀ j < i, t.buffer j = makeVgaentry 32 t₀.color) 80 25
    ⟨⟨rfl, rfl, rfl⟩, by omega⟩ fun y x t hy hx h => by
      obtain ⟨hCursor, hBuffer⟩ := h
      refine ⟨_, store_eq t (y * 80 + x) (by omega) _, hCursor, ?_⟩
      intro j hj
      by_cases hji : j = y * 80 + x
      · rw [hji, ← hCursor.2.2]
        exact Function.update_self _ _ _
      · exact (Function.update_of_ne hji _ _).trans (hBuffer j (by omega))
  subst hStart
  exact ⟨t', hRun, hCursor.1, hCursor.2.1, hBuffer⟩

/-- A cell has its new value as soon as the cell below it has been read. -/
theorem copyRows_spec (t : Tty) :
    ∃ t', t.copyRows = some t' ∧ SameCursor t t' ∧
      ∀ j, t'.buffer j = if j + 80 < 2000 then t.buffer (j + 80) else t.buffer j := by
  simp only [copyRows, vgaWidth, vgaHeight]
  have hLoop := Loop.invariant_nested (s := t)
    (f :=
    fun y x t => if y ≠ 0 then t.store (y * 80 + x - 80) (t.buffer (y * 80 + x)) else some t)
    (fun i t' => SameCursor t t' ∧
      ∀ j, t'.buffer j = if j + 80 < i then t.buffer (j + 80) else t.buffer j)
    80 25 ⟨⟨rfl, rfl, rfl⟩, fun j => (if_neg (by omega)).symm⟩ fun y x t' hy hx h => by
      obtain ⟨hCursor, hBuffer⟩ := h
      by_cases hTop : y = 0
      · -- the first row is not copied anywhere
        refine ⟨t', if_neg (not_not.mpr hTop), hCursor, ?_⟩
        intro j
        rw [hBuffer j, if_neg (by omega), if_neg (by omega)]
      · have hSource : t'.buffer (y * 80 + x) = t.buffer (y * 80 + x) := by
          rw [hBuffer, if_neg (by omega)]
        refine ⟨_, (if_pos hTop).trans (store_eq t' (y * 80 + x - 80) (by omega) _),
          hCursor, ?_⟩
        intro j
        by_cases hj : j = y * 80 + x - 80
        · rw [if_pos (by omega), show j + 80 = y * 80 + x by omega, ← hSource, hj]
          exact Function.update_self _ _ _
        · refine (Function.update_of_ne hj _ _).trans ?_
          rw [hBuffer j]
          by_cases hCopied : j + 80 < y * 80 + x
          · rw [if_pos hCopied, if_pos (by omega)]
          · rw [if_neg hCopied, if_neg (by omega)]
  simpa only [Nat.reduceMul] using hLoop

theorem clearLastLine_spec (t : Tty) :
    ∃ t', t.clearLastLine = some t' ∧ SameCursor t t' ∧
      ∀ j, t'.buffer j = if 1920 ≤ j ∧
        j < 2000 then makeVgaentry 32 t.color else t.buffer j := by
  simp only [clearLastLine, vgaWidth, vgaHeight, Nat.reduceSub, Nat.reduceMul]
  refine Loop.invariant (s := t) (i := 0)
    (f := fun x t => t.store (1920 + x) (makeVgaentry 32 t.color))
    (fun x t' => SameCursor t t' ∧
      ∀ j, t'.buffer j = if 1920 ≤ j ∧
      j < 1920 + x then makeVgaentry 32 t.color else t.buffer j) 80
    ⟨⟨rfl, rfl, rfl⟩, fun j => (if_neg (by omega)).symm⟩ ?_
  intro x t' _ hx h
  obtain ⟨hCursor, hBuffer⟩ := h
  refine ⟨_, store_eq t' (1920 + x) (by omega) _, hCursor, ?_⟩
  intro j
  by_cases hj : j = 1920 + x
  · rw [if_pos (by omega), hj, ← hCursor.2.2]
    exact Function.update_self _ _ _
  · refine (Function.update_of_ne hj _ _).trans ?_
    rw [hBuffer j]
    by_cases hCleared : 1920 ≤ j ∧ j < 1920 + x
    · rw [if_pos hCleared, if_pos (by omega)]
    · rw [if_neg hCleared, if_neg (by omega)]

/-- **Scrolling.** Every row moves up by one and the last row is cleared. -/
theorem terminalScrollup_spec (t : Tty) :
    ∃ t', t.terminalScrollup = some t' ∧ SameCursor t t' ∧
      (∀ j < 1920, t'.buffer j = t.buffer (j + 80)) ∧
      ∀ j, 1920 ≤ j → j < 2000 → t'.buffer j = makeVgaentry 32 t.color := by
  obtain ⟨t₁, hRows, hCursor₁, hBuffer₁⟩ := copyRows_spec t
  obtain ⟨t', hLast, hCursor, hBuffer⟩ := clearLastLine_spec t₁
  refine ⟨t', by rw [terminalScrollup, hRows, Option.bind_some, hLast],
    ⟨?_, ?_, ?_⟩, ?_, ?_⟩
  · exact hCursor.1.trans hCursor₁.1
  · exact hCursor.2.1.trans hCursor₁.2.1
  · exact hCursor.2.2.trans hCursor₁.2.2
  · intro j hj
    rw [hBuffer, if_neg (by omega), hBuffer₁, if_pos (by omega)]
  · intro j hl hr
    rw [hBuffer, if_pos ⟨hl, hr⟩, hCursor₁.2.2]

-- ---------------------------------------------------------------------------
-- One character
-- ---------------------------------------------------------------------------

variable {p : Page}

/-- The next row: while the cursor is above row 24 the window stays, then it
moves down by one. -/
theorem nextRow_spec (hRow : t.row = min p.row 24)
    (hCells : ∀ y < 25, ∀ x < 80, entryChar (t.buffer (y * 80 + x)) = p.cell (p.row - 24 + y) x)
    (hBelow : ∀ r x, p.row < r → p.cell r x = 32) :
    ∃ t', t.nextRow = some t' ∧ InStep t' ⟨p.row + 1, 0, p.cell⟩ := by
  have hBelow' : ∀ r x, p.row + 1 < r → p.cell r x = 32 := fun r x hr => hBelow r x (by omega)
  rw [nextRow]
  by_cases hLast : p.row < 24
  · refine ⟨{ t with column := 0, row := t.row + 1 }, if_neg ?_, ⟨?_, rfl, ?_⟩,
      Nat.zero_lt_succ 79, hBelow'⟩
    · simp only [vgaHeight]
      omega
    · show t.row + 1 = min (p.row + 1) 24
      omega
    · intro y hy x hx
      show entryChar (t.buffer (y * 80 + x)) = p.cell (p.row + 1 - 24 + y) x
      rw [hCells y hy x hx, show p.row + 1 - 24 = p.row - 24 by omega]
  · obtain ⟨t', hScroll, hCursor, hMoved, hCleared⟩ :=
      terminalScrollup_spec { t with column := 0, row := t.row + 1 }
    have hRow' : t'.row = t.row + 1 := hCursor.1
    refine ⟨{ t' with row := t'.row - 1 }, ?_, ⟨?_, hCursor.2.1, ?_⟩,
      Nat.zero_lt_succ 79, hBelow'⟩
    · refine (if_pos ?_).trans ?_
      · simp only [vgaHeight]
        omega
      · rw [hScroll]
        rfl
    · show t'.row - 1 = min (p.row + 1) 24
      omega
    · intro y hy x hx
      show entryChar (t'.buffer (y * 80 + x)) = p.cell (p.row + 1 - 24 + y) x
      by_cases hy24 : y < 24
      · rw [hMoved _ (by omega), show y * 80 + x + 80 = (y + 1) * 80 + x by omega]
        rw [show p.row + 1 - 24 + y = p.row - 24 + (y + 1) by omega]
        exact hCells (y + 1) (by omega) x hx
      · rw [hCleared _ (by omega) (by omega), entryChar_makeVgaentry, hBelow _ _ (by omega)]

/-- The character is written at the cursor, inside the buffer. -/
theorem putentry_spec (h : InStep t p) (c : UInt8) :
    ∃ t', t.terminalPutentryat c t.color t.column t.row = some t' ∧ SameCursor t t' ∧
      ∀ y < 25, ∀ x < 80, entryChar (t'.buffer (y * 80 + x)) =
        Function.update p.cell p.row (Function.update (p.cell p.row) p.column c)
          (p.row - 24 + y) x := by
  have hRow := h.shows.row
  have hColumn := h.shows.column
  have hWidth := h.width
  simp only [terminalPutentryat, vgaWidth]
  rw [Nat.mod_eq_of_lt (show t.row * 80 + t.column < 2 ^ 32 by omega)]
  refine ⟨_, store_eq t (t.row * 80 + t.column) (by omega) _, ⟨rfl, rfl, rfl⟩, ?_⟩
  intro y hy x hx
  show entryChar
    (Function.update t.buffer (t.row * 80 + t.column) (makeVgaentry c t.color) (y * 80 + x)) = _
  by_cases hAt : y = t.row ∧ x = t.column
  · obtain ⟨hyr, hxc⟩ := hAt
    rw [hyr, hxc, Function.update_self, entryChar_makeVgaentry,
      show p.row - 24 + t.row = p.row by omega, Function.update_self, hColumn, Function.update_self]
  · rw [Function.update_of_ne (by omega), h.shows.cells y hy x hx]
    by_cases hyr : y = t.row
    · rw [show p.row - 24 + y = p.row by omega, Function.update_self,
        Function.update_of_ne (by omega)]
    · rw [Function.update_of_ne (by omega)]

end Tty

/-- **Step lemma.** One character on the terminal and on the page. -/
theorem InStep.put {t : Tty} {p : Page} (h : InStep t p) (c : UInt8) :
    ∃ t', t.terminalPutchar c = some t' ∧ InStep t' (p.put c) := by
  have hWidth := h.width
  rw [Tty.terminalPutchar, Page.put]
  by_cases hReturn : c = 13
  · rw [if_pos hReturn, if_pos hReturn]
    exact ⟨_, rfl, ⟨h.shows.row, rfl, h.shows.cells⟩, Nat.zero_lt_succ 79, h.below⟩
  rw [if_neg hReturn, if_neg hReturn]
  by_cases hNewline : c = 10
  · rw [if_pos hNewline, if_pos hNewline]
    exact Tty.nextRow_spec h.shows.row h.shows.cells h.below
  rw [if_neg hNewline, if_neg hNewline]
  obtain ⟨t₁, hPut, hCursor, hCells⟩ := Tty.putentry_spec h c
  have hBelow : ∀ r x, p.row < r →
      Function.update p.cell p.row (Function.update (p.cell p.row) p.column c) r x = 32 := by
    intro r x hr
    rw [Function.update_of_ne (by omega), h.below r x hr]
  have hColumn : (t₁.column + 1) % 2 ^ 32 = p.column + 1 := by
    rw [hCursor.2.1, h.shows.column]
    exact Nat.mod_eq_of_lt (by omega)
  simp only [hPut, Option.bind_eq_bind, Option.bind_some, hColumn, vgaWidth]
  by_cases hWrap : p.column + 1 = 80
  · -- eager wrap: the cursor leaves column 80 at once
    rw [if_pos hWrap, if_pos hWrap]
    exact Tty.nextRow_spec
      (p :=
      ⟨p.row, p.column,
        Function.update p.cell p.row (Function.update (p.cell p.row) p.column c)⟩)
      (hCursor.1.trans h.shows.row) hCells hBelow
  · rw [if_neg hWrap, if_neg hWrap]
    exact ⟨_, rfl,
      ⟨hCursor.1.trans h.shows.row, rfl, hCells⟩, by show p.column + 1 < 80; omega, hBelow⟩

/-- **Run lemma.** -/
theorem InStep.write {t : Tty} {p : Page} (h : InStep t p) (data : List UInt8) :
    ∃ t', t.terminalWrite data = some t' ∧ InStep t' (data.foldl Page.put p) := by
  induction data generalizing t p with
  | nil => exact ⟨t, rfl, h⟩
  | cons c data ih =>
    obtain ⟨t₁, hPut, h₁⟩ := h.put c
    obtain ⟨t', hWrite, h'⟩ := ih h₁
    refine ⟨t', ?_, h'⟩
    rw [Tty.terminalWrite, hPut, Option.bind_some, hWrite]

/-- **Terminal layout.** From `terminal_initialize` and with any colour, any
sequence of characters is written without a write outside the buffer, and the
terminal then shows the page with these characters. -/
theorem terminal_shows_page (t : Tty) (color : UInt8) (data : List UInt8) :
    ∃ t₀ t', t.terminalInitialize = some t₀ ∧
      (t₀.terminalSetcolor color).terminalWrite data = some t' ∧
      Shows t' (Page.layout data) := by
  obtain ⟨t₀, hInit, hRow, hColumn, hBuffer⟩ := Tty.terminalInitialize_spec t
  have hStart : InStep (t₀.terminalSetcolor color) Page.blank := by
    refine ⟨⟨hRow, hColumn, ?_⟩, Nat.zero_lt_succ 79, fun _ _ _ => rfl⟩
    intro y hy x hx
    show entryChar (t₀.buffer (y * 80 + x)) = 32
    rw [hBuffer _ (by omega), entryChar_makeVgaentry]
  obtain ⟨t', hWrite, h⟩ := hStart.write data
  exact ⟨t₀, t', hInit, hWrite, h.shows⟩

end Hexos
