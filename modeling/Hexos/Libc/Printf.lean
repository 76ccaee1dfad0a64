import Hexos.Libc.PrintfInt

/-!
# HexOS — `printf`

`libc/stdio/printf.c`. The loop jumps from three places into the branch that
copies text; that branch is a function of its own here, which each of the three
calls after what it does before its jump. The state has the addresses at which
the format is read, and what is printed.

The expansion of a format is stated apart from the loop, by recursion on the
characters of the format.

## Results

* `expand_run` — text between two conversions.
* `printfRound_spec` — one round of the loop.
* `printf_expands` — the whole format.
-/

namespace Hexos

open Mem

-- ---------------------------------------------------------------------------
-- The function
-- ---------------------------------------------------------------------------

/-- `strlen`. -/
def strlen (m : Mem) (string : Nat) : Nat → Nat → Outcome Nat
  | 0, _ => .running
  | fuel + 1, result =>
    if m (string + result) ≠ 0 then strlen m string fuel (result + 1) else .done result

/-- `print`: the bytes it passes to `putchar`. -/
def print (m : Mem) (data dataLength : Nat) : List UInt8 :=
  (List.range dataLength).map fun i => m (data + i)

/-- `printf_hexdigit`. -/
def printfHexdigit (i : Nat) : UInt8 :=
  if i < 10 then UInt8.ofNat (48 + i) else UInt8.ofNat (97 + i - 10)

/-- `printf_hex`. -/
def printfHex (i : Nat) : List UInt8 :=
  [28, 24, 20, 16, 12, 8, 4, 0].map fun j => printfHexdigit ((i >>> j) &&& 0x0f)

/-- The variables of `printf`; `args` are the words that `va_arg` has not taken yet,
and `reads` the addresses at which the format has been read. -/
structure Printf where
  format   : Nat
  rejected : Bool
  args     : List Nat
  written  : Int
  out      : List UInt8
  reads    : List Nat

namespace Printf

/-- Read the format at `a`. -/
def read (s : Printf) (a : Nat) : Printf := { s with reads := s.reads ++ [a] }

/-- Print `text`. -/
def put (s : Printf) (text : List UInt8) : Printf := { s with out := s.out ++ text }

/-- `va_arg`. -/
def vaArg (s : Printf) : Outcome (Nat × Printf) :=
  match s.args with
  | [] => .panic "va_arg without an argument"
  | word :: args => .done (word, { s with args := args })

end Printf

/-- The loop that looks for the next `%` or for the end. -/
def amountLoop (m : Mem) : Nat → Nat → Printf → Outcome (Nat × Printf)
  | 0, _, _ => .running
  | fuel + 1, amount, s =>
    let s := s.read (s.format + amount)
    if m (s.format + amount) ≠ 0 ∧ m (s.format + amount) ≠ 37 then
      amountLoop m fuel (amount + 1) s
    else .done (amount, s)

/-- From the label `print_c` on. -/
def printC (fuel : Nat) (m : Mem) (s : Printf) : Outcome Printf :=
  (amountLoop m fuel 1 s).map fun (amount, s) =>
    let s := s.put (print m s.format amount)
    { s with
      format := s.format + amount
      written := toInt32 (s.written + amount)
      reads := s.reads ++ (List.range amount).map fun i => s.format + i }

/-- One round of the loop of `printf`. -/
def printfRound (fuel : Nat) (m : Mem) (s : Printf) : Outcome Printf :=
  let s := s.read s.format
  if m s.format ≠ 37 then printC fuel m s
  else
    let formatBegunAt := s.format
    let s := { s.read (s.format + 1) with format := s.format + 1 }
    if m s.format = 37 then printC fuel m s
    else if s.rejected then printC fuel m { s with rejected := true, format := formatBegunAt }
    else if m s.format = 99 then
      -- %c
      let s := { s with format := s.format + 1 }
      s.vaArg.map fun (word, s) => s.put [UInt8.ofNat word]
    else if m s.format = 115 then
      -- %s
      let s := { s with format := s.format + 1 }
      s.vaArg.bind fun (word, s) => (strlen m word fuel 0).map fun n => s.put (print m word n)
    else if m s.format = 100 then
      -- %d
      let s := { s with format := s.format + 1 }
      s.vaArg.bind fun (word, s) => (printfInt fuel (intOf word)).map fun text => s.put text
    else if m s.format = 120 then
      -- %x
      let s := { s with format := s.format + 1 }
      s.vaArg.map fun (word, s) => s.put (printfHex word)
    else printC fuel m { s with rejected := true, format := formatBegunAt }

/-- The loop of `printf`. -/
def printfLoop (fuel : Nat) (m : Mem) : Nat → Printf → Outcome Printf
  | 0, _ => .running
  | rounds + 1, s =>
    let s := s.read s.format
    if m s.format ≠ 0 then (printfRound fuel m s).bind (printfLoop fuel m rounds) else .done s

/-- `printf`; it returns the number `written` of the state. -/
def printf (fuel : Nat) (m : Mem) (format : Nat) (args : List Nat) : Outcome Printf :=
  printfLoop fuel m fuel ⟨format, false, args, 0, [], []⟩

-- ---------------------------------------------------------------------------
-- The expansion of a format
-- ---------------------------------------------------------------------------

/-- An argument, as the conversion that takes it reads it. -/
inductive PrintfArg where
  | char (c : UInt8)
  | string (text : List UInt8)
  | int (i : Int)
  | hex (w : Nat)

/-- What `printf_int` prints. -/
def intText (i : Int) : List UInt8 := ((printfInt 14 i).toOption).getD []

/-- What the conversion `c` makes of its argument. -/
def PrintfArg.convert (c : UInt8) : PrintfArg → Option (List UInt8)
  | .char b => if c = 99 then some [b] else none
  | .string text => if c = 115 then some text else none
  | .int i => if c = 100 then some (intText i) else none
  | .hex w => if c = 120 then some (printfHex w) else none

/-- The next argument, converted by `c`, and those behind it. -/
def takeArg (c : UInt8) : List PrintfArg → Option (List UInt8 × List PrintfArg)
  | [] => none
  | arg :: args => (arg.convert c).map fun piece => (piece, args)

/-- The characters of the conversions. -/
def isConversion (c : UInt8) : Bool := c = 99 ∨ c = 115 ∨ c = 100 ∨ c = 120

/-- The expansion of the format, with the arguments that are left; `rejected` tells
whether there has been a conversion that is unknown or cut off. There is no expansion
where an argument is missing or not of the kind its conversion takes. -/
def expand (rejected : Bool) :
    List UInt8 → List PrintfArg → Option (List UInt8 × List PrintfArg)
  | [], args => some ([], args)
  | [c], args => some ([c], args)
  | c :: d :: format, args =>
    if c ≠ 37 then (expand rejected (d :: format) args).map fun (text, args) => (c :: text, args)
    else if d = 37 then (expand rejected format args).map fun (text, args) => (37 :: text, args)
    else if rejected = false ∧ isConversion d then
      (takeArg d args).bind fun (piece, args) =>
      (expand rejected format args).map fun (text, args) => (piece ++ text, args)
    else (expand true (d :: format) args).map fun (text, args) => (37 :: text, args)

/-- How an argument is passed. -/
def PrintfArg.Passes (m : Mem) : PrintfArg → Nat → Prop
  | .char c, word => UInt8.ofNat word = c
  | .string text, word => StringAt m word text ∧ 0 ∉ text
  | .int i, word => word < 2 ^ 32 ∧ intOf word = i
  | .hex w, word => word < 2 ^ 32 ∧ word = w

section Expansion

variable {rejected : Bool} {args : List PrintfArg}

/-- A character of the text. -/
theorem expand_cons {c : UInt8} (hc : c ≠ 37) (format : List UInt8) :
    expand rejected (c :: format) args =
      (expand rejected format args).map fun (text, args) => (c :: text, args) := by
  cases format with
  | nil => rfl
  | cons d format => rw [expand, if_pos hc]

/-- **Text between two conversions.** -/
theorem expand_run {run : List UInt8} (hRun : ∀ c ∈ run, c ≠ 37) (format : List UInt8) :
    expand rejected (run ++ format) args =
      (expand rejected format args).map fun (text, args) => (run ++ text, args) := by
  induction run with
  | nil => simp
  | cons c run ih =>
    rw [List.cons_append, expand_cons (hRun c List.mem_cons_self),
      ih fun c hc => hRun c (List.mem_cons_of_mem _ hc), Option.map_map]
    rfl

/-- A percent sign that is copied. -/
theorem expand_copied {format : List UInt8} (hHead : format.head? ≠ some 37)
    (hCopied : rejected = true ∨ ∀ d, format.head? = some d → isConversion d = false) :
    expand rejected (37 :: format) args =
      (expand true format args).map fun (text, args) => (37 :: text, args) := by
  cases format with
  | nil => rfl
  | cons d format =>
    have hd : d ≠ 37 := fun h => hHead (by rw [h]; rfl)
    have hNot : ¬ (rejected = false ∧ isConversion d = true) := by
      rintro ⟨hFalse, hConversion⟩
      rcases hCopied with hTrue | hNone
      · rw [hTrue] at hFalse
        cases hFalse
      · rw [hNone d rfl] at hConversion
        cases hConversion
    rw [expand, if_neg (by simp), if_neg hd, if_neg hNot]

end Expansion

-- ---------------------------------------------------------------------------
-- Text
-- ---------------------------------------------------------------------------

/-- `print` prints a string from its start on. -/
theorem print_of_stringAt {m : Mem} {a : Nat} {xs : List UInt8} (ys : List UInt8)
    (h : StringAt m a (xs ++ ys)) :
    print m a xs.length = xs := by
  refine List.ext_getElem (by simp [print]) ?_
  intro i hi hi'
  have hByte := h.1 i (by rw [List.length_append]; omega)
  simp only [print, List.getElem_map, List.getElem_range]
  rw [hByte]
  simp [hi']

theorem strlen_spec {str : List UInt8} (hStr : 0 ∉ str) {fuel k : Nat} {m : Mem} {p : Nat}
    (hFuel : str.length < fuel) (h : StringAt m (p + k) str) :
    strlen m p fuel k = .done (k + str.length) := by
  induction str generalizing fuel k with
  | nil =>
    obtain ⟨fuel, rfl⟩ : ∃ f, fuel = f + 1 := ⟨fuel - 1, by omega⟩
    have hEnd : m (p + k) = 0 := h.2
    rw [strlen, if_neg (by simpa using hEnd)]
    rfl
  | cons c cs ih =>
    rw [List.length_cons] at hFuel ⊢
    obtain ⟨fuel, rfl⟩ : ∃ f, fuel = f + 1 := ⟨fuel - 1, by omega⟩
    obtain ⟨hHead, hTail⟩ := stringAt_cons.mp h
    obtain ⟨hc, hcs⟩ : c ≠ 0 ∧ 0 ∉ cs :=
      ⟨fun h => hStr (by simp [h]), fun h => hStr (List.mem_cons_of_mem c h)⟩
    rw [strlen, if_pos (by rw [hHead]; exact hc), ih hcs (by omega) hTail]
    congr 1
    omega

/-- All reads so far were from `lo` to `hi`. -/
def Printf.Within (s : Printf) (lo hi : Nat) : Prop := ∀ a ∈ s.reads, lo ≤ a ∧ a ≤ hi

theorem Printf.Within.append {s : Printf} {lo hi : Nat} (h : s.Within lo hi) {new : List Nat}
    (hNew : ∀ a ∈ new, lo ≤ a ∧ a ≤ hi) :
    ∀ a ∈ s.reads ++ new, lo ≤ a ∧ a ≤ hi := by
  intro a ha
  rcases List.mem_append.mp ha with ha | ha
  · exact h a ha
  · exact hNew a ha

theorem Printf.Within.read {s : Printf} {lo hi a : Nat} (h : s.Within lo hi) (hLow : lo ≤ a)
    (hHigh : a ≤ hi) : (s.read a).Within lo hi := by
  refine h.append ?_
  intro b hb
  obtain rfl := List.mem_singleton.mp hb
  exact ⟨hLow, hHigh⟩

theorem amountLoop_succ (m : Mem) (fuel amount : Nat) (s : Printf) :
    amountLoop m (fuel + 1) amount s =
      if m (s.format + amount) ≠ 0 ∧ m (s.format + amount) ≠ 37 then
        amountLoop m fuel (amount + 1) (s.read (s.format + amount))
      else .done (amount, s.read (s.format + amount)) := rfl

/-- The loop runs to the next percent sign or to the end. -/
theorem amountLoop_spec {m : Mem} {rest : List UInt8} (hRest : 0 ∉ rest) {fuel lo hi : Nat}
    (amount : Nat) (s : Printf) (hFuel : rest.length < fuel)
    (h : StringAt m (s.format + amount) rest) (hIn : s.Within lo hi) (hLow : lo ≤ s.format)
    (hHigh : s.format + amount + rest.length ≤ hi) :
    ∃ reads, amountLoop m fuel amount s =
        .done (amount + (rest.takeWhile (· ≠ 37)).length, { s with reads := reads }) ∧
      ∀ a ∈ reads, lo ≤ a ∧ a ≤ hi := by
  induction rest generalizing fuel amount s with
  | nil =>
    obtain ⟨fuel, rfl⟩ : ∃ f, fuel = f + 1 := ⟨fuel - 1, by omega⟩
    have hEnd : m (s.format + amount) = 0 := h.2
    refine ⟨s.reads ++ [s.format + amount], ?_, hIn.read (by omega) (by simpa using hHigh)⟩
    rw [amountLoop_succ, if_neg (by simp [hEnd])]
    rfl
  | cons c rest ih =>
    rw [List.length_cons] at hFuel hHigh
    obtain ⟨fuel, rfl⟩ : ∃ f, fuel = f + 1 := ⟨fuel - 1, by omega⟩
    obtain ⟨hHead, hTail⟩ := stringAt_cons.mp h
    obtain ⟨hc, hcs⟩ : c ≠ 0 ∧ 0 ∉ rest :=
      ⟨fun h => hRest (by simp [h]), fun h => hRest (List.mem_cons_of_mem c h)⟩
    have hRead := hIn.read (a := s.format + amount) (by omega) (by omega)
    rw [amountLoop_succ, hHead]
    by_cases hPercent : c = 37
    · refine ⟨s.reads ++ [s.format + amount], ?_, hRead⟩
      rw [if_neg (by simp [hPercent]), List.takeWhile_cons_of_neg (by simp [hPercent])]
      rfl
    · obtain ⟨reads, hRun, hReads⟩ := ih hcs (amount + 1) (s.read (s.format + amount))
        (show rest.length < fuel by omega) hTail hRead hLow (by
          show s.format + (amount + 1) + rest.length ≤ hi
          omega)
      refine ⟨reads, ?_, hReads⟩
      rw [if_pos ⟨hc, hPercent⟩, hRun, List.takeWhile_cons_of_pos (by simp [hPercent]),
        List.length_cons, Nat.add_assoc, Nat.add_comm 1]
      rfl

/-- **Text.** The character at which it starts is copied whatever it is, and what
follows it up to the next percent sign. -/
theorem printC_spec {m : Mem} {c : UInt8} {rest : List UInt8} (hRest : 0 ∉ rest)
    {fuel lo hi : Nat} {s : Printf} (hFuel : rest.length < fuel)
    (h : StringAt m s.format (c :: rest)) (hIn : s.Within lo hi) (hLow : lo ≤ s.format)
    (hHigh : s.format + (rest.length + 1) ≤ hi) :
    ∃ s' run rest', printC fuel m s = .done s' ∧ rest = run ++ rest' ∧
      (∀ c ∈ run, c ≠ 37) ∧
      s'.Within lo hi ∧ s'.format = s.format + 1 + run.length ∧ s'.rejected = s.rejected ∧
      s'.args = s.args ∧ s'.out = s.out ++ c :: run := by
  obtain ⟨hHead, hTail⟩ := stringAt_cons.mp h
  obtain ⟨reads, hRun, hReads⟩ := amountLoop_spec hRest 1 s hFuel hTail hIn hLow (by omega)
  have hSplit := (List.takeWhile_append_dropWhile (p := (· ≠ 37)) (l := rest)).symm
  have hPlain : ∀ c ∈ rest.takeWhile (· ≠ 37), c ≠ 37 := by
    intro c hc
    simpa using List.all_eq_true.mp (List.all_takeWhile (l := rest) (p := (· ≠ 37))) c hc
  generalize rest.takeWhile (· ≠ 37) = run at hRun hSplit hPlain
  generalize rest.dropWhile (· ≠ 37) = rest' at hSplit
  have hText : print m s.format (1 + run.length) = c :: run := by
    rw [Nat.add_comm, ← List.length_cons]
    exact print_of_stringAt rest' (by rwa [List.cons_append, ← hSplit])
  have hLength : rest.length = run.length + rest'.length := by rw [hSplit, List.length_append]
  refine ⟨_, run, rest', Outcome.map_eq_done.mpr ⟨_, hRun, rfl⟩, hSplit, hPlain, ?_,
    (Nat.add_assoc _ _ _).symm, rfl, rfl, ?_⟩
  · refine Printf.Within.append (s := { s with reads := reads }) hReads ?_
    intro a ha
    obtain ⟨k, hk, rfl⟩ := List.mem_map.mp ha
    rw [List.mem_range] at hk
    show lo ≤ s.format + k ∧ s.format + k ≤ hi
    omega
  · exact congrArg (s.out ++ ·) hText

-- ---------------------------------------------------------------------------
-- Rounds
-- ---------------------------------------------------------------------------

/-- What is left to do in a state of `printf`: the format `rest` is ahead, which
expands to `text` and leaves the arguments `left`. -/
structure Printf.Ahead (fuel : Nat) (m : Mem) (lo hi : Nat) (s : Printf) (rest text : List UInt8)
    (left : List PrintfArg) : Prop where
  string  : StringAt m s.format rest
  nonzero : 0 ∉ rest
  expands : ∃ args, List.Forall₂ (PrintfArg.Passes m) args s.args ∧
    (∀ text, PrintfArg.string text ∈ args → text.length < fuel) ∧
    expand s.rejected rest args = some (text, left)
  low     : lo ≤ s.format
  high    : s.format + rest.length = hi
  within  : s.Within lo hi

section Rounds

variable {fuel lo hi : Nat} {m : Mem} {s s' : Printf} {rest text : List UInt8}
  {left : List PrintfArg}

/-- The text up to the next conversion has been copied. -/
theorem Printf.Ahead.copied {c : UInt8} {args : List PrintfArg} (hRest : 0 ∉ rest)
    (hString : StringAt m s.format (c :: rest)) (hLow : lo ≤ s.format)
    (hHigh : s.format + (rest.length + 1) = hi) (hIn : s.Within lo hi) (hFuel : rest.length < fuel)
    (hArgs : List.Forall₂ (PrintfArg.Passes m) args s.args)
    (hStrings : ∀ text, PrintfArg.string text ∈ args → text.length < fuel)
    (hExpand : (expand s.rejected rest args).map (fun (text, args) => (c :: text, args)) =
      some (text, left)) :
    ∃ s' rest' piece text', printC fuel m s = .done s' ∧ s'.out = s.out ++ piece ∧
      text = piece ++ text' ∧ rest'.length ≤ rest.length ∧
      s'.Ahead fuel m lo hi rest' text' left := by
  obtain ⟨s', run, rest', hRun, rfl, hPlain, hIn', hFormat, hRejected, hArgs', hOut⟩ :=
    printC_spec hRest hFuel hString hIn hLow hHigh.le
  rw [List.length_append] at hHigh hFuel
  rw [expand_run hPlain, Option.map_map, Option.map_eq_some_iff] at hExpand
  obtain ⟨⟨text', left'⟩, hExpand', hEq⟩ := hExpand
  obtain ⟨rfl, rfl⟩ := Prod.mk.inj hEq
  refine ⟨s', rest', c :: run, text', hRun, hOut, rfl, by simp, ?_, ?_, ?_, ?_, ?_, hIn'⟩
  · rw [hFormat]
    have hTail := (stringAt_cons.mp hString).2.drop (k := run.length) (by simp)
    rwa [List.drop_left] at hTail
  · exact fun h => hRest (List.mem_append_right run h)
  · exact ⟨args, by rwa [hArgs'], hStrings, by rwa [hRejected]⟩
  · omega
  · omega

/-- A round at a character of the text. -/
theorem printfRound_text (h : m s.format ≠ 37) :
    printfRound fuel m s = printC fuel m (s.read s.format) :=
  if_pos h

/-- The state in which a round looks at the character behind a percent sign. -/
def Printf.percent (s : Printf) : Printf := (s.read s.format).read (s.format + 1)

/-- Two percent signs. -/
theorem printfRound_percent (h : m s.format = 37) (h' : m (s.format + 1) = 37) :
    printfRound fuel m s = printC fuel m { s.percent with format := s.format + 1 } :=
  (if_neg (not_not.mpr h)).trans (if_pos h')

/-- A percent sign that is copied. -/
theorem printfRound_copied (h : m s.format = 37) (h' : m (s.format + 1) ≠ 37)
    (hCopied : s.rejected = true ∨ isConversion (m (s.format + 1)) = false) :
    printfRound fuel m s = printC fuel m { s.percent with rejected := true } := by
  refine (if_neg (not_not.mpr h)).trans ((if_neg h').trans ?_)
  by_cases hRejected : s.rejected = true
  · exact if_pos hRejected
  · have hNone : isConversion (m (s.format + 1)) = false := hCopied.resolve_left hRejected
    simp only [isConversion, decide_eq_false_iff_not, not_or] at hNone
    obtain ⟨hc, hs, hd, hx⟩ := hNone
    exact (if_neg hRejected).trans
      ((if_neg hc).trans ((if_neg hs).trans ((if_neg hd).trans (if_neg hx))))

theorem Printf.vaArg_cons {word : Nat} {words : List Nat} (h : s.args = word :: words) :
    s.vaArg = .done (word, { s with args := words }) := by
  unfold Printf.vaArg
  rw [h]

/-- What a conversion takes. -/
theorem PrintfArg.convert_eq_some {arg : PrintfArg} {c : UInt8} {piece : List UInt8}
    (h : arg.convert c = some piece) :
    (∃ b, arg = .char b ∧ c = 99 ∧ piece = [b]) ∨ (arg = .string piece ∧ c = 115) ∨
      (∃ i, arg = .int i ∧ c = 100 ∧ piece = intText i) ∨
      ∃ w, arg = .hex w ∧ c = 120 ∧ piece = printfHex w := by
  cases arg <;> simp only [convert] at h <;> split at h <;> simp_all

/-- What `printf_int` prints is there after 14 rounds. -/
theorem printfInt_eq_intText {word : Nat} (hWord : word < 2 ^ 32) (hFuel : 14 ≤ fuel) :
    printfInt fuel (intOf word) = .done (intText (intOf word)) := by
  have hInt : -2 ^ 31 ≤ intOf word ∧ intOf word < 2 ^ 31 := by
    unfold intOf
    split <;> omega
  obtain ⟨text, hRun⟩ := printfInt_total hInt
  rw [printfInt_mono hFuel hRun, intText, hRun]
  rfl

/-- The conversions. -/
theorem printfRound_conversion {word : Nat} {words : List Nat} {arg : PrintfArg}
    {piece : List UInt8} (h : m s.format = 37) (hRejected : s.rejected = false)
    (hArgs : s.args = word :: words) (hPasses : arg.Passes m word)
    (hConvert : arg.convert (m (s.format + 1)) = some piece) (hFuel : 14 ≤ fuel)
    (hString : ∀ text, arg = .string text → text.length < fuel) :
    printfRound fuel m s =
      .done { s.percent with format := s.format + 2, args := words, out := s.out ++ piece } := by
  have hBegin : ∀ {d : UInt8}, m (s.format + 1) = d → d ≠ 37 → ∀ rest : Outcome Printf,
      (if m (s.format + 1) = 37 then printC fuel m { s.percent with format := s.format + 1 }
        else if s.rejected = true then printC fuel m { s.percent with rejected := true }
          else rest) = rest := by
    intro d hd hPercent rest
    rw [if_neg (by rwa [hd]), if_neg (by rw [hRejected]; decide)]
  have hOther : ∀ {d e : UInt8}, m (s.format + 1) = d → d ≠ e → ¬ m (s.format + 1) = e :=
    fun hd hNe he => hNe (hd.symm.trans he)
  refine (if_neg (not_not.mpr h)).trans ?_
  rcases PrintfArg.convert_eq_some hConvert with
    ⟨b, rfl, hd, rfl⟩ | ⟨rfl, hd⟩ | ⟨i, rfl, hd, rfl⟩ | ⟨w, rfl, hd, rfl⟩
  · refine (hBegin hd (by decide) _).trans ((if_pos hd).trans ?_)
    obtain rfl : UInt8.ofNat word = b := hPasses
    exact Outcome.map_eq_done.mpr ⟨_, Printf.vaArg_cons hArgs, rfl⟩
  · obtain ⟨hAt, hNonzero⟩ := hPasses
    refine (hBegin hd (by decide) _).trans
      ((if_neg (hOther hd (by decide))).trans ((if_pos hd).trans ?_))
    refine Outcome.bind_eq_done.mpr
      ⟨_, Printf.vaArg_cons hArgs, Outcome.map_eq_done.mpr ⟨piece.length, ?_, ?_⟩⟩
    · have hLen := strlen_spec hNonzero (k := 0) (hString piece rfl) hAt
      rwa [Nat.zero_add] at hLen
    · have hPrint : print m word piece.length = piece :=
        print_of_stringAt [] (by rwa [List.append_nil])
      exact congrArg (Printf.put _) hPrint
  · obtain ⟨hWord, rfl⟩ := hPasses
    refine (hBegin hd (by decide) _).trans ((if_neg (hOther hd (by decide))).trans
      ((if_neg (hOther hd (by decide))).trans ((if_pos hd).trans ?_)))
    exact Outcome.bind_eq_done.mpr ⟨_, Printf.vaArg_cons hArgs,
      Outcome.map_eq_done.mpr ⟨_, printfInt_eq_intText hWord hFuel, rfl⟩⟩
  · obtain ⟨-, rfl⟩ := hPasses
    refine (hBegin hd (by decide) _).trans ((if_neg (hOther hd (by decide))).trans
      ((if_neg (hOther hd (by decide))).trans
      ((if_neg (hOther hd (by decide))).trans ((if_pos hd).trans ?_))))
    exact Outcome.map_eq_done.mpr ⟨_, Printf.vaArg_cons hArgs, rfl⟩

theorem takeArg_eq_some {c : UInt8} {args args' : List PrintfArg} {piece : List UInt8}
    (h : takeArg c args = some (piece, args')) :
    ∃ arg, args = arg :: args' ∧ arg.convert c = some piece := by
  cases args with
  | nil => cases h
  | cons arg args =>
    obtain ⟨piece', hConvert, hEq⟩ := Option.map_eq_some_iff.mp h
    obtain ⟨rfl, rfl⟩ := Prod.mk.inj hEq
    exact ⟨arg, rfl, hConvert⟩

/-- A conversion that takes its argument. -/
theorem printfRound_spec_conversion {d : UInt8} (h14 : 14 ≤ fuel)
    (h : s.Ahead fuel m lo hi (37 :: d :: rest) text left) (hd : d ≠ 37)
    (hConversion : s.rejected = false ∧ isConversion d = true) :
    ∃ s' rest' piece text', printfRound fuel m s = .done s' ∧ s'.out = s.out ++ piece ∧
      text = piece ++ text' ∧ rest'.length ≤ (d :: rest).length ∧
      s'.Ahead fuel m lo hi rest' text' left := by
  obtain ⟨hAt, hNonzero, ⟨args, hArgs, hStrings, hExpand⟩, hLow, hHigh, hIn⟩ := h
  obtain ⟨hHead, hTail⟩ := stringAt_cons.mp hAt
  obtain ⟨hNext, hTail'⟩ := stringAt_cons.mp hTail
  have hRest' : 0 ∉ rest := fun h => hNonzero (List.mem_cons_of_mem 37 (List.mem_cons_of_mem d h))
  rw [List.length_cons, List.length_cons] at hHigh
  have hPercent : s.percent.Within lo hi := (hIn.read hLow (by omega)).read (by omega) (by omega)
  rw [expand, if_neg (by simp), if_neg hd, if_pos hConversion, Option.bind_eq_some_iff] at hExpand
  obtain ⟨⟨piece, args'⟩, hTake, hExpand⟩ := hExpand
  obtain ⟨⟨text', left'⟩, hExpand', hEq⟩ := Option.map_eq_some_iff.mp hExpand
  obtain ⟨rfl, rfl⟩ := Prod.mk.inj hEq
  obtain ⟨arg, rfl, hConvert⟩ := takeArg_eq_some hTake
  obtain ⟨word, words, hPasses, hWords, hCons⟩ := List.forall₂_cons_left_iff.mp hArgs
  have hRun := printfRound_conversion hHead hConversion.1 hCons hPasses (by rwa [hNext]) h14
    fun t ht => hStrings t (ht ▸ List.mem_cons_self)
  refine ⟨_, rest, piece, text', hRun, rfl, rfl, by simp, ?_, hRest', ?_, ?_, ?_, hPercent⟩
  · exact hTail'
  · exact ⟨args', hWords, fun t ht => hStrings t (List.mem_cons_of_mem _ ht), hExpand'⟩
  · show lo ≤ s.format + 2
    omega
  · show s.format + 2 + rest.length = hi
    omega

/-- **A round at a percent sign.** -/
theorem printfRound_spec_percent (h14 : 14 ≤ fuel) (hFuel : rest.length < fuel)
    (h : s.Ahead fuel m lo hi (37 :: rest) text left) :
    ∃ s' rest' piece text', printfRound fuel m s = .done s' ∧ s'.out = s.out ++ piece ∧
      text = piece ++ text' ∧ rest'.length ≤ rest.length ∧
      s'.Ahead fuel m lo hi rest' text' left := by
  obtain ⟨hAt, hNonzero, ⟨args, hArgs, hStrings, hExpand⟩, hLow, hHigh, hIn⟩ := h
  obtain ⟨hHead, hTail⟩ := stringAt_cons.mp hAt
  have hRest : 0 ∉ rest := fun h => hNonzero (List.mem_cons_of_mem 37 h)
  rw [List.length_cons] at hHigh
  have hPercent : s.percent.Within lo hi := (hIn.read hLow (by omega)).read (by omega) (by omega)
  cases rest with
  | nil =>
    -- the format ends behind the percent sign
    have hEnd : m (s.format + 1) = 0 := hTail.2
    rw [expand_copied (by simp) (Or.inr (by simp))] at hExpand
    rw [printfRound_copied hHead (by rw [hEnd]; decide) (Or.inr (by rw [hEnd]; decide))]
    exact Printf.Ahead.copied
      (s := { s.percent with rejected := true }) hRest hAt hLow hHigh hPercent
      hFuel hArgs hStrings hExpand
  | cons d rest =>
    obtain ⟨hNext, -⟩ := stringAt_cons.mp hTail
    rw [List.length_cons] at hFuel hHigh
    have hRest' : 0 ∉ rest := fun h => hRest (List.mem_cons_of_mem d h)
    by_cases hd : d = 37
    · rw [expand, if_neg (by simp), if_pos hd] at hExpand
      rw [printfRound_percent hHead (by rwa [hNext])]
      obtain ⟨s', rest', piece, text', hRun, hOut, hText, hLength, hAhead⟩ :=
        Printf.Ahead.copied (s := { s.percent with format := s.format + 1 }) hRest' (hd ▸ hTail)
          (show lo ≤ s.format + 1 by omega)
          (show s.format + 1 + (rest.length + 1) = hi by omega) hPercent
          (show rest.length < fuel by omega) hArgs hStrings hExpand
      exact ⟨s', rest', piece, text', hRun, hOut,
        hText, by simp only [List.length_cons]; omega, hAhead⟩
    · by_cases hConversion : s.rejected = false ∧ isConversion d = true
      · exact printfRound_spec_conversion h14
          ⟨hAt, hNonzero, ⟨args, hArgs, hStrings, hExpand⟩, hLow,
          by simp only [List.length_cons]; omega, hIn⟩ hd hConversion
      · have hCopied : s.rejected = true ∨ isConversion d = false := by
          rcases Bool.eq_false_or_eq_true s.rejected with hTrue | hFalse
          · exact Or.inl hTrue
          · exact Or.inr (by simpa [hFalse] using hConversion)
        rw [expand_copied (by simpa using hd) (by simpa using hCopied)] at hExpand
        rw [printfRound_copied hHead (by rwa [hNext]) (by rwa [hNext])]
        exact Printf.Ahead.copied
          (s := { s.percent with rejected := true }) hRest hAt hLow hHigh hPercent
          hFuel hArgs hStrings hExpand

/-- **One round.** It prints a piece of the expansion and leaves the rest of the format
with the rest of the expansion. -/
theorem printfRound_spec {c : UInt8} (h14 : 14 ≤ fuel) (hFuel : rest.length < fuel)
    (h : s.Ahead fuel m lo hi (c :: rest) text left) :
    ∃ s' rest' piece text', printfRound fuel m s = .done s' ∧ s'.out = s.out ++ piece ∧
      text = piece ++ text' ∧ rest'.length ≤ rest.length ∧
      s'.Ahead fuel m lo hi rest' text' left := by
  have hAhead := h
  obtain ⟨hAt, hNonzero, ⟨args, hArgs, hStrings, hExpand⟩, hLow, hHigh, hIn⟩ := h
  obtain ⟨hHead, hTail⟩ := stringAt_cons.mp hAt
  have hRest : 0 ∉ rest := fun h => hNonzero (List.mem_cons_of_mem c h)
  rw [List.length_cons] at hHigh
  have hRead : (s.read s.format).Within lo hi := hIn.read hLow (by omega)
  by_cases hc : c = 37
  · subst hc
    exact printfRound_spec_percent h14 hFuel hAhead
  · rw [expand_cons hc] at hExpand
    rw [printfRound_text (by rwa [hHead])]
    exact Printf.Ahead.copied
      (s := s.read s.format) hRest hAt hLow hHigh hRead hFuel hArgs hStrings hExpand

end Rounds

-- ---------------------------------------------------------------------------
-- The whole format
-- ---------------------------------------------------------------------------

/-- **All rounds.** By induction on the number of rounds; each one leaves a shorter
format. -/
theorem printfLoop_spec {fuel lo hi : Nat} {m : Mem} (h14 : 14 ≤ fuel) {rounds : Nat} {s : Printf}
    {rest text : List UInt8} {left : List PrintfArg} (hRounds : rest.length < rounds)
    (hFuel : rest.length ≤ fuel) (h : s.Ahead fuel m lo hi rest text left) :
    ∃ s', printfLoop fuel m rounds s = .done s' ∧ s'.out = s.out ++ text ∧
      List.Forall₂ (PrintfArg.Passes m) left s'.args ∧ s'.Within lo hi := by
  induction rounds generalizing s rest text with
  | zero => omega
  | succ rounds ih =>
    have hRead : (s.read s.format).Within lo hi := h.within.read h.low (by have := h.high; omega)
    cases rest with
    | nil =>
      obtain ⟨args, hArgs, -, hExpand⟩ := h.expands
      obtain ⟨rfl, rfl⟩ := Prod.mk.inj (Option.some.inj hExpand)
      refine ⟨s.read s.format, if_neg (not_not.mpr h.string.2), ?_, hArgs, hRead⟩
      exact (List.append_nil _).symm
    | cons c rest =>
      have hc : m s.format ≠ 0 := by
        rw [(stringAt_cons.mp h.string).1]
        exact fun hc => h.nonzero (by simp [hc])
      rw [List.length_cons] at hRounds hFuel
      have hNow : (s.read s.format).Ahead fuel m lo hi (c :: rest) text left :=
        ⟨h.string, h.nonzero, h.expands, h.low, h.high, hRead⟩
      obtain ⟨s', rest', piece, text', hRun, hOut, rfl, hLength, hAhead⟩ :=
        printfRound_spec h14 (by omega) hNow
      obtain ⟨s'', hLoop, hOut', hLeft, hIn⟩ := ih (by omega) (by omega) hAhead
      refine ⟨s'', ?_, ?_, hLeft, hIn⟩
      · exact (if_pos hc).trans (Outcome.bind_eq_done.mpr ⟨s', hRun, hLoop⟩)
      · rw [hOut', hOut, List.append_assoc]
        rfl

theorem exists_string_bound (args : List PrintfArg) :
    ∃ bound, ∀ text, PrintfArg.string text ∈ args → text.length < bound := by
  induction args with
  | nil => exact ⟨0, by simp⟩
  | cons arg args ih =>
    obtain ⟨bound, hBound⟩ := ih
    cases arg with
    | string text =>
      refine ⟨bound + text.length + 1, ?_⟩
      intro text' hMem
      rcases List.mem_cons.mp hMem with hEq | hMem
      · obtain rfl := PrintfArg.string.inj hEq
        omega
      · have := hBound text' hMem
        omega
    | char c => exact ⟨bound, fun text hMem => hBound text (by simpa using hMem)⟩
    | int i => exact ⟨bound, fun text hMem => hBound text (by simpa using hMem)⟩
    | hex w => exact ⟨bound, fun text hMem => hBound text (by simpa using hMem)⟩

/-- A call with rounds for the format and for every string. -/
theorem printf_done {fuel bound : Nat} {m : Mem} {format : Nat} {fmt : List UInt8}
    {args left : List PrintfArg} {words : List Nat} {text : List UInt8}
    (hFuel : fmt.length + bound + 14 ≤ fuel)
    (hBound : ∀ text, PrintfArg.string text ∈ args → text.length < bound)
    (hFormat : StringAt m format fmt) (hFmt : 0 ∉ fmt)
    (hArgs : List.Forall₂ (PrintfArg.Passes m) args words)
    (hExpand : expand false fmt args = some (text, left)) :
    ∃ s, printf fuel m format words = .done s ∧ s.out = text ∧
      List.Forall₂ (PrintfArg.Passes m) left s.args ∧
      ∀ a ∈ s.reads, format ≤ a ∧ a ≤ format + fmt.length := by
  have hStart : Printf.Ahead fuel m format (format + fmt.length)
      ⟨format, false, words, 0, [], []⟩ fmt text
      left := by
    refine ⟨hFormat, hFmt, ⟨args, hArgs, ?_, hExpand⟩, Nat.le_refl _,
      rfl, by simp [Printf.Within]⟩
    intro t ht
    have := hBound t ht
    omega
  obtain ⟨s, hRun, hOut, hLeft, hIn⟩ :=
    printfLoop_spec (by omega) (show fmt.length < fuel by omega) (by omega) hStart
  exact ⟨s, hRun, hOut.trans (List.nil_append text), hLeft, hIn⟩

/-- **printf** prints the expansion of its format, takes the arguments that the
expansion takes, and reads nothing behind the terminator of the format. -/
theorem printf_expands {m : Mem} {format : Nat} {fmt : List UInt8} {args left : List PrintfArg}
    {words : List Nat} {text : List UInt8} (hFormat : StringAt m format fmt) (hFmt : 0 ∉ fmt)
    (hArgs : List.Forall₂ (PrintfArg.Passes m) args words)
    (hExpand : expand false fmt args = some (text, left)) :
    ∃ fuel₀, ∀ fuel ≥ fuel₀, ∃ s, printf fuel m format words = .done s ∧
      s.out = text ∧
      List.Forall₂ (PrintfArg.Passes m) left s.args ∧
      ∀ a ∈ s.reads, format ≤ a ∧ a ≤ format + fmt.length := by
  obtain ⟨bound, hBound⟩ := exists_string_bound args
  refine ⟨fmt.length + bound + 14, ?_⟩
  intro fuel hFuel
  exact printf_done hFuel hBound hFormat hFmt hArgs hExpand

/-- An escaped percent sign, a number, an unknown conversion, and one behind it. -/
theorem printf_sample :
    ∃ fuel₀, ∀ fuel ≥ fuel₀, ∃ s,
      printf fuel (fun a => (ascii "a%%%d%q%d%%").getD a 0) 0 [42] = .done s ∧
      s.out = ascii "a%42%q%d%" ∧
      List.Forall₂ (PrintfArg.Passes fun a => (ascii "a%%%d%q%d%%").getD a 0)
        [] s.args ∧
      ∀ a ∈ s.reads, 0 ≤ a ∧ a ≤ 0 + (ascii "a%%%d%q%d%%").length := by
  have hArgs :
      List.Forall₂ (PrintfArg.Passes fun a => (ascii "a%%%d%q%d%%").getD a 0) [.int 42] [42] :=
    List.Forall₂.cons (show 42 < 2 ^ 32 ∧ intOf 42 = 42 by decide) List.Forall₂.nil
  exact printf_expands (by unfold StringAt; decide) (by decide) hArgs rfl

end Hexos
