import Hexos.Fs.Definitions

/-!
# HexOS — what the walks over a sector read and write

The walks of `iso9660_readdir`, `iso9660_finddir` and `iso9660_recreate` again,
on the memory as it is seen from the start of their buffer, with the offsets
they read and write, in order. What they compute is what the functions of the
model compute.

## Results

* `readdirWalk_loop`, `finddirWalk_loop`, `findWalk_loop`, `skipWalk_loop` — the
  results of the walks.
-/

namespace Hexos

open Mem

-- ---------------------------------------------------------------------------
-- Fields and strings
-- ---------------------------------------------------------------------------

/-- The memory from `base` on. -/
def window (m : Mem) (base : Nat) : Mem := fun k => m (base + k)

/-- The bytes of a 32-bit field. -/
def wordReads (o : Nat) : List Nat := [o, o + 1, o + 2, o + 3]

/-- The bytes of a string up to its terminator, which is `n` bytes away at most. -/
def stringReads (w : Mem) : Nat → Nat → List Nat
  | 0, o => [o]
  | n + 1, o => if w o ≠ 0 then o :: stringReads w n (o + 1) else [o]

/-- The bytes that `strcmp` reads of its first argument. -/
def strEqReads (w : Mem) (o : Nat) : List UInt8 → List Nat
  | [] => [o]
  | c :: cs => if w o ≠ 0 ∧ w o = c then o :: strEqReads w (o + 1) cs else [o]

-- ---------------------------------------------------------------------------
-- Directories
-- ---------------------------------------------------------------------------

/-- What `iso9660_readdir` does with the record it returns. -/
def nameAccesses (w : Mem) (o : Nat) : List Nat :=
  let len := (w (o + 32)).toNat
  (o + 32) :: (o + 33 + len) :: stringReads (w.store8 (o + 33 + len) 0) len (o + 33)

/-- The walk of `iso9660_readdir`. -/
def readdirWalk (w : Mem) (i : Nat) :
    Nat → Nat → Bool → Nat → Outcome (Option Nat × List Nat)
  | 0, _, _, _ => .running
  | fuel + 1, o, skipFirst, count =>
    let next := o + (w o).toNat
    if w o = 0 then .done (none, [o])
    else if skipFirst = true then
      (readdirWalk w i fuel next false count).map fun (r, as) => (r, o :: as)
    else if w (o + 33) ≠ 1 then
      if count = i then .done (some o, o :: (o + 33) :: nameAccesses w o)
      else (readdirWalk w i fuel next false (count + 1)).map fun (r, as) => (r, o :: (o + 33) :: as)
    else (readdirWalk w i fuel next false count).map fun (r, as) => (r, o :: (o + 33) :: as)

/-- What `iso9660_entry_to_node_mini` reads of the record it is given. -/
def nodeReads (w : Mem) (o : Nat) : List Nat :=
  (o + 32) :: stringReads w (w (o + 32)).toNat (o + 33) ++
    (o + 32) :: (o + 25) :: wordReads (o + 10) ++ wordReads (o + 2)

/-- The walk of `iso9660_finddir`, with the memory it leaves. -/
def finddirWalk (name : CString) :
    Nat → Mem → Nat → Bool → Outcome (Option Nat × Mem × List Nat)
  | 0, _, _, _ => .running
  | fuel + 1, w, o, skipFirst =>
    if w o = 0 then .done (none, w, [o])
    else if skipFirst = true then
      (finddirWalk name fuel w (o + (w o).toNat) false).map fun (r, w, as) => (r, w, o :: as)
    else if w (o + 33) ≠ 1 then
      let len := (w (o + 32)).toNat
      if len ≤ 255 then
        let w := w.store8 (o + 33 + len) 0
        let here := o :: (o + 33) :: (o + 32) :: (o + 33 + len) :: strEqReads w (o + 33) name.bytes
        if strEq w (o + 33) name.bytes then .done (some o, w, here ++ nodeReads w o)
        else
          (finddirWalk name fuel w (o + (w o).toNat) false).map fun (r, w, as) => (r, w, here ++ as)
      else .done (none, w, [o, o + 33, o + 32])
    else
      (finddirWalk name fuel w (o + (w o).toNat) false).map fun (r, w, as) =>
        (r, w, o :: (o + 33) :: as)

-- ---------------------------------------------------------------------------
-- The path table
-- ---------------------------------------------------------------------------

/-- The first scan of `iso9660_recreate`. -/
def findWalk (w : Mem) (inode : Nat) :
    Nat → Nat → Bool → Outcome (Option (Nat × Bool) × List Nat)
  | 0, _, _ => .running
  | fuel + 1, p, isFirstEntry =>
    if w.load32 (p + 2) = inode then .done (some (p, isFirstEntry), wordReads (p + 2))
    else if w p = 0 then .done (none, wordReads (p + 2) ++ [p])
    else
      (findWalk w inode fuel (p + pathEntryLen w p) false).map fun (r, as) =>
        (r, wordReads (p + 2) ++ p :: as)

/-- The second scan of `iso9660_recreate`, and the lba it reads at the end. -/
def skipWalk (w : Mem) : Nat → Nat → Option Nat × List Nat
  | 0, p => (some p, wordReads (p + 2))
  | n + 1, p =>
    if w p = 0 then (none, [p])
    else
      let (r, as) := skipWalk w n (p + pathEntryLen w p)
      (r, p :: as)

/-- Both scans, with the number of the parent that is read between them. -/
def scanAccesses (w : Mem) (inode fuel : Nat) : Outcome (List Nat) :=
  (findWalk w inode fuel 0 true).map fun
  | (none, as) => as
  | (some (p, isFirstEntry), as) =>
    as ++ [p + 6, p + 7] ++
      if isFirstEntry then [] else (skipWalk w (w.load16 (p + 6) - 1) 0).2

-- ---------------------------------------------------------------------------
-- The walks of the model
-- ---------------------------------------------------------------------------

section Model

variable {m : Mem} {base : Nat}

theorem window_store8 (o : Nat) (v : UInt8) :
    window (m.store8 (base + o) v) base = (window m base).store8 o v := by
  funext k
  unfold window store8
  simp only [Nat.add_left_cancel_iff]

theorem strEq_window (o : Nat) (name : List UInt8) :
    strEq m (base + o) name = strEq (window m base) o name := by
  induction name generalizing o with
  | nil => rfl
  | cons c cs ih =>
    rw [strEq, strEq, Nat.add_assoc, ih (o + 1)]
    rfl

theorem readdirWalk_loop (i fuel o : Nat) (skipFirst : Bool) (count : Nat) :
    readdirLoop m i fuel (base + o) skipFirst count =
      (readdirWalk (window m base) i fuel o skipFirst count).map fun (r, _) =>
        r.map (base + ·) := by
  induction fuel generalizing o skipFirst count with
  | zero => rfl
  | succ fuel ih =>
    have hNext : ∀ k, base + o + k = base + (o + k) := fun k => Nat.add_assoc base o k
    rw [readdirLoop, readdirWalk]
    simp only [hNext, show m (base + o) = window m base o from rfl,
      show m (base + (o + 33)) = window m base (o + 33) from rfl, ih]
    by_cases hEnd : window m base o = 0
    · rw [if_pos hEnd, if_pos hEnd]
      rfl
    · rw [if_neg hEnd, if_neg hEnd]
      cases skipFirst with
      | true =>
        rw [if_neg (by simp), if_pos rfl, Outcome.map_map]
      | false =>
        rw [if_neg (show ¬ false = true by decide)]
        by_cases hShown : window m base (o + 33) ≠ 1
        · rw [if_pos ⟨rfl, hShown⟩, if_pos hShown]
          by_cases hCount : count = i
          · rw [if_pos hCount, if_pos hCount]
            rfl
          · rw [if_neg hCount, if_neg hCount, Outcome.map_map]
        · rw [if_neg fun hc => hShown hc.2, if_neg hShown, Outcome.map_map]

theorem finddirWalk_loop (name : CString) (fuel : Nat) (m : Mem) (o : Nat) (skipFirst : Bool) :
    (finddirLoop name fuel m (base + o) skipFirst).map (fun (r, m) => (r, window m base)) =
      (finddirWalk name fuel (window m base) o skipFirst).map fun (r, w, _) =>
        (r.map (base + ·), w) := by
  induction fuel generalizing m o skipFirst with
  | zero => rfl
  | succ fuel ih =>
    have hNext : ∀ k, base + o + k = base + (o + k) := fun k => Nat.add_assoc base o k
    rw [finddirLoop, finddirWalk]
    simp only [hNext, show m (base + o) = window m base o from rfl,
      show m (base + (o + 33)) = window m base (o + 33) from rfl,
      show m (base + (o + 32)) = window m base (o + 32) from rfl]
    by_cases hEnd : window m base o = 0
    · rw [if_pos hEnd, if_pos hEnd]
      rfl
    · rw [if_neg hEnd, if_neg hEnd]
      cases skipFirst with
      | true =>
        rw [if_neg (by simp), if_pos rfl, ih, Outcome.map_map]
      | false =>
        rw [if_neg (show ¬ false = true by decide)]
        by_cases hShown : window m base (o + 33) ≠ 1
        · rw [if_pos ⟨rfl, hShown⟩, if_pos hShown]
          by_cases hLen : (window m base (o + 32)).toNat ≤ 255
          · rw [if_pos hLen, if_pos hLen, Nat.add_assoc base (o + 33), ← window_store8]
            generalize m.store8 (base + (o + 33 + (window m base (o + 32)).toNat)) 0 = m'
            rw [strEq_window]
            by_cases hEq : strEq (window m' base) (o + 33) name.bytes = true
            · rw [if_pos hEq, if_pos hEq]
              rfl
            · rw [if_neg hEq, if_neg hEq, show m' (base + o) = window m' base o from rfl, ih,
                Outcome.map_map]
          · rw [if_neg hLen, if_neg hLen]
            rfl
        · rw [if_neg fun hc => hShown hc.2, if_neg hShown, ih, Outcome.map_map]

theorem findWalk_loop (inode fuel p : Nat) (isFirstEntry : Bool) :
    findPathEntry m inode fuel (base + p) isFirstEntry =
      (findWalk (window m base) inode fuel p isFirstEntry).map fun (r, _) =>
        r.map fun (p, isFirstEntry) => (base + p, isFirstEntry) := by
  induction fuel generalizing p isFirstEntry with
  | zero => rfl
  | succ fuel ih =>
    rw [findPathEntry, findWalk,
      show m.load32 (base + p + 2) = (window m base).load32 (p + 2) from rfl,
      show m (base + p) = window m base p from rfl, Nat.add_assoc base p, ih]
    by_cases hFound : (window m base).load32 (p + 2) = inode
    · rw [if_pos hFound, if_pos hFound]
      rfl
    · rw [if_neg hFound, if_neg hFound]
      by_cases hEnd : window m base p = 0
      · rw [if_pos hEnd, if_pos hEnd]
        rfl
      · rw [if_neg hEnd, if_neg hEnd, Outcome.map_map]
        rfl

theorem skipWalk_loop (n p : Nat) :
    skipPathEntries m n (base + p) = (skipWalk (window m base) n p).1.map (base + ·) := by
  induction n generalizing p with
  | zero => rfl
  | succ n ih =>
    rw [skipPathEntries, skipWalk, Nat.add_assoc base p, ih]
    by_cases hEnd : window m base p = 0
    · rw [if_pos (show m (base + p) = 0 from hEnd), if_pos hEnd]
      rfl
    · rw [if_neg (show ¬ m (base + p) = 0 from hEnd), if_neg hEnd]
      rfl

end Model

end Hexos
