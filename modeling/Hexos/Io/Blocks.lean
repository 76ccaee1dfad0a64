import Hexos.Io.Transfer

/-!
# HexOS — what a disk read stores

`ata_read` and `atapi_read` wait before each block and give up when a wait fails;
`ata_read` waits once more behind the last block. Whatever the status register,
the data register and the clock say, the buffer then holds the data words in the
order they were read, as a number of whole blocks, and all blocks when the call
returns something other than 0. Both calls hold `ata_mutex`.

## Results

* `pioReadWords_eq` — a burst stores the next data words.
* `readBlocks_whole` — the loop over the blocks, by induction on the blocks.
* `ataRead_whole`, `atapiRead_whole` — the two functions without the mutex.
* `disk_reads_whole_blocks` — the two functions.
-/

namespace Hexos

open Mem Traced

-- ---------------------------------------------------------------------------
-- The mutex
-- ---------------------------------------------------------------------------

/-- The driver, with the field `locked` of `ata_mutex`. -/
structure AtaShared where
  ata    : AtaState
  locked : Int

/-- `mutex_lock(&ata_mutex)`. Each time `process_wait` returns, other processes have
run and the driver is in the next of the states `found`. -/
def ataMutexLock : List AtaShared → Traced AtaShared AtaEvent Unit
  | [] => fun s => if s.locked ≠ 0 then (none, s, []) else (some (), { s with locked := 1 }, [])
  | s' :: found => fun s =>
    if s.locked ≠ 0 then ataMutexLock found s' else (some (), { s with locked := 1 }, [])

/-- `mutex_unlock(&ata_mutex)`. The process it wakes up does not run yet. -/
def ataMutexUnlock : Traced AtaShared AtaEvent Unit := update fun s => ((), { s with locked := 0 })

/-- A routine of the driver, while the mutex is held. -/
def onAta {α : Type} (f : Driver α) : Traced AtaShared AtaEvent α := fun s =>
  ((f s.ata).1, { s with ata := (f s.ata).2.1 }, (f s.ata).2.2)

/-- `ata_read` and `atapi_read`, around the function without the mutex. -/
def underMutex (found : List AtaShared) (f : Driver Int) : Traced AtaShared AtaEvent Int := do
  ataMutexLock found
  let result ← onAta f
  ataMutexUnlock
  pure result

/-- The process waits for the mutex, or found it free in one of the states. -/
theorem ataMutexLock_cases (found : List AtaShared) (s : AtaShared) :
    (∃ s' ∈ s :: found, ataMutexLock found s = (none, s', [])) ∨
    ∃ s₀ ∈ s :: found, s₀.locked = 0 ∧
      ataMutexLock found s = (some (), { s₀ with locked := 1 }, []) := by
  induction found generalizing s with
  | nil =>
    by_cases hLocked : s.locked = 0
    · exact Or.inr ⟨s, List.mem_cons_self, hLocked, by simp [ataMutexLock, hLocked]⟩
    · exact Or.inl ⟨s, List.mem_cons_self, by simp [ataMutexLock, hLocked]⟩
  | cons s' found ih =>
    by_cases hLocked : s.locked = 0
    · exact Or.inr ⟨s, List.mem_cons_self, hLocked, by simp [ataMutexLock, hLocked]⟩
    · have hNext : ataMutexLock (s' :: found) s = ataMutexLock found s' := by
        simp [ataMutexLock, hLocked]
      rw [hNext]
      rcases ih s' with ⟨s'', hMem, hRun⟩ | ⟨s₀, hMem, hFree, hRun⟩
      · exact Or.inl ⟨s'', List.mem_cons_of_mem s hMem, hRun⟩
      · exact Or.inr ⟨s₀, List.mem_cons_of_mem s hMem, hFree, hRun⟩

/-- A call under the mutex waits, or runs from a state in which the mutex is free,
and gives the mutex back when it returns. -/
theorem underMutex_cases (found : List AtaShared) (f : Driver Int) (s : AtaShared) :
    ((underMutex found f s).1 = none ∧ (underMutex found f s).2.1 ∈ s :: found) ∨
    ∃ s₀ ∈ s :: found, s₀.locked = 0 ∧ (underMutex found f s).1 = (f s₀.ata).1 ∧
      (underMutex found f s).2.1.ata = (f s₀.ata).2.1 ∧
      ∀ v, (underMutex found f s).1 = some v → (underMutex found f s).2.1.locked = 0 := by
  rcases ataMutexLock_cases found s with ⟨s', hMem, hRun⟩ | ⟨s₀, hMem, hFree, hRun⟩
  · have hCall : underMutex found f s = (none, s', []) := by
      show andThen _ _ s = _
      unfold andThen
      rw [hRun]
    rw [hCall]
    exact Or.inl ⟨rfl, hMem⟩
  · refine Or.inr ⟨s₀, hMem, hFree, ?_⟩
    rcases hf : f s₀.ata with ⟨_ | v, s', log⟩
    · have hCall : underMutex found f s = (none, ⟨s', 1⟩, log) := by
        show andThen _ _ s = _
        unfold andThen
        rw [hRun]
        show (_, _, _) = _
        simp [Bind.bind, andThen, onAta, hf]
      rw [hCall]
      exact ⟨rfl, rfl, fun v hv => by cases hv⟩
    · have hCall : underMutex found f s = (some v, ⟨s', 0⟩, log) := by
        show andThen _ _ s = _
        unfold andThen
        rw [hRun]
        simp [Bind.bind, Pure.pure, ret, andThen, onAta, hf, ataMutexUnlock, update]
      rw [hCall]
      exact ⟨rfl, rfl, fun _ _ => rfl⟩

-- ---------------------------------------------------------------------------
-- Routines that move no data
-- ---------------------------------------------------------------------------

/-- The monitor that accepts every log. -/
def anyEvent : Unit → AtaEvent → Option Unit := fun _ _ => some ()

section Driver

variable (inp : AtaInputs) (fuel id : Nat) (m : Mem) (k : Nat)

/-- The memory is `m`, and `k` data words have been read. -/
def DataAt (m : Mem) (k : Nat) (_ : Unit) (s : AtaState) : Prop := s.mem = m ∧ s.dataReads = k

theorem quiet_data : Quiet anyEvent (DataAt m k) where
  outb _ _ _ _ h := ⟨(), rfl, h⟩
  wait _ _ _ _ _ _ h := ⟨(), rfl, h⟩
  counters _ _ _ _ h := h

theorem ataBegin_data (command : Nat) (nblocks : Int) (offset : Nat) :
    Triple anyEvent (DataAt m k) (ataBegin inp fuel id command nblocks offset) fun _ =>
      DataAt m k := by
  have hQuiet := quiet_data m k
  refine checked (hQuiet.ataWait inp fuel id _ _) ?_ (fun _ _ h => h) fun _ _ h => h
  refine Triple.bind (hQuiet.outbs _) ?_ fun _ _ h => h
  intro _
  refine checked (hQuiet.waitReady inp fuel id command) ?_ (fun _ _ h => h) fun _ _ h => h
  exact Triple.bind (hQuiet.outbs _) (fun _ => Triple.pure fun _ _ h => h) fun _ _ h => h

theorem atapiBegin_data (data : Mem) (length : Nat) :
    Triple anyEvent (DataAt m k) (atapiBegin inp fuel id data length) fun _ => DataAt m k := by
  have hQuiet := quiet_data m k
  refine checked (hQuiet.ataWait inp fuel id _ _) ?_ (fun _ _ h => h) fun _ _ h => h
  refine Triple.bind (hQuiet.outbs _) ?_ fun _ _ h => h
  intro _
  refine checked (hQuiet.ataWait inp fuel id _ _) ?_ (fun _ _ h => h) fun _ _ h => h
  refine Triple.bind (hQuiet.outbs _) ?_ fun _ _ h => h
  intro _
  refine Triple.bind (hQuiet.ataWait inp fuel id _ _) ?_ fun _ _ h => h
  intro _
  exact Triple.bind_emit (fun _ _ h => ⟨(), rfl, h⟩) (Triple.pure fun _ _ h => h)

-- ---------------------------------------------------------------------------
-- Bursts
-- ---------------------------------------------------------------------------

/-- Byte `j` of the data words from word `k` on, the low byte of a word first. -/
def dataByte (inp : AtaInputs) (k : Nat) : Mem := fun j =>
  let w := (inp.data (k + j / 2)).toNat
  if j % 2 = 0 then UInt8.ofNat w else UInt8.ofNat (w / 256)

theorem dataByte_add (j i : Nat) : dataByte inp (k + j) i = dataByte inp k (2 * j + i) := by
  have hWord : k + (2 * j + i) / 2 = k + j + i / 2 := by omega
  have hHalf : (2 * j + i) % 2 = i % 2 := by omega
  unfold dataByte
  rw [hWord, hHalf]

/-- The data words from `k` on, stored in two parts. -/
theorem copyIn_dataByte (buffer x y : Nat) :
    (m.copyIn buffer (2 * x) (dataByte inp k)).copyIn (buffer + 2 * x) y (dataByte inp (k + x)) =
      m.copyIn buffer (2 * x + y) (dataByte inp k) := by
  funext i
  unfold copyIn
  by_cases hSecond : buffer + 2 * x ≤ i ∧ i < buffer + 2 * x + y
  · rw [if_pos hSecond, if_pos (by omega), dataByte_add]
    congr 1
    omega
  · rw [if_neg hSecond]
    by_cases hFirst : buffer ≤ i ∧ i < buffer + 2 * x
    · rw [if_pos hFirst, if_pos (by omega)]
    · rw [if_neg hFirst, if_neg (by omega)]

/-- `ata_pio_read` stores the next words. -/
theorem pioReadWords_eq (s : AtaState) (buffer n : Nat) :
    pioReadWords inp s buffer n =
      { s with
        dataReads := s.dataReads + n
        mem := s.mem.copyIn buffer (2 * n) (dataByte inp s.dataReads) } := by
  induction n generalizing s buffer with
  | zero =>
    have hNone : s.mem.copyIn buffer (2 * 0) (dataByte inp s.dataReads) = s.mem := by
      funext i
      exact if_neg (by omega)
    rw [pioReadWords, hNone, Nat.add_zero]
  | succ n ih =>
    -- one word is the two bytes of the first part
    have hWord :
        (s.mem.store8 buffer (UInt8.ofNat (inp.data s.dataReads).toNat)).store8 (buffer + 1)
        (UInt8.ofNat ((inp.data s.dataReads).toNat / 256)) =
        s.mem.copyIn buffer (2 * 1) (dataByte inp s.dataReads) := by
      funext i
      unfold copyIn dataByte store8
      by_cases hHigh : i = buffer + 1
      · rw [if_pos hHigh, if_pos (by omega), hHigh, Nat.add_sub_cancel_left]
        rfl
      · rw [if_neg hHigh]
        by_cases hLow : i = buffer
        · rw [if_pos hLow, if_pos (by omega), hLow, Nat.sub_self]
          rfl
        · rw [if_neg hLow, if_neg (by omega)]
    have hParts := copyIn_dataByte inp s.mem s.dataReads buffer 1 (2 * n)
    rw [pioReadWords, ih, hWord]
    simp only [AtaState.mk.injEq, true_and]
    refine ⟨by omega, ?_⟩
    rw [show buffer + 2 = buffer + 2 * 1 from rfl, hParts]
    congr 1
    omega

-- ---------------------------------------------------------------------------
-- Blocks
-- ---------------------------------------------------------------------------

/-- The buffer holds the next data words, as `j` whole blocks of `size` bytes, and no
other byte of the memory `m` has changed. -/
def Stored (inp : AtaInputs) (m : Mem) (k buffer size j : Nat) (s : AtaState) : Prop :=
  s.mem = m.copyIn buffer (j * size) (dataByte inp k) ∧ s.dataReads = k + j * (size / 2)

theorem stored_zero {s : AtaState} (buffer size : Nat) (h : s.mem = m ∧ s.dataReads = k) :
    Stored inp m k buffer size 0 s := by
  refine ⟨?_, by omega⟩
  rw [h.1]
  funext i
  exact (if_neg (by omega)).symm

/-- One block, and then `j` more. -/
theorem stored_succ {s : AtaState} {buffer w j : Nat}
    (h : Stored inp (m.copyIn buffer (2 * w) (dataByte inp k)) (k + w) (buffer + 2 * w)
      (2 * w) j s) :
    Stored inp m k buffer (2 * w) (j + 1) s := by
  obtain ⟨hMem, hReads⟩ := h
  have hHalf : 2 * w / 2 = w := by omega
  rw [hHalf] at hReads
  refine ⟨?_, ?_⟩
  · rw [hMem, copyIn_dataByte, Nat.add_mul j 1, Nat.one_mul, Nat.add_comm (2 * w)]
  · rw [hReads, hHalf, Nat.add_mul j 1]
    omega

/-- `ata_pio_read` of one block. -/
theorem ataPioRead_data (buffer w : Nat) :
    Triple anyEvent (DataAt m k) (ataPioRead inp id buffer (2 * w))
      fun _ => DataAt (m.copyIn buffer (2 * w) (dataByte inp k)) (k + w) := by
  refine Triple.bind_emit (fun _ _ h => ⟨(), rfl, h⟩) (Triple.update ?_)
  intro _ s h
  obtain ⟨rfl, rfl⟩ := h
  have hWords : (2 * w + 1) / 2 = w := by omega
  rw [hWords, pioReadWords_eq]
  exact ⟨rfl, rfl⟩

/-- **Blocks.** The loop stores whole blocks, and all of them unless a wait failed.
The induction is on the blocks, for every buffer and every word to come. -/
theorem readBlocks_whole (w n buffer : Nat) :
    Triple anyEvent (DataAt m k) (readBlocks inp fuel id (2 * w) n buffer) fun r _ s =>
      ∃ j ≤ n, Stored inp m k buffer (2 * w) j s ∧ (r = some true → j = n) ∧
        (r = some false → j < n) := by
  induction n generalizing m k buffer with
  | zero =>
    refine Triple.pure fun _ s h =>
      ⟨0, Nat.le_refl 0, stored_zero inp m k buffer _ h, fun _ => rfl, ?_⟩
    intro hc
    cases hc
  | succ n ih =>
    have hNone : ∀ r : Option Bool, r ≠ some true → ∀ p s, DataAt m k p s →
        ∃ j ≤ n + 1, Stored inp m k buffer (2 * w) j s ∧ (r = some true → j = n + 1) ∧
          (r = some false → j < n + 1) := by
      intro r hr _ s h
      exact ⟨0, Nat.zero_le _, stored_zero inp m k buffer _ h, fun hc => absurd hc hr,
        fun _ => Nat.succ_pos n⟩
    refine checked ((quiet_data m k).ataWait inp fuel id _ _) ?_ (hNone _ (by simp))
      (hNone _ (by simp))
    refine Triple.bind (R := fun r p s => r = some () ∧
      DataAt (m.copyIn buffer (2 * w) (dataByte inp k)) (k + w) p s) ?_ ?_ ?_
    · intro p s h
      obtain ⟨p', hLog, hData⟩ := ataPioRead_data inp id m k buffer w p s h
      exact ⟨p', hLog, rfl, hData⟩
    · intro _ p s h
      obtain ⟨p', hLog, j, hj, hStored, hTrue, hFalse⟩ := ih _ _ (buffer + 2 * w) p s h.2
      refine ⟨p', hLog, j + 1, by omega, stored_succ inp m k hStored, ?_, ?_⟩
      · intro hr
        rw [hTrue hr]
      · intro hr
        have := hFalse hr
        omega
    · intro p s h
      cases h.1

/-- What a read of `n` blocks has stored, given what it returned. -/
def WholeBlocks (inp : AtaInputs) (m : Mem) (k buffer size n : Nat) (r : Option Int)
    (s : AtaState) : Prop :=
  ∃ j ≤ n, Stored inp m k buffer size j s ∧ ∀ v, r = some v → v ≠ 0 → j = n

theorem wholeBlocks_none {r : Option Int} (hr : ∀ v, r = some v → v = 0) (buffer size n : Nat)
    (p : Unit) (s : AtaState) (h : DataAt m k p s) :
    WholeBlocks inp m k buffer size n r s :=
  ⟨0, Nat.zero_le _, stored_zero inp m k buffer size h, fun v hv hne => absurd (hr v hv) hne⟩

/-- **`ata_read_unlocked`.** -/
theorem ataRead_whole (buffer : Nat) (nblocks : Int) (offset : Nat) :
    Triple anyEvent (DataAt m k) (ataRead inp fuel id buffer nblocks offset) fun r _ s =>
      WholeBlocks inp m k buffer 512 nblocks.toNat r s := by
  have hNone := fun r hr => wholeBlocks_none inp m k (r := r) hr buffer 512 nblocks.toNat
  refine checked (ataBegin_data inp fuel id m k _ _ _) ?_ (hNone _ (by simp)) (hNone _ (by simp))
  refine Triple.bind (waitQueue_keeps inp) ?_ (hNone _ (by simp))
  intro _
  refine Triple.bind (readBlocks_whole inp fuel id m k 256 nblocks.toNat buffer) ?_ ?_
  · intro moved
    split
    · refine Triple.pure ?_
      intro _ s h
      obtain ⟨j, hj, hStored, -⟩ := h
      exact ⟨j, hj, hStored, fun v hv hne => by simp_all⟩
    · next hMoved =>
      -- all blocks are stored: the last wait moves no data
      refine Triple.of_forall ?_
      intro p s h
      obtain ⟨j, hj, hStored, hTrue, -⟩ := h
      have hAll : j = nblocks.toNat := hTrue (by simpa using hMoved)
      have hEnd : ∀ r q s', DataAt s.mem s.dataReads q s' →
          WholeBlocks inp m k buffer 512 nblocks.toNat r s' := by
        rintro r q s' ⟨hMem, hReads⟩
        refine ⟨j, hj, ⟨?_, ?_⟩, fun _ _ _ => hAll⟩
        · rw [hMem]
          exact hStored.1
        · rw [hReads]
          exact hStored.2
      refine Triple.strengthen (P := DataAt s.mem s.dataReads) ?_ ?_
      · exact checked ((quiet_data _ _).ataWait inp fuel id _ _) (Triple.pure (hEnd _))
          (hEnd _) (hEnd _)
      · rintro q s' ⟨-, rfl⟩
        exact ⟨rfl, rfl⟩
  · intro _ s h
    obtain ⟨j, hj, hStored, -⟩ := h
    exact ⟨j, hj, hStored, fun v hv => by cases hv⟩

/-- **`atapi_read_unlocked`.** A read that returns 0 has not stored the last block. -/
theorem atapiRead_whole (buffer : Nat) (nblocks : Int) (offset : Nat) :
    Triple anyEvent (DataAt m k) (atapiRead inp fuel id buffer nblocks offset) fun r _ s =>
      ∃ j ≤ nblocks.toNat, Stored inp m k buffer 2048 j s ∧
        (∀ v, r = some v → v ≠ 0 → j = nblocks.toNat) ∧
        (r = some 0 → j = 0 ∨ j < nblocks.toNat) := by
  have hNone : ∀ r : Option Int, (∀ v, r = some v → v = 0) → ∀ p s, DataAt m k p s →
      ∃ j ≤ nblocks.toNat, Stored inp m k buffer 2048 j s ∧
        (∀ v, r = some v → v ≠ 0 → j = nblocks.toNat) ∧
        (r = some 0 → j = 0 ∨ j < nblocks.toNat) := by
    intro r hr p s h
    exact ⟨0, Nat.zero_le _, stored_zero inp m k buffer 2048 h,
      fun v hv hne => absurd (hr v hv) hne,
      fun _ => Or.inl rfl⟩
  refine checked (atapiBegin_data inp fuel id m k _ _) ?_ (hNone _ (by simp)) (hNone _ (by simp))
  refine Triple.bind (waitQueue_keeps inp) ?_ (hNone _ (by simp))
  intro _
  refine Triple.bind (readBlocks_whole inp fuel id m k 1024 nblocks.toNat buffer) ?_ ?_
  · intro moved
    split
    · next hMoved =>
      refine Triple.pure ?_
      intro _ s h
      obtain ⟨j, hj, hStored, -, hFalse⟩ := h
      exact ⟨j, hj, hStored,
        fun v hv hne => by simp_all, fun _ => Or.inr (hFalse (by rw [hMoved]))⟩
    · next hMoved =>
      refine Triple.pure ?_
      intro _ s h
      obtain ⟨j, hj, hStored, hTrue, -⟩ := h
      exact ⟨j, hj, hStored, fun _ _ _ => hTrue (by simpa using hMoved), fun hc => by cases hc⟩
  · intro _ s h
    obtain ⟨j, hj, hStored, -⟩ := h
    exact ⟨j, hj, hStored, fun v hv => (by cases hv), fun hc => (by cases hc)⟩

end Driver

-- ---------------------------------------------------------------------------
-- Calls
-- ---------------------------------------------------------------------------

/-- A call that reads `n` blocks of `size` bytes into the buffer: while it waits for
the mutex nothing of it has happened; once it has the mutex, the buffer holds the
data words in the order they were read, as a prefix of whole blocks, the memory
outside of the `n` blocks is as it was, something other than 0 means that all
blocks are stored, and a call that returns has given the mutex back. -/
def ReadsWholeBlocks (inp : AtaInputs) (buffer size n : Nat) (f : Driver Int) : Prop :=
  ∀ (found : List AtaShared) (s : AtaShared),
    ((underMutex found f s).1 = none ∧ (underMutex found f s).2.1 ∈ s :: found) ∨
    ∃ s₀ ∈ s :: found, s₀.locked = 0 ∧
      WholeBlocks inp s₀.ata.mem s₀.ata.dataReads buffer size n (underMutex found f s).1
        (underMutex found f s).2.1.ata ∧
      SameOff s₀.ata.mem (underMutex found f s).2.1.ata.mem buffer (n * size) ∧
      ∀ v, (underMutex found f s).1 = some v → (underMutex found f s).2.1.locked = 0

theorem readsWholeBlocks_of_whole {inp : AtaInputs} {buffer size n : Nat} {f : Driver Int}
    (h : ∀ m k, Triple anyEvent (DataAt m k) f fun r _ s =>
      WholeBlocks inp m k buffer size n r s) :
    ReadsWholeBlocks inp buffer size n f := by
  intro found s
  rcases underMutex_cases found f s with hWait | ⟨s₀, hMem, hFree, hResult, hAta, hUnlock⟩
  · exact Or.inl hWait
  · obtain ⟨-, -, hWhole⟩ := h s₀.ata.mem s₀.ata.dataReads () s₀.ata ⟨rfl, rfl⟩
    rw [← hResult, ← hAta] at hWhole
    refine Or.inr ⟨s₀, hMem, hFree, hWhole, ?_, hUnlock⟩
    obtain ⟨j, hj, ⟨hStored, -⟩, -⟩ := hWhole
    rw [hStored]
    exact (copyIn_sameOff _ _ _ _).sub (Nat.le_refl buffer) (by
      have := Nat.mul_le_mul_right size hj
      omega)

/-- **Disk transfers.** For every sequence of status values, data words and clock
values, and every number of blocks, `ata_read` and `atapi_read` store whole blocks
in order, and give the mutex back on every path. -/
theorem disk_reads_whole_blocks (inp : AtaInputs) (fuel id buffer : Nat) (nblocks : Int)
    (offset : Nat) :
    ReadsWholeBlocks inp buffer 512 nblocks.toNat (ataRead inp fuel id buffer nblocks offset) ∧
      ReadsWholeBlocks inp buffer 2048 nblocks.toNat
        (atapiRead inp fuel id buffer nblocks offset) := by
  refine ⟨readsWholeBlocks_of_whole fun m k =>
    ataRead_whole inp fuel id m k buffer nblocks offset, readsWholeBlocks_of_whole ?_⟩
  intro m k p s h
  obtain ⟨p', hLog, j, hj, hStored, hAll, -⟩ :=
    atapiRead_whole inp fuel id m k buffer nblocks offset p s h
  exact ⟨p', hLog, j, hj, hStored, hAll⟩

end Hexos
