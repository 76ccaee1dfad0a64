import Hexos.Io.Transfer
import Mathlib.Data.List.Induction

/-!
# HexOS — data only on request

A disk asks for a transfer by setting DRQ. The log of an operation is checked by a
monitor with three phases: no request, a request seen by the last wait, a wait
failed. A burst of data is accepted in the second phase only, and the third one is
never left.

## Results

* `monitor_eq` — what the monitor accepts, in terms of the log.
* `ataWait_triple` — what a wait can do.
* `ataRead_triple`, `atapiRead_triple` — the operations, but for a packet without a
  request.
* `data_on_request_iff` — exactly when an operation moves data on request only.
-/

namespace Hexos

open Traced

-- ---------------------------------------------------------------------------
-- Logs
-- ---------------------------------------------------------------------------

/-- A burst of data-port accesses. -/
def AtaEvent.isBurst : AtaEvent → Bool
  | .pioRead _ _ _ => true
  | .pioWrite _ _ => true
  | _ => false

/-- An `ata_wait` that returned 0. -/
def AtaEvent.isFailedWait : AtaEvent → Bool
  | .wait _ _ _ result => !result
  | _ => false

/-- The last status that an `ata_wait` read, and what it returned. -/
def AtaEvent.waited : AtaEvent → Option (BitVec 8 × Bool)
  | .wait _ _ status result => some (status, result)
  | _ => none

/-- The last `ata_wait` of a log. -/
def lastWait (log : List AtaEvent) : Option (BitVec 8 × Bool) :=
  log.reverse.findSome? AtaEvent.waited

/-- Data only on request: the last `ata_wait` before each burst returned 1 with DRQ
set, and after an `ata_wait` that failed there is no burst and the operation returns
0. -/
structure DataOnRequest (log : List AtaEvent) (result : Option Int) : Prop where
  requested : ∀ pre e post, log = pre ++ e :: post → e.isBurst = true →
    ∃ status, lastWait pre = some (status, true) ∧ status &&& statusDrq ≠ 0
  stops     : ∀ pre e post, log = pre ++ e :: post → e.isFailedWait = true →
    (∀ e' ∈ post, e'.isBurst = false) ∧ result = some 0

-- ---------------------------------------------------------------------------
-- The monitor
-- ---------------------------------------------------------------------------

/-- What the last waits have left. -/
inductive AtaPhase
  | idle
  | requested
  | failed
deriving DecidableEq

/-- The phase after one event. A failure stays. -/
def AtaPhase.next (p : AtaPhase) (e : AtaEvent) : AtaPhase :=
  match e.waited with
  | none => p
  | some (status, result) =>
    if p = .failed ∨ result = false then .failed
    else if status &&& statusDrq ≠ 0 then .requested else .idle

/-- The monitor: a burst without a request is rejected. -/
def ataMonitor (p : AtaPhase) (e : AtaEvent) : Option AtaPhase :=
  if e.isBurst = true → p = .requested then some (p.next e) else none

/-- The phase after a log. -/
def phaseOf (log : List AtaEvent) : AtaPhase :=
  if log.any AtaEvent.isFailedWait then .failed
  else match lastWait log with
    | some (status, _) => if status &&& statusDrq ≠ 0 then .requested else .idle
    | none => .idle

/-- Every burst comes in the phase of a request. -/
def Accepted (log : List AtaEvent) : Prop :=
  ∀ pre e post, log = pre ++ e :: post → e.isBurst = true → phaseOf pre = .requested

theorem lastWait_append (log : List AtaEvent) (e : AtaEvent) :
    lastWait (log ++ [e]) = e.waited.or (lastWait log) := by
  unfold lastWait
  rw [List.reverse_append, List.reverse_singleton, List.singleton_append, List.findSome?_cons]
  cases e.waited <;> rfl

theorem accepted_append (log : List AtaEvent) (e : AtaEvent) :
    Accepted (log ++ [e]) ↔ Accepted log ∧ (e.isBurst = true → phaseOf log = .requested) := by
  constructor
  · intro h
    refine ⟨?_, h log e [] rfl⟩
    intro pre e' post hLog
    exact h pre e' (post ++ [e]) (by rw [hLog, List.append_assoc, List.cons_append])
  · rintro ⟨hLog, hLast⟩ pre e' post hEq
    rcases List.eq_nil_or_concat post with rfl | ⟨post', e'', rfl⟩
    · obtain ⟨rfl, hd⟩ := List.append_inj' hEq rfl
      obtain rfl : e = e' := by simpa using hd
      exact hLast
    · rw [List.concat_eq_append, ← List.cons_append, ← List.append_assoc] at hEq
      obtain ⟨rfl, -⟩ := List.append_inj' hEq rfl
      exact hLog pre e' post' rfl

theorem phaseOf_eq_failed (log : List AtaEvent) :
    phaseOf log = .failed ↔ log.any AtaEvent.isFailedWait = true := by
  unfold phaseOf
  by_cases h : log.any AtaEvent.isFailedWait = true
  · rw [if_pos h]
    exact iff_of_true rfl h
  · rw [if_neg h]
    refine iff_of_false ?_ h
    intro hc
    split at hc
    · split at hc <;> cases hc
    · cases hc

theorem phaseOf_append (log : List AtaEvent) (e : AtaEvent) :
    phaseOf (log ++ [e]) = (phaseOf log).next e := by
  have hFailed := phaseOf_eq_failed log
  rw [show phaseOf (log ++ [e]) = if (log ++ [e]).any AtaEvent.isFailedWait then .failed
    else match lastWait (log ++ [e]) with
      | some (status, _) => if status &&& statusDrq ≠ 0 then .requested else .idle
      | none => .idle from rfl, List.any_append, lastWait_append]
  cases e with
  | wait mask state status result =>
    cases result with
    | false => simp [AtaPhase.next, AtaEvent.waited, AtaEvent.isFailedWait]
    | true => simp [AtaPhase.next, AtaEvent.waited, AtaEvent.isFailedWait, hFailed]
  | outb port value => simp [AtaPhase.next, AtaEvent.waited, AtaEvent.isFailedWait, phaseOf]
  | pioRead id buffer size => simp [AtaPhase.next, AtaEvent.waited, AtaEvent.isFailedWait, phaseOf]
  | pioWrite id words => simp [AtaPhase.next, AtaEvent.waited, AtaEvent.isFailedWait, phaseOf]

/-- **The monitor.** It accepts the logs whose bursts come on request, and knows the
phase. -/
theorem monitor_eq (log : List AtaEvent) (p : AtaPhase) :
    monitor ataMonitor .idle log = some p ↔ Accepted log ∧ p = phaseOf log := by
  induction log using List.reverseRecOn generalizing p with
  | nil =>
    have hAccepted : Accepted [] := fun pre e post h => by simp at h
    rw [show monitor ataMonitor .idle [] = some .idle from rfl, Option.some.injEq,
      and_iff_right hAccepted]
    exact eq_comm
  | append_singleton log e ih =>
    have hLast : ∀ p', monitor ataMonitor p' [e] = ataMonitor p' e := by
      intro p'
      show (ataMonitor p' e).bind some = ataMonitor p' e
      exact Option.bind_fun_some _
    rw [monitor_append, Option.bind_eq_some_iff, accepted_append, phaseOf_append]
    constructor
    · rintro ⟨p', hLog, hNext⟩
      obtain ⟨hAccepted, rfl⟩ := (ih p').mp hLog
      rw [hLast, ataMonitor] at hNext
      split at hNext
      · next hBurst => exact ⟨⟨hAccepted, hBurst⟩, (Option.some.inj hNext).symm⟩
      · cases hNext
    · rintro ⟨⟨hAccepted, hBurst⟩, rfl⟩
      refine ⟨phaseOf log, (ih _).mpr ⟨hAccepted, rfl⟩, ?_⟩
      rw [hLast, ataMonitor, if_pos hBurst]

theorem phaseOf_eq_requested {log : List AtaEvent} (h : phaseOf log = .requested) :
    (∀ e ∈ log, e.isFailedWait = false) ∧
      ∃ status, lastWait log = some (status, true) ∧ status &&& statusDrq ≠ 0 := by
  unfold phaseOf at h
  split at h
  · cases h
  · next hFailed =>
    have hNone : ∀ e ∈ log, e.isFailedWait = false := by simpa using hFailed
    refine ⟨hNone, ?_⟩
    split at h
    · next status result hLast =>
      split at h
      · next hDrq =>
        -- the last wait is in the log, so it did not fail
        obtain ⟨e, he, hWaited⟩ := List.exists_of_findSome?_eq_some hLast
        have hOk := hNone e (List.mem_reverse.mp he)
        cases e with
        | wait mask state status' result' =>
          simp only [AtaEvent.waited, Option.some.injEq, Prod.mk.injEq] at hWaited
          simp only [AtaEvent.isFailedWait, Bool.not_eq_false'] at hOk
          obtain ⟨rfl, rfl⟩ := hWaited
          exact ⟨status', by rw [hLast, hOk], hDrq⟩
        | outb port value => cases hWaited
        | pioRead id buffer size => cases hWaited
        | pioWrite id words => cases hWaited
      · cases h
    · cases h

theorem phaseOf_requested {log : List AtaEvent} (hFailed : ∀ e ∈ log, e.isFailedWait = false)
    {status : BitVec 8} (hLast : lastWait log = some (status, true))
    (hDrq : status &&& statusDrq ≠ 0) :
    phaseOf log = .requested := by
  unfold phaseOf
  rw [if_neg (by simpa using hFailed), hLast]
  exact if_pos hDrq

/-- The property of a log as one of the monitor. -/
theorem dataOnRequest_iff (log : List AtaEvent) (result : Option Int) :
    DataOnRequest log result ↔ Accepted log ∧ (phaseOf log = .failed → result = some 0) := by
  rw [phaseOf_eq_failed, List.any_eq_true]
  constructor
  · intro h
    refine ⟨?_, ?_⟩
    · intro pre e post hLog hBurst
      obtain ⟨status, hLast, hDrq⟩ := h.requested pre e post hLog hBurst
      refine phaseOf_requested ?_ hLast hDrq
      intro e' he'
      -- a failed wait before the burst would have stopped the operation
      by_contra hFailed
      obtain ⟨pre₁, pre₂, rfl⟩ := List.append_of_mem he'
      have hStops :=
        (h.stops pre₁ e' (pre₂ ++ e :: post) (by simp [hLog]) (by simpa using hFailed)).1
      rw [hStops e (by simp)] at hBurst
      cases hBurst
    · rintro ⟨e, he, hFailed⟩
      obtain ⟨pre, post, rfl⟩ := List.append_of_mem he
      exact (h.stops pre e post rfl hFailed).2
  · rintro ⟨hAccepted, hResult⟩
    refine ⟨fun pre e post hLog hBurst => ?_,
      fun pre e post hLog hFailed => ⟨fun e' he' => ?_, ?_⟩⟩
    · exact (phaseOf_eq_requested (hAccepted pre e post hLog hBurst)).2
    · by_contra hBurst
      obtain ⟨post₁, post₂, rfl⟩ := List.append_of_mem he'
      have hPhase :=
        hAccepted (pre ++ e :: post₁) e' post₂ (by simp [hLog]) (by simpa using hBurst)
      rw [(phaseOf_eq_requested hPhase).1 e (by simp)] at hFailed
      cases hFailed
    · exact hResult ⟨e, by simp [hLog], hFailed⟩

-- ---------------------------------------------------------------------------
-- Waits
-- ---------------------------------------------------------------------------

/-- No wait has failed. -/
def Unfailed (p : AtaPhase) (_ : AtaState) : Prop := p ≠ .failed

/-- After a wait or another part of an operation: a failure is reported, and nothing
else is; a wait for DRQ that succeeded has seen a request. -/
def Reported (state : BitVec 8) (r : Option Bool) (p : AtaPhase) (_ : AtaState) : Prop :=
  (r = some false ↔ p = .failed) ∧ (r = some true → state = statusDrq → p = .requested)

/-- After a routine that waits for nothing. -/
def StaysUnfailed (_ : Option Unit) (p : AtaPhase) (_ : AtaState) : Prop := p ≠ .failed

variable (inp : AtaInputs) (fuel id : Nat)

theorem outbs_triple {P : AtaPhase → AtaState → Prop} (l : List (Nat × Nat)) :
    Triple ataMonitor P (outbs l) fun _ p s => P p s := by
  induction l with
  | nil => exact Triple.pure fun p s hp => hp
  | cons pv l ih =>
    refine Triple.bind (R := fun _ p s => P p s) (Triple.emit fun p s hp => ⟨p, ?_, hp⟩)
      (fun _ => ih)
      fun _ _ hp => hp
    simp [ataMonitor, AtaEvent.isBurst, AtaPhase.next, AtaEvent.waited]

theorem silent_unfailed : Silent ataMonitor Unfailed where
  outb p _ _ _ hp :=
    ⟨p, by simp [ataMonitor, AtaEvent.isBurst, AtaPhase.next, AtaEvent.waited], hp⟩
  counters _ _ _ _ hp := hp

theorem and_statusDrq_ne_zero {t mask : BitVec 8} (h : t &&& mask = statusDrq) :
    t &&& statusDrq ≠ 0 := by
  intro hZero
  have hBoth : t &&& mask &&& statusDrq = t &&& statusDrq &&& mask := by
    rw [BitVec.and_assoc, BitVec.and_assoc, BitVec.and_comm mask]
  rw [h, hZero, show (0 : BitVec 8) &&& mask = 0 from BitVec.zero_and] at hBoth
  exact absurd hBoth (by decide)

/-- A wait that fails. -/
theorem ataWaitFail_triple (mask state t : BitVec 8) :
    Triple ataMonitor Unfailed (ataWaitFail inp fuel id mask state t) (Reported state) := by
  refine Triple.bind (silent_unfailed.ataReset inp fuel id) ?_
    fun p _ hp => ⟨iff_of_false (by simp) hp, fun h => by cases h⟩
  intro _
  refine Triple.bind_emit (R := fun p _ => p = .failed) (fun p s hp => ⟨.failed, ?_, rfl⟩) ?_
  · simp [ataMonitor, AtaEvent.isBurst, AtaPhase.next, AtaEvent.waited]
  · exact Triple.pure fun p s hp => ⟨iff_of_true rfl hp, fun h => by cases h⟩

/-- A wait that succeeds. -/
theorem ataWaitDone_triple {mask state t : BitVec 8} (hState : t &&& mask = state) :
    Triple ataMonitor Unfailed (do emit (.wait mask state t true); pure true : Driver Bool)
      (Reported state) := by
  refine Triple.bind_emit
    (R := fun p _ => p ≠ .failed ∧ (state = statusDrq → p = .requested)) ?_
    (Triple.pure fun p s hp => ⟨iff_of_false (by simp) hp.1, fun _ => hp.2⟩)
  intro p s hp
  by_cases hDrq : t &&& statusDrq ≠ 0
  · refine ⟨.requested, ?_, by decide, fun _ => rfl⟩
    simpa [ataMonitor, AtaEvent.isBurst, AtaPhase.next, AtaEvent.waited, show p ≠ .failed from hp]
      using hDrq
  · refine ⟨.idle, ?_, by decide, ?_⟩
    · simp [ataMonitor, AtaEvent.isBurst, AtaPhase.next, AtaEvent.waited, not_not.mp hDrq,
        show p ≠ .failed from hp]
    · intro h
      exact absurd (and_statusDrq_ne_zero (hState.trans h)) hDrq

/-- **Waits.** The induction is on the rounds of the loop. -/
theorem ataWaitLoop_triple (mask state : BitVec 8) (start : ClockTime) (rounds : Nat) :
    Triple ataMonitor Unfailed (ataWaitLoop inp fuel id mask state start rounds)
      (Reported state) := by
  have hRunning : ∀ p s, Unfailed p s → Reported state none p s :=
    fun p s hp => ⟨iff_of_false (by simp) hp, fun h => by cases h⟩
  induction rounds with
  | zero => exact Triple.running hRunning
  | succ rounds ih =>
    refine Triple.bind_update (R := fun _ => Unfailed) (fun p s hp => hp) ?_
    intro t
    split
    · next hState => exact ataWaitDone_triple hState
    · split
      · exact ataWaitFail_triple inp fuel id mask state t
      · refine Triple.bind_update (R := fun _ => Unfailed) (fun p s hp => hp) ?_
        intro now
        split
        · exact ataWaitFail_triple inp fuel id mask state t
        · exact Triple.bind (silent_unfailed.clockWait inp fuel 0) (fun _ => ih) hRunning

theorem ataWait_triple (mask state : BitVec 8) :
    Triple ataMonitor Unfailed (ataWait inp fuel id mask state) (Reported state) :=
  Triple.bind_update (R := fun _ => Unfailed) (fun _ _ hp => hp)
    fun start => ataWaitLoop_triple inp fuel id mask state start fuel

-- ---------------------------------------------------------------------------
-- Commands and blocks
-- ---------------------------------------------------------------------------

/-- A request has been seen. -/
def AtRequest (p : AtaPhase) (_ : AtaState) : Prop := p = .requested

/-- A part whose result is checked: `if(!f) return z;` and then the rest. -/
theorem checked_triple {α : Type} {state : BitVec 8} {f : Driver Bool} {g : Driver α} {z : α}
    {P : AtaPhase → AtaState → Prop} {Q : Option α → AtaPhase → AtaState → Prop}
    (hf : Triple ataMonitor P f (Reported state))
    (hg : Triple ataMonitor
      (fun p _ => p ≠ .failed ∧ (state = statusDrq → p = .requested)) g Q)
    (hFailed : ∀ s, Q (some z) .failed s) (hRunning : ∀ p s, p ≠ .failed → Q none p s) :
    Triple ataMonitor P (do let ok ← f; if ok = false then pure z else g) Q := by
  refine Triple.bind hf ?_ fun p s hp => hRunning p s fun hc => by cases hp.1.mpr hc
  intro ok
  cases ok with
  | false =>
    rw [if_pos rfl]
    refine Triple.pure ?_
    intro p s hp
    rw [hp.1.mp rfl]
    exact hFailed s
  | true =>
    rw [if_neg (by decide)]
    refine hg.strengthen fun p s hp => ⟨fun hc => ?_, hp.2 rfl⟩
    cases hp.1.mpr hc

theorem reported_true {state : BitVec 8} (hState : state ≠ statusDrq) (p : AtaPhase)
    (s : AtaState)
    (hp : p ≠ .failed) : Reported state (some true) p s :=
  ⟨iff_of_false (by simp) hp, fun _ h => absurd h hState⟩

theorem reported_false (state : BitVec 8) (s : AtaState) : Reported state (some false) .failed s :=
  ⟨iff_of_true rfl rfl, fun h => by cases h⟩

theorem reported_running (state : BitVec 8) (p : AtaPhase) (s : AtaState) (hp : p ≠ .failed) :
    Reported state none p s :=
  ⟨iff_of_false (by simp) hp, fun h => by cases h⟩

theorem ataPioRead_triple (buffer size : Nat) :
    Triple ataMonitor AtRequest (ataPioRead inp id buffer size) fun _ => AtRequest := by
  refine Triple.bind_emit (R := AtRequest) (fun p s hp => ⟨.requested, ?_, rfl⟩)
    (Triple.update fun p s hp => hp)
  rw [show p = .requested from hp]
  simp [ataMonitor, AtaPhase.next, AtaEvent.waited]

theorem ataPioWrite_triple (words : List Nat) :
    Triple ataMonitor AtRequest (ataPioWrite id words) fun _ => AtRequest := by
  refine Triple.emit fun p s hp => ⟨.requested, ?_, rfl⟩
  rw [show p = .requested from hp]
  simp [ataMonitor, AtaPhase.next, AtaEvent.waited]

/-- Either kind of the second wait. -/
theorem waitReady_triple (command : Nat) :
    ∃ state, Triple ataMonitor Unfailed (waitReady inp fuel id command) (Reported state) := by
  unfold waitReady
  split
  · exact ⟨_, ataWait_triple inp fuel id statusBsy 0⟩
  · exact ⟨_, ataWait_triple inp fuel id (statusBsy ||| statusRdy) statusRdy⟩

theorem ataBegin_triple (command : Nat) (nblocks : Int) (offset : Nat) :
    Triple ataMonitor Unfailed (ataBegin inp fuel id command nblocks offset) (Reported 0) := by
  have hFailed : ∀ s, Reported 0 (some false) .failed s := reported_false 0
  have hRunning := reported_running 0
  refine checked_triple (ataWait_triple inp fuel id statusBsy 0) ?_ hFailed hRunning
  refine Triple.bind (outbs_triple _) ?_ fun p s hp => hRunning p s hp.1
  intro _
  obtain ⟨state, hReady⟩ := waitReady_triple inp fuel id command
  refine Triple.strengthen (P := Unfailed) ?_ fun p s hp => hp.1
  refine checked_triple hReady ?_ hFailed hRunning
  refine Triple.bind (R := fun _ => Unfailed)
    ((outbs_triple _).strengthen fun p s hp => hp.1) ?_ hRunning
  intro _
  exact Triple.pure fun p s hp => reported_true (by decide) p s hp

/-- **Blocks in.** The induction is on the blocks left. -/
theorem readBlocks_triple (size n buffer : Nat) :
    Triple ataMonitor Unfailed (readBlocks inp fuel id size n buffer) (Reported 0) := by
  induction n generalizing buffer with
  | zero => exact Triple.pure fun p s hp => reported_true (by decide) p s hp
  | succ n ih =>
    refine checked_triple (ataWait_triple inp fuel id statusDrq statusDrq) ?_ (reported_false 0)
      (reported_running 0)
    refine Triple.bind (R := fun _ => AtRequest)
      ((ataPioRead_triple inp id buffer size).strengthen fun p s hp => hp.2 rfl) ?_ ?_
    · intro _
      refine (ih (buffer + size)).strengthen ?_
      intro p s hp
      rw [show p = .requested from hp]
      exact fun hc => by cases hc
    · intro p s hp
      rw [show p = .requested from hp]
      exact reported_running 0 _ s (by decide)

/-- **Blocks out.** -/
theorem writeBlocks_triple (size n buffer : Nat) :
    Triple ataMonitor Unfailed (writeBlocks inp fuel id size n buffer) (Reported 0) := by
  induction n generalizing buffer with
  | zero => exact Triple.pure fun p s hp => reported_true (by decide) p s hp
  | succ n ih =>
    refine checked_triple (ataWait_triple inp fuel id statusDrq statusDrq) ?_ (reported_false 0)
      (reported_running 0)
    refine Triple.bind_update (R := fun _ => AtRequest) (fun p s hp => hp.2 rfl) ?_
    intro words
    refine Triple.bind (ataPioWrite_triple id words) ?_ ?_
    · intro _
      refine (ih (buffer + size)).strengthen ?_
      intro p s hp
      rw [show p = .requested from hp]
      exact fun hc => by cases hc
    · intro p s hp
      rw [show p = .requested from hp]
      exact reported_running 0 _ s (by decide)

theorem waitQueue_triple : Triple ataMonitor Unfailed (waitQueue inp) StaysUnfailed :=
  waitQueue_keeps inp

-- ---------------------------------------------------------------------------
-- Operations
-- ---------------------------------------------------------------------------

/-- After an operation: it returns 0 if a wait failed. -/
def Answered (r : Option Int) (p : AtaPhase) (_ : AtaState) : Prop := p = .failed → r = some 0

theorem answered_of_unfailed {r : Option Int} (p : AtaPhase) (s : AtaState) (hp : p ≠ .failed) :
    Answered r p s := fun hc => absurd hc hp

theorem answered_zero (s : AtaState) : Answered (some 0) .failed s := fun _ => rfl

/-- The last wait of `ata_read` and `ata_write`. -/
theorem finish_triple (nblocks : Int) :
    Triple ataMonitor Unfailed
      (do let calm ← ataWait inp fuel id statusBsy 0
          if calm = false then pure 0 else pure nblocks : Driver Int) Answered :=
  checked_triple (ataWait_triple inp fuel id statusBsy 0)
    (Triple.pure fun p s hp => answered_of_unfailed p s hp.1) answered_zero answered_of_unfailed

theorem ataRead_triple (buffer : Nat) (nblocks : Int) (offset : Nat) :
    Triple ataMonitor Unfailed (ataRead inp fuel id buffer nblocks offset) Answered := by
  refine checked_triple (ataBegin_triple inp fuel id 0x20 nblocks offset) ?_ answered_zero
    answered_of_unfailed
  refine Triple.bind ((waitQueue_triple inp).strengthen fun p s hp => hp.1) ?_ answered_of_unfailed
  intro _
  refine checked_triple (readBlocks_triple inp fuel id 512 nblocks.toNat buffer) ?_ answered_zero
    answered_of_unfailed
  exact (finish_triple inp fuel id nblocks).strengthen fun p s hp => hp.1

theorem ataWrite_triple (buffer : Nat) (nblocks : Int) (offset : Nat) :
    Triple ataMonitor Unfailed (ataWrite inp fuel id buffer nblocks offset) Answered := by
  refine checked_triple (ataBegin_triple inp fuel id 0x30 nblocks offset) ?_ answered_zero
    answered_of_unfailed
  refine Triple.strengthen (P := Unfailed) ?_ fun p s hp => hp.1
  refine checked_triple (writeBlocks_triple inp fuel id 512 nblocks.toNat buffer) ?_ answered_zero
    answered_of_unfailed
  refine Triple.bind ((waitQueue_triple inp).strengthen fun p s hp => hp.1) ?_ answered_of_unfailed
  intro _
  exact finish_triple inp fuel id nblocks

theorem ataIdentify_triple (command buffer : Nat) :
    Triple ataMonitor Unfailed (ataIdentify inp fuel id command buffer) Answered := by
  refine checked_triple (ataBegin_triple inp fuel id command 0 0) ?_ answered_zero
    answered_of_unfailed
  refine Triple.strengthen (P := Unfailed) ?_ fun p s hp => hp.1
  refine checked_triple (ataWait_triple inp fuel id statusDrq statusDrq) ?_ answered_zero
    answered_of_unfailed
  refine Triple.bind (R := fun _ => AtRequest)
    ((ataPioRead_triple inp id buffer 512).strengthen fun p s hp => hp.2 rfl) ?_ ?_
  · intro _
    refine Triple.pure ?_
    intro p s hp hc
    rw [show p = .requested from hp] at hc
    cases hc
  · intro p s hp
    rw [show p = .requested from hp]
    exact answered_of_unfailed _ s (by decide)

-- ---------------------------------------------------------------------------
-- The packet
-- ---------------------------------------------------------------------------

/-- The first two waits of `atapi_begin` succeed and the third one, for the request
of the packet, fails. -/
def PacketWaitFails (s : AtaState) : Prop :=
  ∃ s₁ s₂ s₃ log₁ log₂ log₃,
    ataWait inp fuel id statusBsy 0 s = (some true, s₁, log₁) ∧
    ataWait inp fuel id statusBsy 0 s₁ = (some true, s₂, log₂) ∧
    ataWait inp fuel id (statusBsy ||| statusDrq) statusDrq s₂ = (some false, s₃, log₃)

variable {inp fuel id}

/-- A checked part from one state, with its run. -/
theorem checked_exact {α : Type} {state : BitVec 8} {f : Driver Bool} {g : Driver α} {z : α}
    {Q : Option α → AtaPhase → AtaState → Prop} {s₀ : AtaState}
    (hf : Triple ataMonitor Unfailed f (Reported state))
    (hg : ∀ s log, f s₀ = (some true, s, log) →
      Triple ataMonitor (fun p s' => Unfailed p s' ∧ s' = s) g Q)
    (hFailed : ∀ s, Q (some z) .failed s) (hRunning : ∀ p s, p ≠ .failed → Q none p s) :
    Triple ataMonitor (fun p s => Unfailed p s ∧ s = s₀)
      (do let ok ← f; if ok = false then pure z else g) Q := by
  refine Triple.bind (hf.exact s₀) ?_ fun p s hp => hRunning p s fun hc => by cases hp.1.1.mpr hc
  intro ok
  cases ok with
  | false =>
    rw [if_pos rfl]
    refine Triple.pure ?_
    intro p s hp
    rw [hp.1.1.mp rfl]
    exact hFailed s
  | true =>
    rw [if_neg (by decide)]
    refine Triple.of_forall ?_
    intro p s hp
    obtain ⟨hReported, log, hRun⟩ := hp
    refine (hg s log hRun).strengthen ?_
    rintro p' s' ⟨rfl, rfl⟩
    refine ⟨?_, rfl⟩
    intro hc
    cases hReported.1.mpr hc

/-- `atapi_begin` sends its packet on request if the third wait does not fail. -/
theorem atapiBegin_triple {s₀ : AtaState} (h : ¬ PacketWaitFails inp fuel id s₀) (data : Mem)
    (length : Nat) :
    Triple ataMonitor (fun p s => Unfailed p s ∧ s = s₀) (atapiBegin inp fuel id data length)
      (Reported 0) := by
  have hRunning := reported_running 0
  refine checked_exact (ataWait_triple inp fuel id statusBsy 0) ?_ (reported_false 0) hRunning
  intro s₁ log₁ hCalm
  refine Triple.bind (outbs_triple _) ?_ fun p s hp => hRunning p s hp.1
  intro _
  refine checked_exact (ataWait_triple inp fuel id statusBsy 0) ?_ (reported_false 0) hRunning
  intro s₂ log₂ hReady
  refine Triple.bind (outbs_triple _) ?_ fun p s hp => hRunning p s hp.1
  intro _
  refine Triple.bind
    ((ataWait_triple inp fuel id (statusBsy ||| statusDrq) statusDrq).exact s₂) ?_
    fun p s hp => hRunning p s fun hc => by cases hp.1.1.mpr hc
  intro ok
  cases ok with
  | false =>
    refine Triple.of_forall ?_
    intro p s hp
    obtain ⟨-, log₃, hPacket⟩ := hp
    exact absurd ⟨s₁, s₂, s, log₁, log₂, log₃, hCalm, hReady, hPacket⟩ h
  | true =>
    refine Triple.bind (R := fun _ => AtRequest)
      ((ataPioWrite_triple id _).strengthen fun p s hp => hp.1.2 rfl rfl) ?_ ?_
    · intro _
      refine Triple.pure fun p s hp => reported_true (by decide) p s ?_
      rw [show p = .requested from hp]
      decide
    · intro p s hp
      rw [show p = .requested from hp]
      exact hRunning _ s (by decide)

theorem atapiRead_triple {s₀ : AtaState} (h : ¬ PacketWaitFails inp fuel id s₀) (buffer : Nat)
    (nblocks : Int) (offset : Nat) :
    Triple ataMonitor (fun p s => Unfailed p s ∧ s = s₀)
      (atapiRead inp fuel id buffer nblocks offset)
      Answered := by
  refine checked_triple (atapiBegin_triple h _ 12) ?_ answered_zero answered_of_unfailed
  refine Triple.bind ((waitQueue_triple inp).strengthen fun p s hp => hp.1) ?_ answered_of_unfailed
  intro _
  refine checked_triple (readBlocks_triple inp fuel id 2048 nblocks.toNat buffer) ?_ answered_zero
    answered_of_unfailed
  exact Triple.pure fun p s hp => answered_of_unfailed p s hp.1

/-- The run of a sequence of `outb` calls. -/
theorem outbs_run (l : List (Nat × Nat)) (s : AtaState) (p : AtaPhase) :
    ∃ log, outbs l s = (some (), s, log) ∧ monitor ataMonitor p log = some p := by
  induction l with
  | nil => exact ⟨[], rfl, rfl⟩
  | cons pv l ih =>
    obtain ⟨log, hRun, hLog⟩ := ih
    refine ⟨.outb pv.1 (pv.2 % 256) :: log, ?_, ?_⟩
    · show ((outbs l s).1, (outbs l s).2.1,
        [AtaEvent.outb pv.1 (pv.2 % 256)] ++ (outbs l s).2.2) = _
      rw [hRun]
      rfl
    · rw [monitor, show ataMonitor p (.outb pv.1 (pv.2 % 256)) = some p by
        simp [ataMonitor, AtaEvent.isBurst, AtaPhase.next, AtaEvent.waited], Option.bind_some, hLog]

/-- The phase after a wait whose run is known. -/
theorem ataWait_phase {mask state : BitVec 8} {s s' : AtaState} {r : Option Bool}
    {log : List AtaEvent} (hRun : ataWait inp fuel id mask state s = (r, s', log)) {p : AtaPhase}
    (hp : p ≠ .failed) :
    ∃ p', monitor ataMonitor p log = some p' ∧ (r = some false ↔ p' = .failed) := by
  obtain ⟨p', hLog, hReported⟩ := ataWait_triple inp fuel id mask state p s hp
  rw [hRun] at hLog hReported
  exact ⟨p', hLog, hReported.1⟩

/-- The packet is sent after the failed wait. -/
theorem atapiBegin_rejects {s : AtaState} (h : PacketWaitFails inp fuel id s) (data : Mem)
    (length : Nat) :
    Rejects ataMonitor .idle (atapiBegin inp fuel id data length) s := by
  obtain ⟨s₁, s₂, s₃, log₁, log₂, log₃, hCalm, hReady, hPacket⟩ := h
  obtain ⟨p₁, hLog₁, hPhase₁⟩ := ataWait_phase hCalm (p := .idle) (by decide)
  obtain ⟨out₁, hOut₁, hOutLog₁⟩ := outbs_run [(ataBase id + 6, driveFlags id)] s₁ p₁
  have hp₁ : p₁ ≠ .failed := fun hc => by cases hPhase₁.mpr hc
  obtain ⟨p₂, hLog₂, hPhase₂⟩ := ataWait_phase hReady hp₁
  have hp₂ : p₂ ≠ .failed := fun hc => by cases hPhase₂.mpr hc
  obtain ⟨p₃, hLog₃, hPhase₃⟩ := ataWait_phase hPacket hp₂
  obtain rfl : p₃ = .failed := hPhase₃.mp rfl
  refine rejects_bind_of_done hCalm hLog₁ ?_
  rw [if_neg (by decide)]
  refine rejects_bind_of_done hOut₁ hOutLog₁ (rejects_bind_of_done hReady hLog₂ ?_)
  rw [if_neg (by decide)]
  obtain ⟨out₂, hOut₂, hOutLog₂⟩ := outbs_run [(ataBase id + 1, 0), (ataBase id + 2, 0),
    (ataBase id + 3, 0), (ataBase id + 4, length &&& 0xFF), (ataBase id + 5, length / 2 ^ 8),
    (ataBase id + 7, 0xA0)] s₂ p₂
  refine rejects_bind_of_done hOut₂ hOutLog₂
    (rejects_bind_of_done hPacket hLog₃ (rejects_bind ?_))
  rfl

/-- **Data only on request.** In a run of an operation each burst of data comes after
a wait that saw the request, and a failed wait ends the operation with the result
0, if and only if the operation is not an `atapi_read` whose wait for the request of
the packet fails. -/
theorem data_on_request_iff (inp : AtaInputs) (fuel : Nat) (op : AtaOp) (s : AtaState) :
    DataOnRequest (op.call inp fuel s).2.2 (op.call inp fuel s).1 ↔
      ¬ ∃ id buffer nblocks offset, op = .atapiRead id buffer nblocks offset ∧
        PacketWaitFails inp fuel id s := by
  rw [dataOnRequest_iff]
  -- a triple from the first phase settles an operation
  have hGood : ∀ {P : AtaPhase → AtaState → Prop},
      Triple ataMonitor P (op.call inp fuel) Answered →
      P .idle s → Accepted (op.call inp fuel s).2.2 ∧
        (phaseOf (op.call inp fuel s).2.2 = .failed → (op.call inp fuel s).1 = some 0) := by
    intro P hTriple hP
    obtain ⟨p, hLog, hAnswered⟩ := hTriple .idle s hP
    obtain ⟨hAccepted, rfl⟩ := (monitor_eq _ p).mp hLog
    exact ⟨hAccepted, hAnswered⟩
  have hIdle : Unfailed .idle s := fun hc => by cases hc
  cases op with
  | read id buffer nblocks offset =>
    exact iff_of_true (hGood (ataRead_triple inp fuel id buffer nblocks offset) hIdle) (by simp)
  | write id buffer nblocks offset =>
    exact iff_of_true (hGood (ataWrite_triple inp fuel id buffer nblocks offset) hIdle) (by simp)
  | identify id command buffer =>
    exact iff_of_true (hGood (ataIdentify_triple inp fuel id command buffer) hIdle) (by simp)
  | atapiRead id buffer nblocks offset =>
    by_cases hPacket : PacketWaitFails inp fuel id s
    · refine iff_of_false ?_ fun hc => hc ⟨id, buffer, nblocks, offset, rfl, hPacket⟩
      intro hc
      have hLog := (monitor_eq _ _).mpr ⟨hc.1, rfl⟩
      rw [show monitor ataMonitor .idle
        (AtaOp.call inp fuel (.atapiRead id buffer nblocks offset) s).2.2 =
        none from rejects_bind (atapiBegin_rejects hPacket _ 12)] at hLog
      cases hLog
    · refine iff_of_true
        (hGood (atapiRead_triple hPacket buffer nblocks offset) ⟨hIdle, rfl⟩) ?_
      rintro ⟨id', buffer', nblocks', offset', hOp, hFails⟩
      cases hOp
      exact hPacket hFails

/-- A drive that is calm twice and then reports an error, with a clock that counts a
second for each reading. -/
def errorAfterPacket : AtaInputs where
  status := fun k => if k < 2 then 0x40 else 0x01
  clock := fun k => ⟨k, 0⟩
  data := fun _ => 0
  interruptActive := false
  woken := false

/-- `atapi_read` of one block: the packet is written to the drive that has just been
reset. -/
theorem packet_after_failed_wait :
    ¬ DataOnRequest
      (AtaOp.call errorAfterPacket 2 (.atapiRead 2 0x8000 1 16) ⟨0, 0, 0, fun _ => 0⟩).2.2
      (AtaOp.call errorAfterPacket 2 (.atapiRead 2 0x8000 1 16) ⟨0, 0, 0, fun _ => 0⟩).1 := by
  intro h
  have hLog := (monitor_eq _ _).mpr ⟨((dataOnRequest_iff _ _).mp h).1, rfl⟩
  have hEval : monitor ataMonitor .idle
      (AtaOp.call errorAfterPacket 2 (.atapiRead 2 0x8000 1 16) ⟨0, 0, 0, fun _ => 0⟩).2.2 =
      none := by
    decide +kernel
  rw [hEval] at hLog
  cases hLog

end Hexos
