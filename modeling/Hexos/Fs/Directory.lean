import Hexos.Fs.Sample
import Mathlib.Data.List.TakeWhile

/-!
# HexOS — listing and lookup in an ISO9660 directory

A directory is one sector of packed records. `iso9660_readdir` walks them and
numbers those it shows; `iso9660_finddir` walks them and compares names, and
writes a NUL behind every identifier it looks at. In a record with nothing
behind its identifier this NUL becomes the length of the next record, and the
walk takes it for the end of the directory.

## Results

* `readdirLoop_spec` — the record with a given number.
* `finddirLoop_spec` — the walk of `iso9660_finddir` is `lookup`.
* `iso9660Finddir_none`, `iso9660Finddir_some`, `iso9660Readdir_spec` — the
  calls.
* `finddir_agrees_iff` — exactly when lookup and listing agree.
-/

namespace Hexos

open Mem

-- ---------------------------------------------------------------------------
-- A sector in memory
-- ---------------------------------------------------------------------------

/-- The sector is at `base`, as far as it lies behind the offset `off`. -/
def SectorAt (m : Mem) (base : Nat) (sec : Mem) (off : Nat) : Prop :=
  ∀ k, off ≤ k → k < 2048 → m (base + k) = sec k

theorem SectorAt.later {m sec : Mem} {base off off' : Nat} (h : SectorAt m base sec off)
    (hle : off ≤ off') : SectorAt m base sec off' := fun k hk hk' => h k (by omega) hk'

theorem SectorAt.load32 {m sec : Mem} {base off k : Nat} (h : SectorAt m base sec off)
    (hk : off ≤ k) (hk' : k + 4 ≤ 2048) : m.load32 (base + k) = sec.load32 k := by
  unfold Mem.load32
  rw [Nat.add_assoc base k 1, Nat.add_assoc base k 2, Nat.add_assoc base k 3, h k hk (by omega),
    h (k + 1) (by omega) (by omega), h (k + 2) (by omega) (by omega),
    h (k + 3) (by omega) (by omega)]

theorem copyIn_sectorAt (m sec : Mem) (base : Nat) : SectorAt (m.copyIn base 2048 sec) base sec 0 :=
  fun _ _ hk => copyIn_in hk

/-- The record is in memory at `e`, with a NUL behind its identifier. -/
structure DirRecord.InMemory (r : DirRecord) (m : Mem) (e : Nat) : Prop where
  lba        : m.load32 (e + 2) = r.lba
  fileLength : m.load32 (e + 10) = r.fileLength
  flags      : m (e + 25) = r.flags
  identLen   : (m (e + 32)).toNat = r.ident.length
  ident      : StringAt m (e + 33) r.ident

section Walk

variable {m sec : Mem} {base off fuel : Nat} {rs : List DirRecord} {r : DirRecord}

/-- What a walk reads of a record. -/
theorem DirRecord.At.head (h : r.At sec off) (hm : SectorAt m base sec off)
    (hEnd : off + r.len < 2048) :
    (m (base + off)).toNat = r.len ∧ m (base + off) ≠ 0 ∧
      (m (base + off + 33) ≠ 1 ↔ ¬ r.Hidden) ∧
      (m (base + off + 32)).toNat = r.ident.length := by
  have hRoom := h.room
  have hPos := List.length_pos_iff.mpr h.nonempty
  have hLen : (m (base + off)).toNat = r.len := by rw [hm off (le_refl off) (by omega), h.len]
  refine ⟨hLen, ?_, ?_, ?_⟩
  · intro h0
    rw [h0] at hLen
    have : (0 : UInt8).toNat = 0 := rfl
    split at hRoom <;> omega
  · have hFirst : m (base + off + 33) = r.ident.get ⟨0, hPos⟩ := by
      rw [Nat.add_assoc, hm (off + 33) (by omega) (by omega)]
      exact h.ident 0 hPos
    unfold DirRecord.Hidden
    obtain ⟨c, cs, hCons⟩ := List.exists_cons_of_ne_nil h.nonempty
    rw [hFirst]
    simp [hCons]
  · rw [Nat.add_assoc, hm (off + 32) (by omega) (by omega), h.identLen]

/-- The NUL is written: the record can be read, and so can what follows unless
nothing follows the identifier. -/
theorem DirRecord.At.store_nul (h : r.At sec off) (hm : SectorAt m base sec off)
    (hEnd : off + r.len < 2048) :
    r.InMemory (m.store8 (base + off + 33 + r.ident.length) 0) (base + off) ∧
    (m.store8 (base + off + 33 + r.ident.length) 0) (base + off) = m (base + off) ∧
    (r.Tight → (m.store8 (base + off + 33 + r.ident.length) 0) (base + (off + r.len)) = 0) ∧
    (¬ r.Tight →
      SectorAt (m.store8 (base + off + 33 + r.ident.length) 0) base sec (off + r.len)) := by
  have hRoom := h.room
  have hLe : 33 + r.ident.length ≤ r.len := by omega
  have hByte : ∀ k, k < 33 + r.ident.length →
      (m.store8 (base + off + 33 + r.ident.length) 0) (base + off + k) = sec (off + k) := by
    intro k hk
    rw [store8_other (by omega), Nat.add_assoc, hm (off + k) (by omega) (by omega)]
  have hWord : ∀ k, k + 4 ≤ 33 →
      (m.store8 (base + off + 33 + r.ident.length) 0).load32 (base + off + k) =
        sec.load32 (off + k) := by
    intro k hk
    rw [load32_store8_other (by omega), Nat.add_assoc, hm.load32 (by omega) (by omega)]
  refine ⟨⟨?_, ?_, ?_, ?_, ?_, store8_self⟩, store8_other (by omega), ?_, ?_⟩
  · rw [hWord 2 (by omega), h.lba]
  · rw [hWord 10 (by omega), h.fileLength]
  · rw [hByte 25 (by omega), h.flags]
  · rw [hByte 32 (by omega), h.identLen]
  · intro j hj
    rw [Nat.add_assoc (base + off) 33 j, hByte (33 + j) (by omega), ← Nat.add_assoc, h.ident j hj]
  · intro hTight
    unfold DirRecord.Tight at hTight
    rw [hTight, show base + (off + (33 + r.ident.length)) =
      base + off + 33 + r.ident.length by omega, store8_self]
  · intro hTight k hk hk'
    unfold DirRecord.Tight at hTight
    rw [store8_other (by omega)]
    exact hm k (by omega) hk'

-- ---------------------------------------------------------------------------
-- iso9660_readdir
-- ---------------------------------------------------------------------------

/-- **Listing.** The walk with the count `count` finds the record with the
number `i - count` of those still to come. -/
theorem readdirLoop_spec {i count : Nat} (h : DirRecords sec off rs) (hm : SectorAt m base sec off)
    (hFuel : rs.length < fuel) (hCount : count ≤ i) :
    (((visible rs)[i - count]? = none) ∧
      readdirLoop m i fuel (base + off) false count = .done none) ∨
    ∃ r o, (visible rs)[i - count]? = some r ∧ r.At sec o ∧ off ≤ o ∧ o + r.len < 2048 ∧
      readdirLoop m i fuel (base + off) false count = .done (some (base + o)) := by
  induction rs generalizing off fuel count with
  | nil =>
    obtain ⟨fuel, rfl⟩ : ∃ f, fuel = f + 1 := ⟨fuel - 1, by omega⟩
    refine Or.inl ⟨by simp [visible], ?_⟩
    rw [readdirLoop, if_pos (by rw [hm off (le_refl off) h.2]; exact h.1)]
  | cons r rs ih =>
    obtain ⟨hAt, hRest⟩ := h
    have hEnd := hRest.bounds
    rw [List.length_cons] at hFuel
    obtain ⟨fuel, rfl⟩ : ∃ f, fuel = f + 1 := ⟨fuel - 1, by omega⟩
    obtain ⟨hLen, hNonzero, hHidden, -⟩ := hAt.head hm (by omega)
    have hNext : base + off + (m (base + off)).toNat = base + (off + r.len) := by omega
    rw [readdirLoop, if_neg hNonzero, hNext]
    by_cases hVisible : r.Hidden
    · -- a record that is not shown
      rw [if_neg (by simp only [true_and, hHidden, not_not]; exact hVisible)]
      have hFilter : visible (r :: rs) = visible rs := by simp [visible, hVisible]
      rw [hFilter]
      rcases ih hRest (hm.later (by omega))
        (show rs.length < fuel by omega) hCount with hNone | ⟨r', o, h1, h2, h3, h4⟩
      · exact Or.inl hNone
      · exact Or.inr ⟨r', o, h1, h2, by omega, h4⟩
    · rw [if_pos ⟨rfl, hHidden.mpr hVisible⟩]
      have hFilter : visible (r :: rs) = r :: visible rs := by simp [visible, hVisible]
      rw [hFilter]
      by_cases hHere : count = i
      · -- the record asked for
        rw [if_pos hHere]
        exact Or.inr ⟨r, off, by simp [hHere], hAt, le_refl off, by omega, rfl⟩
      · rw [if_neg hHere, show i - count = (i - (count + 1)) + 1 by omega, List.getElem?_cons_succ]
        rcases ih hRest (hm.later (by omega)) (show rs.length < fuel by omega)
          (show count + 1 ≤ i by omega) with
          hNone | ⟨r', o, h1, h2, h3, h4⟩
        · exact Or.inl hNone
        · exact Or.inr ⟨r', o, h1, h2, by omega, h4⟩

-- ---------------------------------------------------------------------------
-- iso9660_finddir
-- ---------------------------------------------------------------------------

/-- The record that the walk of `iso9660_finddir` comes to: the first one with
the name, unless a tight record before it ends the walk. -/
def lookup (name : List UInt8) : List DirRecord → Option DirRecord
  | [] => none
  | r :: rs =>
    if r.Hidden then lookup name rs
    else if r.ident = name then some r
    else if r.Tight then none
    else lookup name rs

theorem lookup_not_hidden {name : List UInt8} {rs : List DirRecord} {r : DirRecord}
    (h : lookup name rs = some r) : ¬ r.Hidden := by
  induction rs with
  | nil => cases h
  | cons q qs ih =>
    rw [lookup] at h
    split at h
    · exact ih h
    · next hVisible =>
      split at h
      · obtain rfl := Option.some.inj h
        exact hVisible
      · split at h
        · cases h
        · exact ih h

theorem lookup_mem {name : List UInt8} {rs : List DirRecord} {r : DirRecord}
    (h : lookup name rs = some r) : r ∈ rs := by
  induction rs with
  | nil => cases h
  | cons q qs ih =>
    rw [lookup] at h
    split at h
    · exact List.mem_cons_of_mem q (ih h)
    · split at h
      · obtain rfl := Option.some.inj h
        exact List.mem_cons_self
      · split at h
        · cases h
        · exact List.mem_cons_of_mem q (ih h)

/-- **Lookup.** The walk finds what `lookup` does, and writes to the sector
only. -/
theorem finddirLoop_spec (name : CString) (h : DirRecords sec off rs)
    (hNames : ∀ r ∈ rs, 0 ∉ r.ident) (hm : SectorAt m base sec off)
    (hFuel : rs.length < fuel) :
    ∃ m', SameOff m m' base 2048 ∧
      ((lookup name.bytes rs = none ∧
          finddirLoop name fuel m (base + off) false = .done (none, m')) ∨
        ∃ r o, lookup name.bytes rs = some r ∧ r ∈ rs ∧ off ≤ o ∧ o + r.len < 2048 ∧
          r.InMemory m' (base + o) ∧ 34 + r.ident.length ≤ r.len + 1 ∧
          finddirLoop name fuel m (base + off) false = .done (some (base + o), m')) := by
  induction rs generalizing off fuel m with
  | nil =>
    obtain ⟨fuel, rfl⟩ : ∃ f, fuel = f + 1 := ⟨fuel - 1, by omega⟩
    refine ⟨m, SameOff.refl m base 2048, Or.inl ⟨rfl, ?_⟩⟩
    rw [finddirLoop, if_pos (by rw [hm off (le_refl off) h.2]; exact h.1)]
  | cons r rs ih =>
    obtain ⟨hAt, hRest⟩ := h
    have hEnd := hRest.bounds
    rw [List.length_cons] at hFuel
    obtain ⟨fuel, rfl⟩ : ∃ f, fuel = f + 1 := ⟨fuel - 1, by omega⟩
    obtain ⟨hLen, hNonzero, hHidden, hIdentLen⟩ := hAt.head hm (by omega)
    have hRoom := hAt.room
    have hNames' : ∀ r ∈ rs, 0 ∉ r.ident :=
      fun r' hr' => hNames r' (List.mem_cons_of_mem r hr')
    rw [finddirLoop, if_neg hNonzero]
    by_cases hVisible : r.Hidden
    · rw [if_neg (by simp only [true_and, hHidden, not_not]; exact hVisible),
        show base + off + (m (base + off)).toNat = base + (off + r.len) by omega]
      obtain ⟨m', hFrame, hRun⟩ :=
        ih hRest hNames' (hm.later (by omega)) (show rs.length < fuel by omega)
      refine ⟨m', hFrame, ?_⟩
      rw [lookup, if_pos hVisible]
      rcases hRun with hNone | ⟨r', o, h1, h2, h3, h4⟩
      · exact Or.inl hNone
      · exact Or.inr ⟨r', o, h1, List.mem_cons_of_mem r h2, by omega, h4⟩
    · have hByte := (m (base + off + 32)).toNat_lt
      rw [if_pos ⟨rfl, hHidden.mpr hVisible⟩]
      simp only [hIdentLen]
      rw [if_pos (by omega)]
      -- the NUL behind the identifier
      obtain ⟨hMemory, hSame, hTightNul, hLoose⟩ := hAt.store_nul hm (by omega)
      have hStore : SameOff m (m.store8 (base + off + 33 + r.ident.length) 0) base 2048 :=
        (store8_sameOff _ _ _).sub (by omega) (by omega)
      generalize m.store8 (base + off + 33 + r.ident.length) 0 = m₁ at *
      have hEq := strEq_iff (hNames r List.mem_cons_self) name.nonzero hMemory.ident
      rw [lookup, if_neg hVisible]
      by_cases hMatch : r.ident = name.bytes
      · rw [if_pos (hEq.mpr hMatch), if_pos hMatch]
        exact ⟨m₁, hStore,
          Or.inr ⟨r, off, rfl, List.mem_cons_self, le_refl off, by omega, hMemory,
          by omega, rfl⟩⟩
      · rw [if_neg (fun hc => hMatch (hEq.mp hc)), if_neg hMatch, hSame,
          show base + off + (m (base + off)).toNat = base + (off + r.len) by omega]
        by_cases hTight : r.Tight
        · -- the NUL is the length of the next record
          obtain ⟨fuel, rfl⟩ : ∃ f, fuel = f + 1 := ⟨fuel - 1, by omega⟩
          refine ⟨m₁, hStore, Or.inl ⟨if_pos hTight, ?_⟩⟩
          rw [finddirLoop, if_pos (hTightNul hTight)]
        · rw [if_neg hTight]
          obtain ⟨m', hFrame, hRun⟩ :=
            ih hRest hNames' (hLoose hTight) (show rs.length < fuel by omega)
          refine ⟨m', hStore.trans hFrame, ?_⟩
          rcases hRun with hNone | ⟨r', o, h1, h2, h3, h4⟩
          · exact Or.inl hNone
          · exact Or.inr ⟨r', o, h1, List.mem_cons_of_mem r h2, by omega, h4⟩

/-- The walk over a whole directory: '.' is skipped as the first record and '..'
as a hidden one. -/
theorem finddirLoop_directory (name : CString) {dot dotDot : DirRecord}
    (h : IsDirectory sec dot dotDot rs) (hm : SectorAt m base sec 0) (hFuel : 256 ≤ fuel) :
    ∃ m', SameOff m m' base 2048 ∧
      ((lookup name.bytes rs = none ∧ finddirLoop name fuel m base true = .done (none, m')) ∨
        ∃ r o, lookup name.bytes rs = some r ∧ r ∈ rs ∧ o + r.len < 2048 ∧
          r.InMemory m' (base + o) ∧ 34 + r.ident.length ≤ r.len + 1 ∧
          finddirLoop name fuel m base true = .done (some (base + o), m')) := by
  obtain ⟨hDot, hRest⟩ := h.records
  have hBounds := hRest.bounds
  rw [List.length_cons] at hBounds
  obtain ⟨hLen, hNonzero, -⟩ := hDot.head hm (by omega)
  obtain ⟨fuel, rfl⟩ : ∃ f, fuel = f + 1 := ⟨fuel - 1, by omega⟩
  simp only [Nat.add_zero, Nat.zero_add] at hLen hNonzero hRest
  rw [finddirLoop, if_neg hNonzero, if_neg (by simp), hLen]
  have hHidden : dotDot.Hidden := by
    unfold DirRecord.Hidden
    rw [h.dotDot]
    rfl
  have hNames : ∀ r ∈ dotDot :: rs, 0 ∉ r.ident := by
    intro r hr
    rcases List.mem_cons.mp hr with rfl | hr
    · rw [h.dotDot]
      decide
    · exact h.names r hr
  obtain ⟨m', hFrame, hRun⟩ := finddirLoop_spec name hRest hNames (hm.later (by omega))
    (show (dotDot :: rs).length < fuel by rw [List.length_cons]; omega)
  rw [lookup, if_pos hHidden] at hRun
  refine ⟨m', hFrame, ?_⟩
  rcases hRun with hNone | ⟨r, o, hLook, hMem, hLow, hEnd, hMemory, hLen', hRun⟩
  · exact Or.inl hNone
  · rcases List.mem_cons.mp hMem with rfl | hMem
    · -- the name of a record that is found is not hidden
      exact absurd hHidden (lookup_not_hidden hLook)
    · exact Or.inr ⟨r, o, hLook, hMem, hEnd, hMemory, hLen', hRun⟩

theorem readdirLoop_directory {i : Nat} {dot dotDot : DirRecord} (h : IsDirectory sec dot dotDot rs)
    (hm : SectorAt m base sec 0) (hFuel : 256 ≤ fuel) :
    ((visible rs)[i]? = none ∧ readdirLoop m i fuel base true 0 = .done none) ∨
    ∃ r o, (visible rs)[i]? = some r ∧ r.At sec o ∧ o + r.len < 2048 ∧
      readdirLoop m i fuel base true 0 = .done (some (base + o)) := by
  obtain ⟨hDot, hRest⟩ := h.records
  have hBounds := hRest.bounds
  rw [List.length_cons] at hBounds
  obtain ⟨hLen, hNonzero, -⟩ := hDot.head hm (by omega)
  obtain ⟨fuel, rfl⟩ : ∃ f, fuel = f + 1 := ⟨fuel - 1, by omega⟩
  simp only [Nat.add_zero, Nat.zero_add] at hLen hNonzero hRest
  rw [readdirLoop, if_neg hNonzero, if_neg (by simp), hLen]
  have hVisible : visible (dotDot :: rs) = visible rs := by
    simp [visible, DirRecord.Hidden, h.dotDot]
  rcases readdirLoop_spec (i := i) hRest (hm.later (by omega))
      (show (dotDot :: rs).length < fuel by rw [List.length_cons]; omega) (Nat.zero_le i) with
    hNone | ⟨r, o, hRec, hAt, -, hEnd, hRun⟩
  · rw [hVisible] at hNone
    exact Or.inl hNone
  · rw [hVisible] at hRec
    exact Or.inr ⟨r, o, hRec, hAt, hEnd, hRun⟩

end Walk

-- ---------------------------------------------------------------------------
-- The calls
-- ---------------------------------------------------------------------------

/-- The node of an ISO9660 directory and its volume: memory that no allocation
reaches, with the sector `sec` on the device. -/
structure DirAt (env : Env) (s : Machine) (live : List Alloc) (dir fsInfo inode : Nat) (sec : Mem) :
    Prop where
  node   : Stable s.pages live dir 332
  info   : Stable s.pages live fsInfo 16
  impl   : s.mem.load32 (dir + 280) = fsInfo
  lba    : s.mem.load32 (dir + 272) = inode
  sector : env.devices (s.mem.load32 fsInfo) inode = sec

/-- Names in the directory at `dir` are looked up on the volume. -/
def OnVolume (env : Env) (s : Machine) (dir : Nat) : Prop :=
  s.mem.load32 (dir + 268) &&& 7 = fsDirectory ∧ s.mem.load32 (dir + 304) = env.iso9660Finddir

theorem finddirFs_onVolume {env : Env} {fuel : Nat} {s : Machine} {dir : Nat} {name : CString}
    (h : OnVolume env s dir) :
    finddirFs env fuel s dir name = iso9660Finddir env fuel s dir name := by
  have hWord := (env.words env.iso9660Finddir (by simp)).1
  unfold finddirFs
  simp only [h.2]
  rw [if_pos ⟨h.1, hWord⟩, if_neg env.functions_ne.1.symm, if_pos trivial]

/-- A lookup in a directory of the virtual file system. -/
theorem finddirFs_root {env : Env} {fuel dir p : Nat} {s s' : Machine} {name : CString}
    (hFlags : s.mem.load32 (dir + 268) = fsDirectory)
    (hFinddir : s.mem.load32 (dir + 304) = env.rootFinddir)
    (h : finddirFs env fuel s dir name = .done (p, s')) :
    p = rootFinddir env dir name ∧ s' = s := by
  unfold finddirFs at h
  simp only [hFlags, hFinddir] at h
  rw [if_pos ⟨by decide, (env.words env.rootFinddir (by simp)).1⟩, if_pos trivial] at h
  obtain ⟨rfl, rfl⟩ := Prod.mk.inj (Outcome.done.inj h)
  exact ⟨rfl, rfl⟩

section Calls

variable {env : Env} {s s₁ s₂ : Machine} {live : List Alloc}
  {dir fsInfo inode fuel buffer : Nat} {sec : Mem} {dot dotDot : DirRecord} {rest : List DirRecord}
  {name : CString}

/-- Stable memory is not touched by what happens to a new buffer. -/
theorem sameOn_of_buffer {a : Alloc} {m m' : Mem} {k l : Nat} (hInv : s₁.Inv (a :: live))
    (hStable : Stable s₁.pages live k l) (hFrame : SameOff m m' a.ptr a.size) :
    SameOn m m' k l := hFrame.sameOn (hStable.apart hInv)

/-- The call behind a walk that finds nothing. -/
theorem iso9660Finddir_miss {m : Mem} (hInv : s.Inv live)
    (hDir : DirAt env s live dir fsInfo inode sec)
    (hBuf : s.kalloc fuel 2048 = .done (buffer, s₁))
    (hLoop : finddirLoop name fuel (s.mem.copyIn buffer 2048 sec) buffer true = .done (none, m)) :
    iso9660Finddir env fuel s dir name =
      (Machine.kfree { s₁ with mem := m } buffer).map fun s => (0, s) := by
  obtain ⟨hMem, -, -⟩ := Machine.kalloc_spec hInv (by omega) hBuf
  unfold iso9660Finddir
  simp only [hBuf, Outcome.bind_done, Machine.readBlock, hMem, hDir.impl, hDir.lba,
    hDir.sector, hLoop]

/-- The call behind a walk that finds a record. -/
theorem iso9660Finddir_hit {m : Mem} {dirEntry : Nat} (hInv : s.Inv live)
    (hDir : DirAt env s live dir fsInfo inode sec)
    (hBuf : s.kalloc fuel 2048 = .done (buffer, s₁))
    (hLoop : finddirLoop name fuel (s.mem.copyIn buffer 2048 sec) buffer true =
      .done (some dirEntry, m)) :
    iso9660Finddir env fuel s dir name =
      (iso9660EntryToNode env fuel { s₁ with mem := m } dirEntry fsInfo dir).bind
        fun (response, s) => (s.kfree buffer).map fun s => (response, s) := by
  obtain ⟨hMem, -, -⟩ := Machine.kalloc_spec hInv (by omega) hBuf
  unfold iso9660Finddir
  simp only [hBuf, Outcome.bind_done, Machine.readBlock, hMem, hDir.impl, hDir.lba,
    hDir.sector, hLoop]

/-- **Lookup fails.** -/
theorem iso9660Finddir_none (hInv : s.Inv live) (hDir : DirAt env s live dir fsInfo inode sec)
    (hSec : IsDirectory sec dot dotDot rest) (hFuel : 256 ≤ fuel)
    (hBuf : s.kalloc fuel 2048 = .done (buffer, s₁)) (hLook : lookup name.bytes rest = none) :
    ∃ s', iso9660Finddir env fuel s dir name = .done (0, s') ∧ s'.Inv live ∧
      s'.pages = s.pages ∧
      ∀ k l, Stable s.pages live k l → SameOn s.mem s'.mem k l := by
  obtain ⟨-, hPages, hInv₁⟩ := Machine.kalloc_spec hInv (by omega) hBuf
  obtain ⟨m', hFrame, hRun⟩ :=
    finddirLoop_directory name hSec (copyIn_sectorAt s.mem sec buffer) hFuel
  have hLoop : finddirLoop name fuel (s.mem.copyIn buffer 2048 sec) buffer true =
      .done (none, m') := by
    rcases hRun with ⟨-, hRun⟩ | ⟨r, o, hSome, -⟩
    · exact hRun
    · rw [hLook] at hSome
      cases hSome
  obtain ⟨s', hFree, hMem', hPages', hInv', -⟩ := hInv₁.kfree_newest m'
  refine ⟨s', ?_, hInv', hPages'.trans hPages, ?_⟩
  · rw [iso9660Finddir_miss hInv hDir hBuf hLoop, hFree, Outcome.map_done]
  · intro k l hStable
    rw [hMem']
    exact sameOn_of_buffer hInv₁ (by rwa [hPages]) ((copyIn_sameOff _ _ _ _).trans hFrame)

/-- **Lookup succeeds.** The new node carries the data of the record, with the
directory as its parent. -/
theorem iso9660Finddir_some {response : Nat} {r : DirRecord} (hInv : s.Inv live)
    (hDir : DirAt env s live dir fsInfo inode sec) (hSec : IsDirectory sec dot dotDot rest)
    (hFuel : 256 ≤ fuel) (hBuf : s.kalloc fuel 2048 = .done (buffer, s₁))
    (hNode : s₁.kalloc fuel sizeofFsNode = .done (response, s₂))
    (hLook : lookup name.bytes rest = some r) :
    ∃ s', iso9660Finddir env fuel s dir name = .done (response, s') ∧
      s'.Inv (⟨response, 332⟩ :: live) ∧ s'.pages = s.pages ∧
      (∀ k l, Stable s.pages live k l → SameOn s.mem s'.mem k l) ∧
      NodeAt env s'.mem response (if r.flags &&& 2 ≠ 0 then fsDirectory else fsFile) r.lba
        r.fileLength fsInfo ⟨inode, fsInfo, s.mem.load32 (dir + 308)⟩ := by
  obtain ⟨-, hPages, hInv₁⟩ := Machine.kalloc_spec hInv (by omega) hBuf
  obtain ⟨m₁, hFrame, hRun⟩ :=
    finddirLoop_directory name hSec (copyIn_sectorAt s.mem sec buffer) hFuel
  obtain ⟨r', o, hSome, hMem, hEnd, hMemory, hLen, hLoop⟩ := hRun.resolve_left fun hc => by
    rw [hLook] at hc
    cases hc.1
  obtain rfl : r = r' := Option.some.inj (hLook.symm.trans hSome)
  -- the walk leaves the node of the directory as it was
  have hBuffer : ∀ k l, Stable s.pages live k l → SameOn s.mem m₁ k l := fun k l hStable =>
    sameOn_of_buffer hInv₁ (by rwa [hPages]) ((copyIn_sameOff _ _ _ _).trans hFrame)
  have hWord : ∀ k, k + 4 ≤ 332 → m₁.load32 (dir + k) = s.mem.load32 (dir + k) :=
    fun k hk =>
    ((hBuffer dir 332 hDir.node).sub (by omega) (by omega)).load32
  have hParent : FsNodeMini.Words ⟨inode, fsInfo, s.mem.load32 (dir + 308)⟩ := by
    refine ⟨?_, ?_, load32_lt _ _⟩
    · rw [← hDir.lba]
      exact load32_lt _ _
    · rw [← hDir.impl]
      exact load32_lt _ _
  -- the node is allocated while the buffer is held
  have hAlloc : Machine.kalloc fuel { s₁ with mem := m₁ } sizeofFsNode =
      .done (response, { s₂ with mem := m₁ }) := Machine.kalloc_with_mem hNode m₁
  have hInvM : Machine.Inv { s₁ with mem := m₁ } (⟨buffer, 2048⟩ :: live) := hInv₁
  obtain ⟨-, hPages₂, hInv₂⟩ := Machine.kalloc_spec hInvM (by decide) hAlloc
  have hApart : response + 332 ≤ buffer ∨ buffer + 2048 ≤ response := by
    have := hInv₂.apart List.mem_cons_self
    simp only [sizeofFsNode] at this
    omega
  have hByte := (m₁ (buffer + o + 32)).toNat_lt
  have hIdentLen := hMemory.identLen
  obtain ⟨m', hEntry, hNodeAt, hNodeFrame⟩ :=
    entryToNodeMini_live env hAlloc (hSec.names r hMem)
    (by omega) hMemory.identLen hMemory.ident (by omega) hParent.2.1 hParent
  simp only [hMemory.lba, hMemory.fileLength, hMemory.flags] at hNodeAt
  -- the buffer is freed
  have hInvN : Machine.Inv { s₂ with mem := m' }
      (⟨response, 332⟩ :: ⟨buffer, 2048⟩ :: live) := hInv₂
  obtain ⟨s', hFree, hMem', hPages', hInv'⟩ := Machine.kfree_spec hInvN
    (List.mem_cons_of_mem _ List.mem_cons_self)
  rw [List.erase_cons_tail (by simp), List.erase_cons_head] at hInv'
  refine ⟨s', ?_, hInv', (hPages'.trans hPages₂).trans hPages, ?_, ?_⟩
  · rw [iso9660Finddir_hit hInv hDir hBuf hLoop]
    simp only [iso9660EntryToNode, hWord, hDir.impl, hDir.lba, Nat.reduceAdd, Nat.reduceLeDiff]
    rw [hEntry, Outcome.bind_done]
    simp only [hFree, Outcome.map_done]
  · intro k l hStable
    rw [hMem']
    have hStable₂ :
        Stable (Machine.pages { s₂ with mem := m' }) (⟨buffer, 2048⟩ :: live) k l := by
      rw [show Machine.pages { s₂ with mem := m' } = s.pages from hPages₂.trans hPages]
      exact hStable.cons _
    exact (hBuffer k l hStable).trans (sameOn_of_buffer hInvN hStable₂ hNodeFrame)
  · rw [hMem']
    exact hNodeAt

/-- **Listing.** The call with the number `i` returns the name of the record with
that number, or null. It frees its buffer and writes to no stable memory but the
global it returns. -/
theorem iso9660Readdir_spec {i : Nat} (hInv : s.Inv live)
    (hDir : DirAt env s live dir fsInfo inode sec) (hSec : IsDirectory sec dot dotDot rest)
    (hResp : ∀ addr ∈ s.pages, env.iso9660Resp + 260 ≤ addr ∨
      addr + 4096 ≤ env.iso9660Resp)
    (hFuel : 256 ≤ fuel) (hBuf : s.kalloc fuel 2048 = .done (buffer, s₁)) :
    ∃ p s', iso9660Readdir env fuel s dir i = .done (p, s') ∧ s'.Inv live ∧
      s'.pages = s.pages ∧
      kfree s₁.heap buffer = .done s'.heap ∧
      (∀ k l, Stable s.pages live k l → env.iso9660Resp + 260 ≤ k ∨
        k + l ≤ env.iso9660Resp →
        SameOn s.mem s'.mem k l) ∧
      (((visible rest)[i]? = none ∧ p = 0) ∨ ∃ r, (visible rest)[i]? = some r ∧
        p = env.iso9660Resp ∧ StringAt s'.mem (env.iso9660Resp + 4) r.ident) := by
  obtain ⟨hMem, hPages, hInv₁⟩ := Machine.kalloc_spec hInv (by omega) hBuf
  have hRespApart : env.iso9660Resp + 260 ≤ buffer ∨ buffer + 2048 ≤ env.iso9660Resp :=
    Stable.apart (Or.inr (by rwa [hPages])) hInv₁
  have hFrame : ∀ k l, Stable s.pages live k l →
      SameOn s.mem (s.mem.copyIn buffer 2048 sec) k l :=
    fun k l hk => sameOn_of_buffer hInv₁ (by rwa [hPages]) (copyIn_sameOff _ _ _ _)
  rcases readdirLoop_directory (i := i) hSec (copyIn_sectorAt s.mem sec buffer) hFuel with
    ⟨hNone, hLoop⟩ | ⟨r, o, hSome, hAt, hEnd, hLoop⟩
  · obtain ⟨s', hFree, hMem', hPages', hInv', hHeap⟩ :=
      hInv₁.kfree_newest (s.mem.copyIn buffer 2048 sec)
    refine ⟨0, s', ?_, hInv', hPages'.trans hPages, hHeap, ?_, Or.inl ⟨hNone, rfl⟩⟩
    · unfold iso9660Readdir
      simp only [hBuf, Outcome.bind_done, Machine.readBlock, hMem, hDir.impl, hDir.lba, hDir.sector,
        hLoop, hFree, Outcome.map_done]
    · intro k l hk _
      rw [hMem']
      exact hFrame k l hk
  · have hm := copyIn_sectorAt s.mem sec buffer
    have hVisible : r ∈ rest ∧ 0 ∉ r.ident := by
      have hMem' := List.mem_of_getElem? hSome
      have hRest := (List.mem_filter.mp hMem').1
      exact ⟨hRest, hSec.names r hRest⟩
    obtain ⟨-, -, -, hIdentLen⟩ := hAt.head (hm.later (Nat.zero_le o)) hEnd
    obtain ⟨hMemory, -⟩ := hAt.store_nul (hm.later (Nat.zero_le o)) hEnd
    have hByte := (s.mem.copyIn buffer 2048 sec (buffer + o + 32)).toNat_lt
    have hRoom := hAt.room
    -- the name is copied out of the buffer
    obtain ⟨m', hCopy, hString, hCopied⟩ :=
      strcpy_spec hVisible.2 (show r.ident.length < fuel by omega)
      hMemory.ident (show env.iso9660Resp + 4 + r.ident.length + 1 ≤ buffer + o + 33 ∨
        buffer + o + 33 + r.ident.length + 1 ≤ env.iso9660Resp + 4 by omega)
    obtain ⟨s', hFree, hMem', hPages', hInv', hHeap⟩ :=
      hInv₁.kfree_newest (m'.store32 env.iso9660Resp 0)
    refine ⟨env.iso9660Resp, s', ?_, hInv', hPages'.trans hPages, hHeap, ?_,
      Or.inr ⟨r, hSome, rfl, ?_⟩⟩
    · unfold iso9660Readdir
      simp only [hBuf, Outcome.bind_done, Machine.readBlock, hMem, hDir.impl, hDir.lba, hDir.sector,
        hLoop, hIdentLen]
      rw [if_pos (by omega), hCopy]
      simp only [Outcome.bind_done, hFree, Outcome.map_done]
    · intro k l hk hRespK
      have hBuffer : k + l ≤ buffer ∨ buffer + 2048 ≤ k :=
        Stable.apart (s := s₁) (a := ⟨buffer, 2048⟩) (by rwa [hPages]) hInv₁
      rw [hMem']
      exact (((hFrame k l hk).trans ((store8_sameOff _ _ _).sameOn (by omega))).trans
        (hCopied.sameOn (by omega))).trans ((store32_sameOff _ _ _).sameOn (by omega))
    · rw [hMem']
      exact hString.congr ((store32_sameOff _ _ _).sameOn (by omega))

end Calls

-- ---------------------------------------------------------------------------
-- Lookup and listing
-- ---------------------------------------------------------------------------

/-- The first record shown with the given name. -/
def firstRecord (name : List UInt8) (rs : List DirRecord) : Option DirRecord :=
  (visible rs).find? fun r => r.ident = name

/-- No tight record is shown before the first one with the given name. -/
def NoTightBefore (name : List UInt8) (rs : List DirRecord) : Prop :=
  ∀ q ∈ (visible rs).takeWhile fun r => r.ident ≠ name, ¬ q.Tight

instance (name : List UInt8) (rs : List DirRecord) : Decidable (NoTightBefore name rs) :=
  inferInstanceAs (Decidable (∀ q ∈ (visible rs).takeWhile _, ¬ q.Tight))

/-- What `lookup` finds is the first record with the name, and it finds it
exactly when no tight record comes before. -/
theorem lookup_spec (name : List UInt8) (rs : List DirRecord) :
    (∀ r, lookup name rs = some r → firstRecord name rs = some r) ∧
    ∀ r, firstRecord name rs = some r →
      (lookup name rs = some r ↔ NoTightBefore name rs) := by
  induction rs with
  | nil => simp [lookup, firstRecord, visible]
  | cons q qs ih =>
    obtain ⟨hSound, hExact⟩ := ih
    unfold firstRecord NoTightBefore at *
    rw [lookup]
    by_cases hHidden : q.Hidden
    · have hVisible : visible (q :: qs) = visible qs := by simp [visible, hHidden]
      rw [if_pos hHidden, hVisible]
      exact ⟨hSound, hExact⟩
    · have hVisible : visible (q :: qs) = q :: visible qs := by simp [visible, hHidden]
      rw [if_neg hHidden, hVisible]
      by_cases hMatch : q.ident = name
      · rw [if_pos hMatch]
        simp [hMatch]
      · rw [if_neg hMatch, List.takeWhile_cons_of_pos (by simp [hMatch]),
          List.find?_cons_of_neg (by simp [hMatch])]
        by_cases hTight : q.Tight
        · rw [if_pos hTight]
          simp [hTight]
        · rw [if_neg hTight]
          refine ⟨hSound, ?_⟩
          intro r hr
          rw [hExact r hr, List.forall_mem_cons]
          exact ⟨fun h => ⟨hTight, h⟩, fun h => h.2⟩

/-- Some call of `iso9660_readdir` on the directory returns the given name. -/
def Lists (env : Env) (fuel : Nat) (s : Machine) (dir : Nat) (name : CString) : Prop :=
  ∃ i p s', iso9660Readdir env fuel s dir i = .done (p, s') ∧ p ≠ 0 ∧
    StringAt s'.mem (p + 4) name.bytes

theorem lists_iff {env : Env} {s s₁ : Machine} {live : List Alloc}
    {dir fsInfo inode fuel buffer : Nat} {sec : Mem} {dot dotDot : DirRecord}
    {rest : List DirRecord} {name : CString} (hInv : s.Inv live)
    (hDir : DirAt env s live dir fsInfo inode sec) (hSec : IsDirectory sec dot dotDot rest)
    (hResp : ∀ addr ∈ s.pages, env.iso9660Resp + 260 ≤ addr ∨
      addr + 4096 ≤ env.iso9660Resp)
    (hFuel : 256 ≤ fuel) (hBuf : s.kalloc fuel 2048 = .done (buffer, s₁)) :
    Lists env fuel s dir name ↔ ∃ r, firstRecord name.bytes rest = some r := by
  constructor
  · rintro ⟨i, p, s', hRun, hp, hString⟩
    obtain ⟨q, s'', hCall, -, -, -, -, hEnd⟩ :=
      iso9660Readdir_spec (i := i) hInv hDir hSec hResp hFuel hBuf
    obtain ⟨rfl, rfl⟩ : q = p ∧ s'' = s' := by simpa using hCall.symm.trans hRun
    rcases hEnd with ⟨-, hNull⟩ | ⟨r, hSome, rfl, hIdent⟩
    · exact absurd hNull hp
    · have hMem := List.mem_of_getElem? hSome
      have hEq :=
        StringAt.unique (hSec.names r (List.mem_filter.mp hMem).1) name.nonzero hIdent hString
      rw [← Option.isSome_iff_exists, firstRecord, List.find?_isSome]
      exact ⟨r, hMem, by simpa using hEq⟩
  · rintro ⟨r, hFirst⟩
    have hMem := List.mem_of_find?_eq_some hFirst
    have hEq : r.ident = name.bytes := by simpa using List.find?_some hFirst
    obtain ⟨i, hi⟩ := List.mem_iff_getElem?.mp hMem
    obtain ⟨p, s', hName, -, -, -, -, hEnd⟩ :=
      iso9660Readdir_spec (i := i) hInv hDir hSec hResp hFuel hBuf
    rcases hEnd with ⟨hNone, -⟩ | ⟨r', hSome, rfl, hIdent⟩
    · rw [hi] at hNone
      cases hNone
    · obtain rfl : r = r' := Option.some.inj (hi.symm.trans hSome)
      rw [hEq] at hIdent
      exact ⟨i, _, s', hName, env.globals_ne_null.2.2.2, hIdent⟩

/-- The node at `p` carries the lba, the length and the directory flag of the
record. -/
def Carries (m : Mem) (p : Nat) (r : DirRecord) : Prop :=
  m.load32 (p + 272) = r.lba ∧ m.load32 (p + 276) = r.fileLength ∧
    m.load32 (p + 268) = if r.flags &&& 2 ≠ 0 then fsDirectory else fsFile

/-- **Listing and lookup.** On every well-formed directory and for every name,
with room in the heap for the buffer and the node, `iso9660_finddir` returns.
It returns a node exactly for the names `iso9660_readdir` lists, with the data
of the first record of that name, if and only if no record has the name or no
tight record is shown before the first that has it. -/
theorem finddir_agrees_iff (env : Env) (s s₁ s₂ : Machine) (live : List Alloc)
    (dir fsInfo inode fuel buffer response : Nat) (sec : Mem) (dot dotDot : DirRecord)
    (rest : List DirRecord) (name : CString) (hInv : s.Inv live)
    (hDir : DirAt env s live dir fsInfo inode sec) (hSec : IsDirectory sec dot dotDot rest)
    (hResp : ∀ addr ∈ s.pages, env.iso9660Resp + 260 ≤ addr ∨
      addr + 4096 ≤ env.iso9660Resp)
    (hFuel : 256 ≤ fuel) (hBuf : s.kalloc fuel 2048 = .done (buffer, s₁))
    (hNode : s₁.kalloc fuel sizeofFsNode = .done (response, s₂)) :
    ∃ p s', iso9660Finddir env fuel s dir name = .done (p, s') ∧
      (((p ≠ 0 ↔ Lists env fuel s dir name) ∧
          (p ≠ 0 → ∀ r, firstRecord name.bytes rest = some r → Carries s'.mem p r)) ↔
        ((∀ r ∈ visible rest, r.ident ≠ name.bytes) ∨ NoTightBefore name.bytes rest)) := by
  obtain ⟨hSound, hExact⟩ := lookup_spec name.bytes rest
  rw [lists_iff hInv hDir hSec hResp hFuel hBuf]
  cases hLook : lookup name.bytes rest with
  | none =>
    obtain ⟨s', hRun, -⟩ := iso9660Finddir_none hInv hDir hSec hFuel hBuf hLook
    refine ⟨0, s', hRun, ?_⟩
    simp only [ne_eq, not_true_eq_false, false_iff, false_imp_iff, and_true]
    constructor
    · intro hNone
      refine Or.inl fun r hr hEq => hNone ?_
      rw [← Option.isSome_iff_exists, firstRecord, List.find?_isSome]
      exact ⟨r, hr, by simpa using hEq⟩
    · rintro (hNone | hBefore) ⟨r, hFirst⟩
      · exact hNone r (List.mem_of_find?_eq_some hFirst) (by simpa using List.find?_some hFirst)
      · rw [(hExact r hFirst).mpr hBefore] at hLook
        cases hLook
  | some r =>
    obtain ⟨s', hRun, hInv', -, -, hNodeAt⟩ :=
      iso9660Finddir_some hInv hDir hSec hFuel hBuf hNode hLook
    have hFirst := hSound r hLook
    have hp : response ≠ 0 := by
      have := (hInv'.range List.mem_cons_self).2.1
      simp only at this
      omega
    refine ⟨response, s', hRun, iff_of_true ⟨iff_of_true hp ⟨r, hFirst⟩, ?_⟩ ?_⟩
    · intro _ r' hFirst'
      obtain rfl : r = r' := Option.some.inj (hFirst.symm.trans hFirst')
      exact ⟨hNodeAt.inode, hNodeAt.length, hNodeAt.flags⟩
    · exact Or.inr ((hExact r hFirst).mp hLook)

-- ---------------------------------------------------------------------------
-- The mounted disk
-- ---------------------------------------------------------------------------

theorem sample_isDirectory :
    IsDirectory (sampleDisk 20) ⟨34, 20, 2048, 2, [0]⟩ ⟨34, 20, 2048, 2, [1]⟩
      [⟨34, 21, 10, 0, [0x41]⟩, ⟨34, 22, 10, 0, [0x42]⟩] := by
  exact ⟨by decide +kernel, rfl, rfl, by decide⟩

/-- The global mount node as a directory of the mounted disk. -/
theorem sampleShell_dirAt {disk : Nat → Mem} {sh : Shell} (h : sampleShell disk = some sh) :
    ∃ fsInfo live, sh.machine.Inv live ∧ (∀ addr ∈ sh.machine.pages, 0x10000 ≤ addr) ∧
      DirAt (sampleEnv disk) sh.machine live 0x3000 fsInfo ((disk ((disk 16).load32 140)).load32 2)
        (disk ((disk ((disk 16).load32 140)).load32 2)) := by
  obtain ⟨fsInfo, buffer2, -, hInv, hPages, hApart, hMounted⟩ := sampleShell_mounted h
  have hView := hMounted.cdrom
  unfold viewNode cdromView at hView
  simp only [NodeView.mk.injEq] at hView
  refine ⟨fsInfo, _, hInv, hPages, hApart.stable (by simp [sampleEnv]),
    Or.inl ⟨⟨fsInfo, 16⟩, by simp, by simp, by simp⟩, hView.2.2.1, hView.2.1, rfl⟩

/-- The first name of the freshly mounted volume is listed and found. -/
theorem finddir_agrees_on_first_name :
    ∃ sh p s', sampleShell sampleDisk = some sh ∧
      iso9660Finddir (sampleEnv sampleDisk) 600 sh.machine 0x3000 ⟨[0x41], by decide⟩ =
        .done (p, s') ∧
      (p ≠ 0 ↔ Lists (sampleEnv sampleDisk) 600 sh.machine 0x3000 ⟨[0x41], by decide⟩) := by
  have hEval : (sampleShell sampleDisk).map (fun sh => ((sh.machine.kalloc 600 2048).toOption.bind
      fun (_, s) => (s.kalloc 600 sizeofFsNode).toOption).isSome) = some true := by decide +kernel
  obtain ⟨sh, hShell, hCalls⟩ := Option.map_eq_some_iff.mp hEval
  obtain ⟨⟨response, s₂⟩, hCalls⟩ := Option.isSome_iff_exists.mp hCalls
  obtain ⟨⟨buffer, s₁⟩, hBuf, hNode⟩ := Option.bind_eq_some_iff.mp hCalls
  obtain ⟨fsInfo, live, hInv, hPages, hDir⟩ := sampleShell_dirAt hShell
  have hRoot : (sampleDisk ((sampleDisk 16).load32 140)).load32 2 = 20 := by decide +kernel
  rw [hRoot] at hDir
  obtain ⟨p, s', hRun, hAgrees⟩ :=
    finddir_agrees_iff (sampleEnv sampleDisk) sh.machine s₁ s₂ live
    0x3000 fsInfo 20 600 buffer response (sampleDisk 20) _ _ _ ⟨[0x41], by decide⟩ hInv hDir
    sample_isDirectory (fun addr hAddr =>
      Or.inl ((show 0x4000 + 260 ≤ 0x10000 by omega).trans (hPages addr hAddr)))
    (by omega) (Outcome.toOption_eq_some.mp hBuf) (Outcome.toOption_eq_some.mp hNode)
  exact ⟨sh, p, s', hShell, hRun, (hAgrees.mpr (Or.inr (by decide))).1⟩

/-- On a freshly mounted volume `iso9660_readdir` lists `B`, and
`iso9660_finddir` does not find it: the record of `A` before it is tight. -/
theorem finddir_misses_listed_name :
    ∃ heap m' sh, mainHeapInit (fun _ => 0) samplePages = .done (heap, m') ∧
      mountCdrom (sampleEnv sampleDisk) 600 ⟨heap, fun _ => 0⟩ 1 = .done sh ∧
      sh.machine.mem.load32 (0x3000 + 272) = 20 ∧
      IsDirectory (sampleDisk 20) ⟨34, 20, 2048, 2, [0]⟩ ⟨34, 20, 2048, 2, [1]⟩
        [⟨34, 21, 10, 0, [0x41]⟩, ⟨34, 22, 10, 0, [0x42]⟩] ∧
      (∃ s', iso9660Finddir (sampleEnv sampleDisk) 600 sh.machine 0x3000 ⟨[0x42], by decide⟩ =
        .done (0, s')) ∧
      Lists (sampleEnv sampleDisk) 600 sh.machine 0x3000 ⟨[0x42], by decide⟩ := by
  have hEval : (sampleShell sampleDisk).map (fun sh => (sh.machine.mem.load32 (0x3000 + 272),
      (iso9660Finddir (sampleEnv sampleDisk) 600 sh.machine 0x3000
        ⟨[0x42], by decide⟩).toOption.map (·.1),
      (iso9660Readdir (sampleEnv sampleDisk) 600 sh.machine 0x3000 1).toOption.map fun (p, s') =>
        (p, s'.mem (p + 4), s'.mem (p + 5)))) = some (20, some 0, some (0x4000, 0x42, 0)) := by
    decide +kernel
  obtain ⟨sh, hShell, hFacts⟩ := Option.map_eq_some_iff.mp hEval
  obtain ⟨heap, m', hInit, hMount⟩ := sampleShell_done hShell
  simp only [Prod.mk.injEq, Option.map_eq_some_iff] at hFacts
  obtain ⟨hInode, ⟨⟨p, s'⟩, hFind, hp⟩, ⟨q, s''⟩, hRead, hq, hFirst, hSecond⟩ :=
    hFacts
  refine ⟨heap, m', sh, hInit, hMount, hInode, sample_isDirectory, ⟨s', ?_⟩, 1, q, s'',
    Outcome.toOption_eq_some.mp hRead, by omega, ?_, hSecond⟩
  · rw [Outcome.toOption_eq_some.mp hFind]
    simp only at hp
    rw [hp]
  · intro j hj
    obtain rfl : j = 0 := by
      simp only [List.length_cons, List.length_nil] at hj
      omega
    exact hFirst

end Hexos
