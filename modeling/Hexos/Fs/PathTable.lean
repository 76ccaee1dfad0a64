import Hexos.Fs.Directory

/-!
# HexOS — the path table of an ISO9660 volume

The path table lists the directories of a volume in packed entries of varying
length. `iso9660_recreate` scans it twice: for the entry with a given lba, and
from the start again for the entry with the number of the parent.

## Results

* `findPathEntry_spec` — the scan by lba.
* `skipPathEntries_spec` — the scan by number.
* `pathParent_entries` — both scans together.
* `pathParent_spec` — the link to the parent of a directory of the volume.
* `Volume.exists_ancestry` — every directory has a chain of ancestors.
-/

namespace Hexos

open Mem

-- ---------------------------------------------------------------------------
-- The scans
-- ---------------------------------------------------------------------------

section Scans

variable {m sec : Mem} {base off fuel : Nat} {es : List PathEntry} {e : PathEntry}

/-- What a scan reads of an entry. -/
theorem PathEntry.At.read (h : e.At sec off) (hm : SectorAt m base sec off)
    (hEnd : off + 8 ≤ 2048) :
    m (base + off) ≠ 0 ∧ pathEntryLen m (base + off) = e.size ∧
      m.load32 (base + off + 2) = e.lba ∧ m.load16 (base + off + 6) = e.parentNum := by
  have hNonempty := h.nonempty
  have hLen : (m (base + off)).toNat = e.identLen := by
    rw [hm off (le_refl off) (by omega), h.identLen]
  refine ⟨?_, ?_, ?_, ?_⟩
  · intro h0
    rw [h0] at hLen
    have : (0 : UInt8).toNat = 0 := rfl
    omega
  · unfold pathEntryLen PathEntry.size
    rw [hLen]
  · rw [Nat.add_assoc, hm.load32 (by omega) (by omega), h.lba]
  · unfold Mem.load16
    rw [Nat.add_assoc base off 6, Nat.add_assoc base (off + 6) 1,
      hm (off + 6) (by omega) (by omega), hm (off + 6 + 1) (by omega) (by omega)]
    exact h.parentNum

/-- Packed entries from the offset `off` on, with nothing said about what follows
them. -/
def PathEntries (tab : Mem) : Nat → List PathEntry → Prop
  | _, [] => True
  | off, e :: es => e.At tab off ∧ PathEntries tab (off + e.size) es

instance decidablePathEntries (tab : Mem) : ∀ off es, Decidable (PathEntries tab off es)
  | _, [] => inferInstanceAs (Decidable True)
  | off, e :: es =>
    have := decidablePathEntries tab (off + e.size) es
    inferInstanceAs (Decidable (e.At tab off ∧ PathEntries tab (off + e.size) es))

theorem PathTable.entries (h : PathTable sec off es) : PathEntries sec off es := by
  induction es generalizing off with
  | nil => trivial
  | cons e es ih => exact ⟨h.1, ih h.2⟩

/-- The entry with a given index. -/
theorem PathEntries.get {i : Nat} (h : PathEntries sec off es) (hi : es[i]? = some e) :
    e.At sec (off + pathOffset es i) := by
  induction es generalizing off i with
  | nil => simp at hi
  | cons q qs ih =>
    obtain ⟨hAt, hRest⟩ := h
    cases i with
    | zero =>
      obtain rfl : q = e := by simpa using hi
      simpa [pathOffset] using hAt
    | succ i =>
      have hNext := ih hRest (i := i) (by simpa using hi)
      simpa [pathOffset, Nat.add_assoc] using hNext

/-- An entry takes nine bytes at least. -/
theorem PathEntries.offset_lt {i j : Nat} (h : PathEntries sec off es) (hij : i ≤ j)
    (hj : j ≤ es.length) : pathOffset es i + 9 * (j - i) ≤ pathOffset es j := by
  induction es generalizing off i j with
  | nil =>
    obtain rfl : j = 0 := by simpa using hj
    obtain rfl : i = 0 := by omega
    simp [pathOffset]
  | cons q qs ih =>
    obtain ⟨hAt, hRest⟩ := h
    have hNonempty := hAt.nonempty
    rw [List.length_cons] at hj
    cases j with
    | zero =>
      obtain rfl : i = 0 := by omega
      simp [pathOffset]
    | succ j =>
      cases i with
      | zero =>
        have hTail := ih hRest (Nat.zero_le j) (by omega)
        have hZero : pathOffset qs 0 = 0 := by cases qs <;> rfl
        simp only [pathOffset, PathEntry.size, hZero] at hTail ⊢
        omega
      | succ i =>
        have hTail := ih hRest (show i ≤ j by omega) (by omega)
        simp only [pathOffset]
        omega

/-- **The scan by lba.** It ends at the first entry with the lba, if the fixed
part of that entry is in the sector. -/
theorem findPathEntry_spec {i : Nat} (first : Bool) (h : PathEntries sec off es)
    (hm : SectorAt m base sec off) (hi : es[i]? = some e)
    (hEnd : off + pathOffset es i + 8 ≤ 2048)
    (hFirst : ∀ j e', j < i → es[j]? = some e' → e'.lba ≠ e.lba) (hFuel : i < fuel) :
    findPathEntry m e.lba fuel (base + off) first =
      .done (some (base + off + pathOffset es i, first && decide (i = 0))) := by
  induction es generalizing off i fuel first with
  | nil => simp at hi
  | cons q qs ih =>
    obtain ⟨hAt, hRest⟩ := h
    obtain ⟨fuel, rfl⟩ : ∃ f, fuel = f + 1 := ⟨fuel - 1, by omega⟩
    obtain ⟨hNonzero, hLen, hLba, -⟩ := hAt.read hm (by omega)
    cases i with
    | zero =>
      obtain rfl : q = e := by simpa using hi
      rw [findPathEntry, if_pos hLba]
      simp [pathOffset]
    | succ i =>
      have hNe : q.lba ≠ e.lba := hFirst 0 q (by omega) rfl
      simp only [pathOffset] at hEnd
      rw [findPathEntry, if_neg (by rw [hLba]; exact hNe), if_neg hNonzero, hLen,
        Nat.add_assoc base off, ih false hRest (hm.later (by omega)) (by simpa using hi) (by omega)
          (fun j e' hj he' => hFirst (j + 1) e' (by omega) (by simpa using he')) (by omega)]
      simp [pathOffset, Nat.add_assoc]

/-- **The scan by number.** -/
theorem skipPathEntries_spec {n : Nat} (h : PathEntries sec off es) (hm : SectorAt m base sec off)
    (hn : n ≤ es.length) (hEnd : off + pathOffset es n ≤ 2048) :
    skipPathEntries m n (base + off) = some (base + off + pathOffset es n) := by
  induction es generalizing off n with
  | nil =>
    obtain rfl : n = 0 := by simpa using hn
    simp [skipPathEntries, pathOffset]
  | cons q qs ih =>
    obtain ⟨hAt, hRest⟩ := h
    cases n with
    | zero => simp [skipPathEntries, pathOffset]
    | succ n =>
      have hSize : 8 ≤ q.size := by
        unfold PathEntry.size
        omega
      simp only [pathOffset] at hEnd
      obtain ⟨hNonzero, hLen, -⟩ := hAt.read hm (by omega)
      rw [List.length_cons] at hn
      rw [skipPathEntries, if_neg hNonzero, hLen, Nat.add_assoc base off,
        ih hRest (hm.later (by omega)) (by omega) (by omega)]
      simp [pathOffset, Nat.add_assoc]

/-- The entries of a table in one sector end before the sector does. -/
theorem PathTable.get {i : Nat} (h : PathTable sec off es) (hi : es[i]? = some e) :
    e.At sec (off + pathOffset es i) ∧ off + pathOffset es i + e.size < 2048 := by
  refine ⟨h.entries.get hi, ?_⟩
  induction es generalizing off i with
  | nil => simp at hi
  | cons q qs ih =>
    have hBounds := h.2.bounds
    cases i with
    | zero =>
      obtain rfl : q = e := by simpa using hi
      simp only [pathOffset]
      omega
    | succ i =>
      have hNext := ih h.2 (i := i) (by simpa using hi)
      simp only [pathOffset]
      omega

/-- The sector of the root directory of the volume. -/
def Volume.rootLba {env : Env} {dev : Nat} (_ : Volume env dev) : Nat :=
  (pathTableSector env dev).load32 2

/-- The root directory is the first entry of the path table. -/
theorem Volume.root_entry {env : Env} {dev : Nat} (v : Volume env dev) :
    ∃ d, v.entries[0]? = some d ∧ d.lba = v.rootLba := by
  obtain ⟨d, hHead, -⟩ := Option.map_eq_some_iff.mp v.root
  have hd : v.entries[0]? = some d := by rw [← List.head?_eq_getElem?, hHead]
  obtain ⟨hAt, -⟩ := v.table.get hd
  exact ⟨d, hd, by simpa [pathOffset, rootLba] using hAt.lba.symm⟩

/-- **Both scans.** For an entry whose fixed part is in the sector they give the
link to its parent, or for the first entry to the mount point. -/
theorem pathParent_entries {i : Nat} (env : Env) (fsInfo : Nat) (h : PathEntries sec 0 es)
    (hm : SectorAt m base sec 0) (hi : es[i]? = some e) (hEnd : pathOffset es i + 8 ≤ 2048)
    (hLbas : (es.map PathEntry.lba).Nodup) (hParent : i ≠ 0 → e.parentNum < i + 1)
    (hFuel : 256 ≤ fuel) :
    ∃ p first, findPathEntry m e.lba fuel base true = .done (some (p, first)) ∧
      pathParent env m fsInfo base p first =
        if i = 0 then some (loadMini m (fsInfo + 4))
        else es[e.parentNum - 1]?.map fun q => ⟨q.lba, fsInfo, env.iso9660Recreate⟩ := by
  obtain ⟨hLength, rfl⟩ := List.getElem?_eq_some_iff.mp hi
  have hIndex := h.offset_lt (Nat.zero_le i) (by omega)
  have hFirst : ∀ j e', j < i → es[j]? = some e' → e'.lba ≠ es[i].lba := by
    intro j e' hj he'
    obtain ⟨hj', rfl⟩ := List.getElem?_eq_some_iff.mp he'
    exact List.pairwise_iff_getElem.mp (List.pairwise_map.mp hLbas) j i hj' hLength hj
  have hFind := findPathEntry_spec true h hm hi (by omega) hFirst (show i < fuel by omega)
  simp only [Nat.add_zero, Bool.true_and] at hFind
  refine ⟨_, _, hFind, ?_⟩
  unfold pathParent
  by_cases hZero : i = 0
  · rw [if_pos hZero, if_pos (decide_eq_true hZero)]
  · have hNumber := hParent hZero
    obtain ⟨-, -, -, hNum⟩ := (h.get hi).read (hm.later (Nat.zero_le _)) (by omega)
    have hBefore := h.offset_lt (show es[i].parentNum - 1 ≤ i by omega) (by omega)
    have hUp : es[es[i].parentNum - 1]? = some (es.get ⟨es[i].parentNum - 1, by omega⟩) :=
      List.getElem?_eq_getElem (by omega)
    obtain ⟨-, -, hLba, -⟩ := (h.get hUp).read (hm.later (Nat.zero_le _)) (by omega)
    have hSkip :=
      skipPathEntries_spec h hm (show es[i].parentNum - 1 ≤ es.length by omega) (by omega)
    simp only [Nat.add_zero, Nat.zero_add] at hNum hSkip hLba
    rw [if_neg hZero, if_neg (by simpa using hZero), hNum, hSkip, Option.map_some, hLba, hUp,
      Option.map_some]

end Scans

-- ---------------------------------------------------------------------------
-- Ancestors
-- ---------------------------------------------------------------------------

/-- The entries from the one with the index `i` up to the root. -/
inductive Volume.Ancestry {env : Env} {dev : Nat} (v : Volume env dev) :
    Nat → List PathEntry → Prop
  | root {d : PathEntry} : v.entries[0]? = some d → Ancestry v 0 [d]
  | child {i : Nat} {d : PathEntry} {ds : List PathEntry} : i ≠ 0 → v.entries[i]? = some d →
      Ancestry v (d.parentNum - 1) ds → Ancestry v i (d :: ds)

/-- The link to the first of the given directories, or to the mount point when
there is none. -/
def upLink (env : Env) (fsInfo : Nat) (mountpoint : FsNodeMini) : List PathEntry → FsNodeMini
  | [] => mountpoint
  | p :: _ => ⟨p.lba, fsInfo, env.iso9660Recreate⟩

namespace Volume

variable {env : Env} {dev : Nat} {v : Volume env dev} {i : Nat} {d : PathEntry}
  {ds : List PathEntry}

theorem Ancestry.head (h : v.Ancestry i (d :: ds)) : v.entries[i]? = some d := by
  cases h with
  | root h => exact h
  | child _ h _ => exact h

theorem Ancestry.exists_cons (h : v.Ancestry i ds) : ∃ d ds', ds = d :: ds' := by
  cases h with
  | root _ => exact ⟨_, _, rfl⟩
  | child _ _ _ => exact ⟨_, _, rfl⟩

/-- A directory has one chain of ancestors. -/
theorem Ancestry.unique {es es' : List PathEntry} (h : v.Ancestry i es) (h' : v.Ancestry i es') :
    es = es' := by
  induction h generalizing es' with
  | root hd =>
    cases h' with
    | root hd' => rw [Option.some.inj (hd.symm.trans hd')]
    | child hi _ _ => exact absurd rfl hi
  | child hi hd _ ih =>
    cases h' with
    | root _ => exact absurd rfl hi
    | child _ hd' hRest =>
      obtain rfl := Option.some.inj (hd.symm.trans hd')
      rw [ih hRest]

/-- Every directory has a chain of ancestors: the numbers of the parents
decrease. -/
theorem exists_ancestry (v : Volume env dev) (i : Nat) :
    ∀ d, v.entries[i]? = some d → ∃ ds, v.Ancestry i (d :: ds) := by
  induction i using Nat.strong_induction_on with
  | _ i ih =>
    intro d hd
    by_cases hi : i = 0
    · subst hi
      exact ⟨[], .root hd⟩
    · have hParent := v.parents i d hd hi
      have hLength : i < v.entries.length := (List.getElem?_eq_some_iff.mp hd).1
      obtain ⟨p, hp⟩ : ∃ p, v.entries[d.parentNum - 1]? = some p :=
        ⟨_, List.getElem?_eq_getElem (by omega)⟩
      obtain ⟨ds, hds⟩ := ih (d.parentNum - 1) (by omega) p hp
      exact ⟨p :: ds, .child hi hd hds⟩

/-- The link to an ancestor fits into memory. -/
theorem upLink_words {m : Mem} {fsInfo : Nat} {mountpoint : FsNodeMini} (h : v.Ancestry i (d :: ds))
    (hInfo : fsInfo < 2 ^ 32) (hVolume : VolumeAt m fsInfo dev mountpoint) :
    (upLink env fsInfo mountpoint ds).Words := by
  cases h with
  | root _ =>
    rw [upLink, ← hVolume.mountpoint]
    exact ⟨load32_lt _ _, load32_lt _ _, load32_lt _ _⟩
  | child _ _ hds =>
    obtain ⟨p, ps, rfl⟩ := hds.exists_cons
    obtain ⟨hAt, -⟩ := v.table.get hds.head
    refine ⟨?_, hInfo, (env.words env.iso9660Recreate (by simp)).2⟩
    rw [upLink, ← hAt.lba]
    exact load32_lt _ _

/-- **The link to the parent.** With the path table at `base`, both scans
together give the link to the next ancestor. -/
theorem pathParent_spec {m : Mem} {base fuel fsInfo : Nat} {mountpoint : FsNodeMini}
    (h : v.Ancestry i (d :: ds)) (hm : SectorAt m base (pathTableSector env dev) 0)
    (hPoint : loadMini m (fsInfo + 4) = mountpoint) (hFuel : 256 ≤ fuel) :
    ∃ p first, findPathEntry m d.lba fuel base true = .done (some (p, first)) ∧
      pathParent env m fsInfo base p first = some (upLink env fsInfo mountpoint ds) := by
  have hd := h.head
  have hSize : 8 ≤ d.size := by
    unfold PathEntry.size
    omega
  obtain ⟨-, hEnd⟩ := v.table.get hd
  obtain ⟨p, first, hFind, hParent⟩ :=
    pathParent_entries env fsInfo v.table.entries hm hd (by omega) v.lbas
    (v.parents i d hd) hFuel
  refine ⟨p, first, hFind, hParent.trans ?_⟩
  cases h with
  | root _ => simp [hPoint, upLink]
  | child hi _ hds =>
    obtain ⟨q, qs, rfl⟩ := hds.exists_cons
    rw [if_neg hi, hds.head]
    rfl

end Volume

end Hexos
