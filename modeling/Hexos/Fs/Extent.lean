import Hexos.Fs.Fuel
import Hexos.Fs.Recreate
import Mathlib.Algebra.GroupWithZero.Nat

/-!
# HexOS — directories and path tables of several sectors

An ISO9660 directory is an extent of sectors. No record crosses a sector, and
what the records leave of a sector is zero. The path table is an extent of
packed entries, which do cross sectors. `iso9660_readdir` and `iso9660_recreate`
read one sector of each.

## Results

* `readdirNames_spec` — the names listed, call after call.
* `IsoVolume.parentLink` — the scans of the path table, for an entry in its
  first sector.
* `first_sectors_served` — what both calls make of a volume with extents of any
  size.
-/

namespace Hexos

open Mem

-- ---------------------------------------------------------------------------
-- The format
-- ---------------------------------------------------------------------------

/-- The bytes of an extent: consecutive sectors from `lba` on. -/
def extent (env : Env) (dev lba : Nat) : Mem := fun k =>
  env.devices dev ((lba + k / 2048) % 2 ^ 32) (k % 2048)

/-- The records of one sector of a directory from the offset `off` on. None
reaches beyond the sector, and what they leave of it is zero. -/
def SectorRecords (sec : Mem) : Nat → List DirRecord → Prop
  | off, [] => off ≤ 2048 ∧ ∀ k, off ≤ k → k < 2048 → sec k = 0
  | off, r :: rs => r.At sec off ∧ SectorRecords sec (off + r.len) rs

/-- The bytes that records take. -/
def recordBytes (rs : List DirRecord) : Nat := (rs.map DirRecord.len).sum

/-- A well-formed directory of any number of sectors: '.', '..' and the records
`first` in the first sector, and the records of each later one. -/
structure IsDirExtent (env : Env) (dev lba : Nat) (dot dotDot : DirRecord) (first : List DirRecord)
    (later : List (List DirRecord)) : Prop where
  head   : SectorRecords (env.devices dev lba) 0 (dot :: dotDot :: first)
  tail   : ∀ k rs, later[k]? = some rs →
    SectorRecords (env.devices dev ((lba + (k + 1)) % 2 ^ 32)) 0 rs
  self   : dot.ident = [0] ∧ dot.lba = lba ∧ dot.flags &&& 2 ≠ 0
  parent : dotDot.ident = [1]
  length : dot.fileLength = 2048 * (later.length + 1)
  names  : ∀ r ∈ first ++ later.flatten, 0 ∉ r.ident ∧ 1 ∉ r.ident

/-- A well-formed volume: a path table of any length, whose first entry is the
root and whose other entries come after their parents, and directories of any
number of sectors. -/
structure IsoVolume (env : Env) (dev : Nat) where
  entries : List PathEntry
  table   : PathEntries (extent env dev ((env.devices dev iso9660Offset).load32 140)) 0 entries
  size    : (env.devices dev iso9660Offset).load32 132 = pathOffset entries entries.length
  root    : (entries.head?.map PathEntry.identLen) = some 1
  lbas    : (entries.map PathEntry.lba).Nodup
  parents : ∀ i e, entries[i]? = some e → i ≠ 0 → e.parentNum < i + 1
  dirs    : ∀ e ∈ entries, ∃ dot dotDot first later,
    IsDirExtent env dev e.lba dot dotDot first later

/-- Records that do not fill their sector end at a zero byte. -/
theorem SectorRecords.dirRecords {sec : Mem} {off : Nat} {rs : List DirRecord}
    (h : SectorRecords sec off rs) (hEnd : off + recordBytes rs < 2048) :
    DirRecords sec off rs := by
  induction rs generalizing off with
  | nil =>
    simp only [recordBytes, List.map_nil, List.sum_nil, Nat.add_zero] at hEnd
    exact ⟨h.2 off (le_refl off) hEnd, hEnd⟩
  | cons r rs ih =>
    simp only [recordBytes, List.map_cons, List.sum_cons] at hEnd ih
    exact ⟨h.1, ih h.2 (by omega)⟩

section Format

variable {env : Env} {dev lba : Nat} {dot dotDot : DirRecord} {first : List DirRecord}
  {later : List (List DirRecord)}

/-- The first sector as a directory of its own. -/
theorem IsDirExtent.isDirectory (h : IsDirExtent env dev lba dot dotDot first later)
    (hEnd : recordBytes (dot :: dotDot :: first) < 2048) :
    IsDirectory (env.devices dev lba) dot dotDot first :=
  ⟨h.head.dirRecords (by omega), h.self.1, h.parent,
    fun r hr => (h.names r (List.mem_append_left _ hr)).1⟩

/-- Every record of the first sector is shown. -/
theorem IsDirExtent.visible_first (h : IsDirExtent env dev lba dot dotDot first later) :
    visible first = first := by
  unfold visible
  rw [List.filter_eq_self]
  intro r hr
  have hName := (h.names r (List.mem_append_left _ hr)).2
  refine decide_eq_true fun hc => hName (List.mem_of_mem_head? ?_)
  exact hc

/-- The first sector starts with a '.' record. -/
theorem IsDirExtent.isDot (h : IsDirExtent env dev lba dot dotDot first later) :
    IsDot (env.devices dev lba) lba := by
  obtain ⟨hIdent, hLba, hFlags⟩ := h.self
  have hAt := h.head.1
  refine ⟨?_, ?_, ?_, ?_⟩
  · have hLen := hAt.identLen
    rw [hIdent, Nat.zero_add] at hLen
    exact UInt8.toNat_inj.mp hLen
  · have hByte := hAt.ident 0 (by rw [hIdent]; decide)
    simpa [hIdent] using hByte
  · have hByte := hAt.flags
    rw [Nat.zero_add] at hByte
    rw [hByte]
    exact hFlags
  · have hWord := hAt.lba
    rwa [Nat.zero_add, hLba] at hWord

end Format

-- ---------------------------------------------------------------------------
-- Listing
-- ---------------------------------------------------------------------------

/-- The names that the calls of `iso9660_readdir` with the numbers `i`, `i + 1`,
... return, up to the first null. -/
def readdirNames (env : Env) (fuel dir : Nat) :
    Nat → Machine → Nat → Outcome (List (List UInt8) × Machine)
  | 0, _, _ => .running
  | rounds + 1, s, i =>
    (iso9660Readdir env fuel s dir i).bind fun (p, s) =>
    if p = 0 then .done ([], s)
    else
      (printString fuel s.mem (p + 4)).bind fun name =>
      (readdirNames env fuel dir rounds s (i + 1)).map fun (names, s) => (name :: names, s)

/-- The global `iso9660_resp` meets neither the heap nor the node and the volume of
the directory. -/
structure RespApart (env : Env) (pages : List Nat) (dir fsInfo : Nat) : Prop where
  pages : ∀ addr ∈ pages, env.iso9660Resp + 260 ≤ addr ∨ addr + 4096 ≤ env.iso9660Resp
  dir   : env.iso9660Resp + 260 ≤ dir ∨ dir + 332 ≤ env.iso9660Resp
  info  : env.iso9660Resp + 260 ≤ fsInfo ∨ fsInfo + 16 ≤ env.iso9660Resp

theorem DirAt.congr {env : Env} {s s' : Machine} {live : List Alloc} {dir fsInfo inode : Nat}
    {sec : Mem} (h : DirAt env s live dir fsInfo inode sec) (hPages : s'.pages = s.pages)
    (hDir : SameOn s.mem s'.mem dir 332) (hInfo : SameOn s.mem s'.mem fsInfo 16) :
    DirAt env s' live dir fsInfo inode sec := by
  refine ⟨by rw [hPages]; exact h.node, by rw [hPages]; exact h.info, ?_, ?_, ?_⟩
  · rw [(hDir.sub (by omega) (by omega)).load32, h.impl]
  · rw [(hDir.sub (by omega) (by omega)).load32, h.lba]
  · rw [(hInfo.sub (l := 4) (le_refl fsInfo) (by omega)).load32, h.sector]

/-- One call, with what the next one needs. -/
theorem readdir_call {env : Env} {s : Machine} {live : List Alloc} {dir fsInfo inode i : Nat}
    {sec : Mem} {dot dotDot : DirRecord} {rest : List DirRecord}
    (hSec : IsDirectory sec dot dotDot rest) (hInv : s.Inv live)
    (hDir : DirAt env s live dir fsInfo inode sec) (hResp : RespApart env s.pages dir fsInfo)
    (hRoom : ∃ f r, kalloc f s.heap 2048 = .done r) :
    ∃ f p s', iso9660Readdir env f s dir i = .done (p, s') ∧ s'.Inv live ∧
      s'.pages = s.pages ∧
      (∃ f r, kalloc f s'.heap 2048 = .done r) ∧
      (∀ k l, Stable s.pages live k l → env.iso9660Resp + 260 ≤ k ∨
        k + l ≤ env.iso9660Resp →
        SameOn s.mem s'.mem k l) ∧
      (((visible rest)[i]? = none ∧ p = 0) ∨ ∃ r, (visible rest)[i]? = some r ∧
        p = env.iso9660Resp ∧ StringAt s'.mem (env.iso9660Resp + 4) r.ident) := by
  obtain ⟨f, ⟨buffer, heap₁⟩, hAlloc⟩ := hRoom
  have hBuf := Machine.kalloc_mono (Machine.kalloc_eq hAlloc s.mem) (Nat.le_max_left f 256)
  obtain ⟨p, s', hCall, hInv', hPages', hFree, hSame, hEnd⟩ :=
    iso9660Readdir_spec (i := i) hInv hDir hSec hResp.pages (Nat.le_max_right f 256) hBuf
  exact ⟨max f 256, p, s', hCall, hInv', hPages', kalloc_again hInv (by omega) hAlloc hFree,
    hSame, hEnd⟩

/-- **Listing, call after call.** With room for one buffer, the calls from the
number `i` on return the names of the records from there on. -/
theorem readdirNames_spec {env : Env} {s : Machine} {live : List Alloc} {dir fsInfo inode i : Nat}
    {sec : Mem} {dot dotDot : DirRecord} {rest : List DirRecord}
    (hSec : IsDirectory sec dot dotDot rest) (hInv : s.Inv live)
    (hDir : DirAt env s live dir fsInfo inode sec) (hResp : RespApart env s.pages dir fsInfo)
    (hRoom : ∃ f r, kalloc f s.heap 2048 = .done r) :
    ∃ fuel₀ s', ∀ fuel rounds, fuel₀ ≤ fuel → (visible rest).length - i < rounds →
      readdirNames env fuel dir rounds s i =
        .done (((visible rest).drop i).map DirRecord.ident, s') := by
  obtain ⟨n, hn⟩ : ∃ n, n = (visible rest).length - i := ⟨_, rfl⟩
  induction n generalizing s i with
  | zero =>
    -- no record is left
    obtain ⟨f, p, s', hCall, -, -, -, -, hEnd⟩ :=
      readdir_call (i := i) hSec hInv hDir hResp hRoom
    have hNone : (visible rest)[i]? = none := List.getElem?_eq_none (by omega)
    obtain rfl : p = 0 := by
      rcases hEnd with ⟨-, hNull⟩ | ⟨r, hSome, -⟩
      · exact hNull
      · rw [hNone] at hSome
        cases hSome
    refine ⟨f, s', ?_⟩
    intro fuel rounds hFuel hRounds
    obtain ⟨rounds, rfl⟩ : ∃ r, rounds = r + 1 := ⟨rounds - 1, by omega⟩
    rw [readdirNames, iso9660Readdir_mono hCall hFuel, List.drop_eq_nil_of_le (by omega)]
    rfl
  | succ n ih =>
    obtain ⟨f, p, s₁, hCall, hInv₁, hPages₁, hRoom₁, hSame, hEnd⟩ :=
      readdir_call (i := i) hSec hInv hDir hResp hRoom
    have hLt : i < (visible rest).length := by omega
    obtain ⟨r, hSome, rfl, hString⟩ := hEnd.resolve_left fun hc => by
      rw [List.getElem?_eq_getElem hLt] at hc
      cases hc.1
    have hMem : r ∈ rest := (List.mem_filter.mp (List.mem_of_getElem? hSome)).1
    -- the next call starts in the machine that this one left
    obtain ⟨fuel₁, s', hRest⟩ := ih (i := i + 1) hInv₁
      (hDir.congr hPages₁ (hSame _ _ hDir.node hResp.dir) (hSame _ _ hDir.info hResp.info))
      (by rw [hPages₁]; exact hResp) hRoom₁ (by omega)
    refine ⟨max (max f fuel₁) (r.ident.length + 1), s', ?_⟩
    intro fuel rounds hFuel hRounds
    obtain ⟨rounds, rfl⟩ : ∃ k, rounds = k + 1 := ⟨rounds - 1, by omega⟩
    have hDrop : (visible rest).drop i = r :: (visible rest).drop (i + 1) := by
      obtain ⟨_, hGet⟩ := List.getElem?_eq_some_iff.mp hSome
      rw [List.drop_eq_getElem_cons hLt, hGet]
    rw [readdirNames, iso9660Readdir_mono hCall (by omega), Outcome.bind_done]
    simp only [if_neg env.globals_ne_null.2.2.2]
    rw [printString_spec (hSec.names r hMem) (by omega) hString, Outcome.bind_done,
      hRest fuel rounds (by omega) (by omega), Outcome.map_done, hDrop, List.map_cons]

-- ---------------------------------------------------------------------------
-- The path table
-- ---------------------------------------------------------------------------

/-- The sector that is read is the first of the extent. -/
theorem sectorAt_extent {env : Env} {dev lba base : Nat} {m : Mem} (hLba : lba < 2 ^ 32)
    (h : SectorAt m base (env.devices dev lba) 0) : SectorAt m base (extent env dev lba) 0 := by
  intro k hk hk'
  rw [h k hk hk']
  unfold extent
  rw [Nat.div_eq_of_lt hk', Nat.add_zero, Nat.mod_eq_of_lt hLba, Nat.mod_eq_of_lt hk']

/-- **The link to the parent**, for an entry whose fixed part is in the first
sector. The parent's entry comes before. -/
theorem IsoVolume.parentLink {env : Env} {dev i fsInfo fuel : Nat} {d : PathEntry} {m₀ : Mem}
    {mountpoint : FsNodeMini} (v : IsoVolume env dev) (hd : v.entries[i]? = some d)
    (hEnd : pathOffset v.entries i + 8 ≤ 2048) (hInfo : fsInfo < 2 ^ 32)
    (hVolume : VolumeAt m₀ fsInfo dev mountpoint) (hFuel : 256 ≤ fuel) :
    ∃ parent, parent.Words ∧ ParentLink env dev fuel fsInfo mountpoint d.lba parent := by
  have hScans : ∀ m base, SectorAt m base (pathTableSector env dev) 0 → _ := fun m base hm =>
    pathParent_entries env fsInfo v.table (sectorAt_extent (load32_lt _ _) hm) hd hEnd v.lbas
      (v.parents i d hd) hFuel
  by_cases hZero : i = 0
  · refine ⟨mountpoint, ?_, ?_⟩
    · rw [← hVolume.mountpoint]
      exact ⟨load32_lt _ _, load32_lt _ _, load32_lt _ _⟩
    · intro m base hm hVolume'
      obtain ⟨p, first, hFind, hParent⟩ := hScans m base hm
      exact ⟨p, first, hFind, by rw [hParent, if_pos hZero, hVolume'.mountpoint]⟩
  · have hNumber := v.parents i d hd hZero
    have hLength : i < v.entries.length := (List.getElem?_eq_some_iff.mp hd).1
    obtain ⟨q, hq⟩ : ∃ q, v.entries[d.parentNum - 1]? = some q :=
      ⟨_, List.getElem?_eq_getElem (by omega)⟩
    refine ⟨⟨q.lba, fsInfo, env.iso9660Recreate⟩,
      ⟨?_, hInfo, (env.words env.iso9660Recreate (by simp)).2⟩, ?_⟩
    · show q.lba < 2 ^ 32
      rw [← (v.table.get hq).lba]
      exact load32_lt _ _
    · intro m base hm _
      obtain ⟨p, first, hFind, hParent⟩ := hScans m base hm
      exact ⟨p, first, hFind, by rw [hParent, if_neg hZero, hq, Option.map_some]⟩

-- ---------------------------------------------------------------------------
-- Volumes of any size
-- ---------------------------------------------------------------------------

/-- **First sectors.** On every well-formed volume, whatever the number of sectors
of its directories and its path table, and with room in the heap:
`iso9660_readdir` lists the records other than '.' and '..' of the first sector
of a directory, in order, if they leave a byte of it; and `iso9660_recreate`
returns a node for every directory whose entry in the path table has its fixed
part in the first sector. -/
theorem first_sectors_served (env : Env) (dev : Nat) (v : IsoVolume env dev) (s : Machine)
    (live : List Alloc) (fsInfo : Nat) (mountpoint : FsNodeMini) (hInv : s.Inv live)
    (hInfo : Stable s.pages live fsInfo 16) (hWord : fsInfo < 2 ^ 32)
    (hVolume : VolumeAt s.mem fsInfo dev mountpoint) :
    (∀ e ∈ v.entries, ∀ dot dotDot first later,
      IsDirExtent env dev e.lba dot dotDot first later →
      recordBytes (dot :: dotDot :: first) < 2048 → ∀ dir, Stable s.pages live dir 332 →
      s.mem.load32 (dir + 272) = e.lba → s.mem.load32 (dir + 280) = fsInfo →
      RespApart env s.pages dir fsInfo → (∃ f r, kalloc f s.heap 2048 = .done r) →
      ∃ fuel₀ s', ∀ fuel, fuel₀ ≤ fuel →
        readdirNames env fuel dir fuel s 0 = .done (first.map DirRecord.ident, s')) ∧
    ∀ i d, v.entries[i]? = some d → pathOffset v.entries i + 8 ≤ 2048 →
      ∀ fuel entryBuffer node heap' recreate, 256 ≤ fuel →
      recreateCalls fuel s.heap = .done (entryBuffer, node, heap') →
      ∃ s', iso9660Recreate env fuel s ⟨d.lba, fsInfo, recreate⟩ = .done (node, s') ∧
        node ≠ 0 := by
  refine ⟨?_, ?_⟩
  · intro e _ dot dotDot first later hExtent hEnd dir hDir hLba hImpl hResp hRoom
    obtain ⟨fuel₀, s', hNames⟩ := readdirNames_spec (i := 0) (hExtent.isDirectory hEnd) hInv
      ⟨hDir, hInfo, hImpl, hLba, by rw [hVolume.dev]⟩ hResp hRoom
    rw [hExtent.visible_first] at hNames
    refine ⟨max fuel₀ (first.length + 1), s', ?_⟩
    intro fuel hFuel
    rw [hNames fuel fuel (by omega) (by omega), List.drop_zero]
  · intro i d hd hEnd fuel entryBuffer node heap' recreate hFuel hCalls
    obtain ⟨dot, dotDot, first, later, hExtent⟩ := v.dirs d (List.mem_of_getElem? hd)
    obtain ⟨parent, hParent, hLink⟩ := v.parentLink hd hEnd hWord hVolume hFuel
    obtain ⟨m', r, inode, hRun, hInv', -⟩ :=
      iso9660Recreate_run hInv hInfo hWord hVolume hLink hParent
      hExtent.isDot (by omega) hCalls recreate
    have hNode := (hInv'.range List.mem_cons_self).2.1
    simp only at hNode
    exact ⟨⟨heap', m'⟩, hRun, by omega⟩

-- ---------------------------------------------------------------------------
-- A volume with a directory of two sectors
-- ---------------------------------------------------------------------------

/-- The record has its lba in one byte and its file length in whole pages of 256
bytes, and it has room for its identifier. -/
def DirRecord.Small (r : DirRecord) : Prop :=
  r.len < 256 ∧ 33 + r.ident.length + (if r.ident.length % 2 = 0 then 1 else 0) ≤ r.len ∧
    r.lba < 256 ∧ r.fileLength % 256 = 0 ∧ r.fileLength < 65536 ∧ r.ident ≠ []

instance (r : DirRecord) : Decidable r.Small := inferInstanceAs (Decidable (_ ∧ _))

/-- The bytes of a small record. -/
def DirRecord.byte (r : DirRecord) (k : Nat) : UInt8 :=
  if 33 ≤ k then r.ident.getD (k - 33) 0
  else if k = 0 then UInt8.ofNat r.len
  else if k = 2 then UInt8.ofNat r.lba
  else if k = 11 then UInt8.ofNat (r.fileLength / 256)
  else if k = 25 then r.flags
  else if k = 32 then UInt8.ofNat r.ident.length
  else 0

theorem DirRecord.byte_at {r : DirRecord} (h : r.Small) : r.At r.byte 0 := by
  obtain ⟨hLen, hRoom, hLba, hWhole, hFile, hNonempty⟩ := h
  have hZero : (0 : UInt8).toNat = 0 := rfl
  refine ⟨?_, hRoom, ?_, ?_, rfl, ?_, ?_, hNonempty⟩
  · show (UInt8.ofNat r.len).toNat = r.len
    rw [UInt8.toNat_ofNat', Nat.mod_eq_of_lt hLen]
  · show (UInt8.ofNat r.lba).toNat + 256 * (0 : UInt8).toNat + 65536 * (0 : UInt8).toNat +
      16777216 * (0 : UInt8).toNat = r.lba
    rw [UInt8.toNat_ofNat']
    omega
  · show (0 : UInt8).toNat + 256 * (UInt8.ofNat (r.fileLength / 256)).toNat +
      65536 * (0 : UInt8).toNat + 16777216 * (0 : UInt8).toNat = r.fileLength
    rw [UInt8.toNat_ofNat']
    omega
  · show (UInt8.ofNat r.ident.length).toNat = r.ident.length
    rw [UInt8.toNat_ofNat', Nat.mod_eq_of_lt (by omega)]
  · intro j hj
    unfold DirRecord.byte
    rw [if_pos (by omega), Nat.zero_add, Nat.add_sub_cancel_left, List.getD_eq_getElem?_getD,
      List.getElem?_eq_getElem hj, Option.getD_some]
    rfl

/-- A sector with the given records, packed. -/
def sectorOfRecords : List DirRecord → Mem
  | [], _ => 0
  | r :: rs, k => if k < r.len then r.byte k else sectorOfRecords rs (k - r.len)

/-- A record reads its own bytes only. -/
theorem DirRecord.At.congr {r : DirRecord} {sec sec' : Mem} {off off' : Nat} (h : r.At sec off)
    (hSame : ∀ k, k < r.len → sec' (off' + k) = sec (off + k)) : r.At sec' off' := by
  have hRoom := h.room
  have hPos := List.length_pos_iff.mpr h.nonempty
  have hWord : ∀ k, k + 4 ≤ r.len → sec'.load32 (off' + k) = sec.load32 (off + k) := by
    intro k hk
    unfold Mem.load32
    simp only [Nat.add_assoc]
    rw [hSame k (by omega), hSame (k + 1) (by omega), hSame (k + 2) (by omega),
      hSame (k + 3) (by omega)]
  refine ⟨?_, hRoom, ?_, ?_, ?_, ?_, ?_, h.nonempty⟩
  · have hByte := hSame 0 (by omega)
    rw [Nat.add_zero, Nat.add_zero] at hByte
    rw [hByte, h.len]
  · rw [hWord 2 (by omega), h.lba]
  · rw [hWord 10 (by omega), h.fileLength]
  · rw [hSame 25 (by omega), h.flags]
  · rw [hSame 32 (by omega), h.identLen]
  · intro j hj
    rw [Nat.add_assoc, hSame (33 + j) (by omega), ← Nat.add_assoc, h.ident j hj]

/-- A packed sector is well formed. -/
theorem sectorRecords_packed {sec : Mem} {off : Nat} {rs : List DirRecord}
    (hSmall : ∀ r ∈ rs, r.Small) (hEnd : off + recordBytes rs ≤ 2048)
    (hSec : ∀ k, sec (off + k) = sectorOfRecords rs k) : SectorRecords sec off rs := by
  induction rs generalizing off with
  | nil =>
    simp only [recordBytes, List.map_nil, List.sum_nil, Nat.add_zero] at hEnd
    refine ⟨hEnd, ?_⟩
    intro k hk _
    rw [show k = off + (k - off) by omega, hSec]
    rfl
  | cons r rs ih =>
    simp only [recordBytes, List.map_cons, List.sum_cons] at hEnd ih
    refine ⟨(DirRecord.byte_at (hSmall r List.mem_cons_self)).congr ?_,
      ih (fun r' hr' => hSmall r' (List.mem_cons_of_mem r hr')) (by omega) ?_⟩
    · intro k hk
      rw [hSec, sectorOfRecords, if_pos hk, Nat.zero_add]
    · intro k
      rw [Nat.add_assoc, hSec, sectorOfRecords, if_neg (by omega), Nat.add_sub_cancel_left]

/-- The record of the subdirectory `i`, with an identifier of 31 characters. -/
def wideRecord (i : Nat) : DirRecord :=
  ⟨64, 100 + i, 2048, 2,
    List.replicate 29 0x44 ++ [UInt8.ofNat (0x30 + i / 10), UInt8.ofNat (0x30 + i % 10)]⟩

/-- The subdirectories in the first sector of the root directory. -/
def wideFirst : List DirRecord := (List.range 30).map wideRecord

/-- The subdirectories in its second sector. -/
def wideSecond : List DirRecord := (List.range 22).map fun i => wideRecord (30 + i)

/-- The path table: the root and 52 subdirectories, 2090 bytes. -/
def wideEntries : List PathEntry :=
  ⟨1, 20, 1⟩ :: (List.range 52).map fun i => ⟨31, 100 + i, 1⟩

/-- The bytes of a path table; the letters of the identifiers are left zero. -/
def pathTableByte : List PathEntry → Mem
  | [], _ => 0
  | e :: es, k =>
    if k < e.size then
      [UInt8.ofNat e.identLen, 0, UInt8.ofNat e.lba, 0, 0, 0, UInt8.ofNat e.parentNum].getD k 0
    else pathTableByte es (k - e.size)

/-- The volume: the path table in the sectors 18 and 19, the root directory in 20
and 21, and the subdirectories from 100 on. -/
def wideDisk (lba : Nat) : Mem :=
  if lba = 16 then sectorOf (List.replicate 132 0 ++ [0x2A, 0x08] ++ List.replicate 6 0 ++ [18])
  else if lba = 18 then pathTableByte wideEntries
  else if lba = 19 then fun k => pathTableByte wideEntries (2048 + k)
  else if lba = 20 then
    sectorOfRecords (⟨34, 20, 4096, 2, [0]⟩ :: ⟨34, 20, 4096, 2, [1]⟩ :: wideFirst)
  else if lba = 21 then sectorOfRecords wideSecond
  else sectorOfRecords [⟨34, lba, 2048, 2, [0]⟩, ⟨34, 20, 4096, 2, [1]⟩]

theorem wide_root : IsDirExtent (sampleEnv wideDisk) 1 20 ⟨34, 20, 4096, 2, [0]⟩
    ⟨34, 20, 4096, 2, [1]⟩ wideFirst [wideSecond] where
  head := sectorRecords_packed (by decide +kernel) (by decide +kernel) fun k => by
    rw [Nat.zero_add]
    rfl
  tail k rs hk := by
    obtain ⟨rfl, rfl⟩ : k = 0 ∧ rs = wideSecond := by
      cases k with
      | zero => exact ⟨rfl, by simpa using hk.symm⟩
      | succ k => simp at hk
    refine sectorRecords_packed (by decide +kernel) (by decide +kernel) ?_
    intro k
    show wideDisk 21 (0 + k) = _
    rw [Nat.zero_add]
    rfl
  self := ⟨rfl, rfl, by decide⟩
  parent := rfl
  length := rfl
  names := by decide +kernel

theorem wide_subdirectory {i : Nat} (hi : i < 52) :
    IsDirExtent (sampleEnv wideDisk) 1 (100 + i) ⟨34, 100 + i, 2048, 2, [0]⟩
      ⟨34, 20, 4096, 2, [1]⟩
      [] [] where
  head := by
    have hSmall : ∀ i < 52, ∀ r ∈
        [⟨34, 100 + i, 2048, 2, [0]⟩, ⟨34, 20, 4096, 2, [1]⟩],
        DirRecord.Small r := by decide +kernel
    refine sectorRecords_packed (hSmall i hi) (show 0 + 68 ≤ 2048 by omega) ?_
    intro k
    show wideDisk (100 + i) (0 + k) = _
    rw [Nat.zero_add, wideDisk, if_neg (by omega), if_neg (by omega), if_neg (by omega),
      if_neg (by omega), if_neg (by omega)]
  tail k rs hk := by simp at hk
  self := ⟨rfl, rfl, show (2 : UInt8) &&& 2 ≠ 0 by decide⟩
  parent := rfl
  length := rfl
  names := by simp

/-- The disk as a volume. -/
def wideVolume : IsoVolume (sampleEnv wideDisk) 1 where
  entries := wideEntries
  table := by decide +kernel
  size := by decide +kernel
  root := rfl
  lbas := by decide +kernel
  parents i e h hi := by
    have hParent : ∀ e ∈ wideEntries, e.parentNum = 1 := by decide +kernel
    rw [hParent e (List.mem_of_getElem? h)]
    omega
  dirs e he := by
    rcases List.mem_cons.mp he with rfl | he
    · exact ⟨_, _, _, _, wide_root⟩
    · obtain ⟨i, hi, rfl⟩ := List.mem_map.mp he
      exact ⟨_, _, _, _, wide_subdirectory (List.mem_range.mp hi)⟩

/-- The node of the root directory on the freshly mounted disk. -/
theorem wide_mounted {sh : Shell} (h : sampleShell wideDisk = some sh) :
    ∃ fsInfo live, sh.machine.Inv live ∧ Stable sh.machine.pages live fsInfo 16 ∧
      fsInfo < 2 ^ 32 ∧
      VolumeAt sh.machine.mem fsInfo 1 ⟨1, 0, 0x5030⟩ ∧
      Stable sh.machine.pages live 0x3000 332 ∧
      sh.machine.mem.load32 (0x3000 + 272) = 20 ∧
      sh.machine.mem.load32 (0x3000 + 280) = fsInfo ∧
      RespApart (sampleEnv wideDisk) sh.machine.pages 0x3000 fsInfo := by
  obtain ⟨fsInfo, buffer2, -, hInv, hPages, hApart, hMounted⟩ := sampleShell_mounted h
  obtain ⟨⟨addr, hAddr, hLow, -⟩, -, hTop⟩ := hInv.range (a := ⟨fsInfo, 16⟩) (by simp)
  have hHigh := hPages addr hAddr
  simp only at hLow hTop
  have hView := hMounted.cdrom
  unfold viewNode cdromView at hView
  simp only [NodeView.mk.injEq] at hView
  have hLba : (pathTableSector (sampleEnv wideDisk) 1).load32 2 = 20 := by decide +kernel
  refine ⟨fsInfo, _, hInv,
    Or.inl ⟨⟨fsInfo, 16⟩, by simp, by simp, by simp⟩, by omega, hMounted.volume,
    hApart.stable (by simp [sampleEnv]), hView.2.1.trans hLba, hView.2.2.1, ?_, ?_, ?_⟩
  · intro addr hAddr
    exact Or.inl ((show 0x4000 + 260 ≤ 0x10000 by omega).trans (hPages addr hAddr))
  · exact Or.inr (by decide)
  · exact Or.inl (show 0x4000 + 260 ≤ fsInfo by omega)

/-- On the freshly mounted disk the first sector of the root directory is listed,
and the root directory is recreated. -/
theorem first_sectors_served_wide :
    ∃ sh fsInfo, sampleShell wideDisk = some sh ∧
      (∃ fuel₀ s', ∀ fuel, fuel₀ ≤ fuel →
        readdirNames (sampleEnv wideDisk) fuel 0x3000 fuel sh.machine 0 =
          .done (wideFirst.map DirRecord.ident, s')) ∧
      ∃ node s', iso9660Recreate (sampleEnv wideDisk) 600 sh.machine ⟨20, fsInfo, 0x50B0⟩ =
        .done (node, s') ∧ node ≠ 0 := by
  have hEval :
      (sampleShell wideDisk).map (fun sh => ((recreateCalls 600 sh.machine.heap).toOption.isSome,
      (kalloc 600 sh.machine.heap 2048).toOption.isSome)) = some (true, true) := by decide +kernel
  obtain ⟨sh, hShell, hFacts⟩ := Option.map_eq_some_iff.mp hEval
  obtain ⟨hCalls, hRoom⟩ := Prod.mk.inj hFacts
  obtain ⟨⟨entryBuffer, node, heap'⟩, hCalls⟩ := Option.isSome_iff_exists.mp hCalls
  obtain ⟨r, hRoom⟩ := Option.isSome_iff_exists.mp hRoom
  obtain ⟨fsInfo, live, hInv, hInfo, hWord, hVolume, hDir, hLba, hImpl, hResp⟩ :=
    wide_mounted hShell
  obtain ⟨hList, hRecreate⟩ :=
    first_sectors_served (sampleEnv wideDisk) 1 wideVolume sh.machine live fsInfo
    ⟨1, 0, 0x5030⟩ hInv hInfo hWord hVolume
  obtain ⟨s', hRun, hNode⟩ :=
    hRecreate 0 ⟨1, 20, 1⟩ rfl (by decide) 600 entryBuffer node heap' 0x50B0
    (by omega) (Outcome.toOption_eq_some.mp hCalls)
  exact ⟨sh, fsInfo, hShell,
    hList ⟨1, 20, 1⟩ List.mem_cons_self _ _ _ _ wide_root (by decide +kernel) 0x3000
    hDir hLba hImpl hResp ⟨600, r, Outcome.toOption_eq_some.mp hRoom⟩, node, s', hRun, hNode⟩

/-- On the same disk the 22 subdirectories in the second sector of the root
directory are not listed, and `iso9660_recreate` returns null for the last of
them, whose entry is in the second sector of the path table. -/
theorem second_sectors_missed :
    ∃ sh fsInfo, sampleShell wideDisk = some sh ∧
      sh.machine.mem.load32 (0x3000 + 272) = 20 ∧
      sh.machine.mem.load32 (0x3000 + 280) = fsInfo ∧
      IsDirExtent (sampleEnv wideDisk) 1 20 ⟨34, 20, 4096, 2, [0]⟩
        ⟨34, 20, 4096, 2, [1]⟩ wideFirst
        [wideSecond] ∧
      (∃ fuel₀ names s', (∀ fuel, fuel₀ ≤ fuel →
          readdirNames (sampleEnv wideDisk) fuel 0x3000 fuel sh.machine 0 = .done (names, s')) ∧
        names ≠ (wideFirst ++ wideSecond).map DirRecord.ident) ∧
      wideVolume.entries[52]? = some ⟨31, 151, 1⟩ ∧
      ∃ s', iso9660Recreate (sampleEnv wideDisk) 600 sh.machine ⟨151, fsInfo, 0x50B0⟩ =
        .done (0, s') := by
  have hEval :
      (sampleShell wideDisk).map (fun sh => ((kalloc 600 sh.machine.heap 2048).toOption.isSome,
      (iso9660Recreate (sampleEnv wideDisk) 600 sh.machine
        ⟨151, sh.machine.mem.load32 (0x3000 + 280), 0x50B0⟩).toOption.map (·.1))) =
      some (true, some 0) := by decide +kernel
  obtain ⟨sh, hShell, hFacts⟩ := Option.map_eq_some_iff.mp hEval
  obtain ⟨hRoom, hRecreate⟩ := Prod.mk.inj hFacts
  obtain ⟨r, hRoom⟩ := Option.isSome_iff_exists.mp hRoom
  obtain ⟨⟨p, s₁⟩, hRecreate, rfl⟩ := Option.map_eq_some_iff.mp hRecreate
  obtain ⟨fsInfo, live, hInv, hInfo, -, hVolume, hDir, hLba, hImpl, hResp⟩ :=
    wide_mounted hShell
  obtain ⟨fuel₀, s', hNames⟩ :=
    readdirNames_spec (i := 0) (wide_root.isDirectory (by decide +kernel)) hInv
    ⟨hDir, hInfo, hImpl, hLba, by rw [hVolume.dev]⟩ hResp
    ⟨600, r, Outcome.toOption_eq_some.mp hRoom⟩
  rw [wide_root.visible_first, List.drop_zero] at hNames
  refine ⟨sh, fsInfo, hShell, hLba, hImpl, wide_root,
    ⟨max fuel₀ (wideFirst.length + 1), _, s',
    fun fuel hFuel => hNames fuel fuel (by omega) (by omega), ?_⟩, rfl, s₁, ?_⟩
  · intro hc
    have hLength := congrArg List.length hc
    simp [wideFirst, wideSecond] at hLength
  · rw [← hImpl]
    exact Outcome.toOption_eq_some.mp hRecreate

end Hexos
