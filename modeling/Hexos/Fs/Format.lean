import Hexos.Fs.Mount

/-!
# HexOS — the format of an ISO9660 volume

Directories and the path table are lists packed into a sector, each up to a zero
byte: records that state their own length, and entries whose length follows from
that of the identifier.

## Results

* `IsDirectory` — a well-formed directory of one sector.
* `Volume` — a well-formed volume: the path table, and directories that start with
  their own record.
-/

namespace Hexos

open Mem

-- ---------------------------------------------------------------------------
-- Directory records
-- ---------------------------------------------------------------------------

/-- A directory record: its length, the lba and length of the file, the flags
and the identifier. -/
structure DirRecord where
  len        : Nat
  lba        : Nat
  fileLength : Nat
  flags      : UInt8
  ident      : List UInt8
deriving DecidableEq

namespace DirRecord

/-- The record `r` is at the offset `off` of a sector. It has room for its
identifier and, when the identifier has an even length, for a pad byte. -/
structure At (r : DirRecord) (sec : Mem) (off : Nat) : Prop where
  len        : (sec off).toNat = r.len
  room       : 33 + r.ident.length + (if r.ident.length % 2 = 0 then 1 else 0) ≤ r.len
  lba        : sec.load32 (off + 2) = r.lba
  fileLength : sec.load32 (off + 10) = r.fileLength
  flags      : sec (off + 25) = r.flags
  identLen   : (sec (off + 32)).toNat = r.ident.length
  ident      : ∀ j (hj : j < r.ident.length), sec (off + 33 + j) = r.ident.get ⟨j, hj⟩
  nonempty   : r.ident ≠ []

instance (r : DirRecord) (sec : Mem) (off : Nat) : Decidable (r.At sec off) :=
  decidable_of_iff ((sec off).toNat = r.len ∧
      33 + r.ident.length + (if r.ident.length % 2 = 0 then 1 else 0) ≤ r.len ∧
      sec.load32 (off + 2) = r.lba ∧ sec.load32 (off + 10) = r.fileLength ∧
      sec (off + 25) = r.flags ∧ (sec (off + 32)).toNat = r.ident.length ∧
      (∀ j (hj : j < r.ident.length), sec (off + 33 + j) = r.ident.get ⟨j, hj⟩) ∧
      r.ident ≠ [])
    ⟨fun ⟨h1, h2, h3, h4, h5, h6, h7, h8⟩ => ⟨h1, h2, h3, h4, h5, h6, h7, h8⟩,
      fun h => ⟨h.len, h.room, h.lba, h.fileLength, h.flags, h.identLen, h.ident, h.nonempty⟩⟩

/-- Records whose identifier starts with the byte 1 are not shown. -/
def Hidden (r : DirRecord) : Prop := r.ident.head? = some 1

instance (r : DirRecord) : Decidable r.Hidden := inferInstanceAs (Decidable (_ = _))

/-- Nothing follows the identifier in the record. -/
def Tight (r : DirRecord) : Prop := r.len = 33 + r.ident.length

instance (r : DirRecord) : Decidable r.Tight := inferInstanceAs (Decidable (_ = _))

end DirRecord

/-- The records from the offset `off` on, up to a zero byte in the sector. -/
def DirRecords (sec : Mem) : Nat → List DirRecord → Prop
  | off, [] => sec off = 0 ∧ off < 2048
  | off, r :: rs => r.At sec off ∧ DirRecords sec (off + r.len) rs

instance decidableDirRecords (sec : Mem) : ∀ off rs, Decidable (DirRecords sec off rs)
  | _, [] => inferInstanceAs (Decidable (_ ∧ _))
  | off, r :: rs =>
    have := decidableDirRecords sec (off + r.len) rs
    inferInstanceAs (Decidable (r.At sec off ∧ DirRecords sec (off + r.len) rs))

/-- A well-formed directory of one sector: the records '.' and '..', then
records with identifiers that contain no zero byte. -/
structure IsDirectory (sec : Mem) (dot dotDot : DirRecord) (rest : List DirRecord) : Prop where
  records : DirRecords sec 0 (dot :: dotDot :: rest)
  dot     : dot.ident = [0]
  dotDot  : dotDot.ident = [1]
  names   : ∀ r ∈ rest, 0 ∉ r.ident

/-- The records that are shown. -/
def visible (rs : List DirRecord) : List DirRecord := rs.filter fun r => ¬ r.Hidden

theorem DirRecords.bounds {sec : Mem} {off : Nat} {rs : List DirRecord}
    (h : DirRecords sec off rs) :
    off + 34 * rs.length < 2048 := by
  induction rs generalizing off with
  | nil => simpa using h.2
  | cons r rs ih =>
    obtain ⟨hAt, hRest⟩ := h
    have hRoom := hAt.room
    have hNonempty := List.length_pos_iff.mpr hAt.nonempty
    have := ih hRest
    rw [List.length_cons]
    split at hRoom <;> omega

-- ---------------------------------------------------------------------------
-- The path table
-- ---------------------------------------------------------------------------

/-- An entry of the path table: the length of its identifier, the lba of the
directory and the number of its parent. -/
structure PathEntry where
  identLen  : Nat
  lba       : Nat
  parentNum : Nat
deriving DecidableEq

/-- The bytes the entry takes, with the pad byte of an odd identifier. -/
def PathEntry.size (e : PathEntry) : Nat := 8 + e.identLen + (if e.identLen % 2 = 1 then 1 else 0)

/-- The entry is at the offset `off` of a sector. -/
structure PathEntry.At (e : PathEntry) (sec : Mem) (off : Nat) : Prop where
  identLen  : (sec off).toNat = e.identLen
  nonempty  : 1 ≤ e.identLen
  lba       : sec.load32 (off + 2) = e.lba
  parentNum : sec.load16 (off + 6) = e.parentNum

instance (e : PathEntry) (sec : Mem) (off : Nat) : Decidable (e.At sec off) :=
  decidable_of_iff
    ((sec off).toNat = e.identLen ∧ 1 ≤ e.identLen ∧ sec.load32 (off + 2) = e.lba ∧
      sec.load16 (off + 6) = e.parentNum)
    ⟨fun ⟨h1, h2, h3, h4⟩ => ⟨h1, h2, h3, h4⟩,
      fun h => ⟨h.identLen, h.nonempty, h.lba, h.parentNum⟩⟩

/-- The entries from the offset `off` on, up to a zero byte in the sector. -/
def PathTable (sec : Mem) : Nat → List PathEntry → Prop
  | off, [] => sec off = 0 ∧ off < 2048
  | off, e :: es => e.At sec off ∧ PathTable sec (off + e.size) es

instance decidablePathTable (sec : Mem) : ∀ off es, Decidable (PathTable sec off es)
  | _, [] => inferInstanceAs (Decidable (_ ∧ _))
  | off, e :: es =>
    have := decidablePathTable sec (off + e.size) es
    inferInstanceAs (Decidable (e.At sec off ∧ PathTable sec (off + e.size) es))

/-- The offset of the entry with the index `i`. -/
def pathOffset : List PathEntry → Nat → Nat
  | e :: es, i + 1 => e.size + pathOffset es i
  | _, _ => 0

theorem PathTable.bounds {sec : Mem} {off : Nat} {es : List PathEntry}
    (h : PathTable sec off es) : off + 9 * es.length < 2048 := by
  induction es generalizing off with
  | nil => simpa using h.2
  | cons e es ih =>
    obtain ⟨hAt, hRest⟩ := h
    have hNonempty := hAt.nonempty
    have := ih hRest
    unfold PathEntry.size at this
    rw [List.length_cons]
    omega

/-- The sector starts with a '.' record that holds the given lba. -/
structure IsDot (sec : Mem) (lba : Nat) : Prop where
  identLen  : sec 32 = 1
  ident     : sec 33 = 0
  directory : sec 25 &&& 2 ≠ 0
  lba       : sec.load32 2 = lba

instance (sec : Mem) (lba : Nat) : Decidable (IsDot sec lba) :=
  decidable_of_iff (sec 32 = 1 ∧ sec 33 = 0 ∧ sec 25 &&& 2 ≠ 0 ∧ sec.load32 2 = lba)
    ⟨fun ⟨h1, h2, h3, h4⟩ => ⟨h1, h2, h3, h4⟩,
    fun h => ⟨h.identLen, h.ident, h.directory, h.lba⟩⟩

/-- A well-formed volume on a device: a path table in one sector, whose first
entry is the root and whose other entries come after their parents, and
directories that start with a '.' record. Entry `i` has the number `i + 1`. -/
structure Volume (env : Env) (dev : Nat) where
  entries : List PathEntry
  table   : PathTable (pathTableSector env dev) 0 entries
  root    : (entries.head?.map PathEntry.identLen) = some 1
  lbas    : (entries.map PathEntry.lba).Nodup
  parents : ∀ i e, entries[i]? = some e → i ≠ 0 → e.parentNum < i + 1
  dots    : ∀ e ∈ entries, IsDot (env.devices dev e.lba) e.lba

end Hexos
