import Hexos.Fs.Keep

/-!
# HexOS — what the loops of `ls` and `cat` print

The loops are known as far as they go: a call that returns has found the memory it
needs. What it prints is then a matter of what the calls in it return.

## Results

* `catLoop_prints` — the content of the file.
* `readdirFs_root`, `readdirFs_volume` — the name with the number `i`.
* `lsLoop_prints` — one line for each name.
* `finddir_readdir`, `recreate_readdir` — a new node can be listed.
-/

namespace Hexos

open Mem

/-- Whatever the bound is, the string there is what is printed. -/
theorem printString_eq {str text : List UInt8} (hStr : 0 ∉ str) {fuel : Nat} {m : Mem} {p : Nat}
    (hString : StringAt m p str) (h : printString fuel m p = .done text) : text = str := by
  have hMore := printString_mono h (le_max_left fuel (str.length + 1))
  have hSpec := printString_spec hStr (show str.length < max fuel (str.length + 1) by omega) hString
  exact Outcome.done.inj (hMore.symm.trans hSpec)

-- ---------------------------------------------------------------------------
-- Files
-- ---------------------------------------------------------------------------

section Files

variable {env : Env} {s s' : Machine} {live : List Alloc} {node fsInfo dev inode filebuf fuel : Nat}

/-- A read that returns has had room for its block. -/
theorem readFs_room {offset n length : Nat}
    (hNode : FileNode env s.mem node fsInfo dev inode length) (hPos : 1 ≤ n) (hLe : n ≤ 2048)
    (hLength : n ≤ length) (h : readFs env fuel s node offset n filebuf = .done s') :
    ∃ f r, kalloc f s.heap 2048 = .done r := by
  unfold readFs at h
  simp only [hNode.read.1, if_pos hNode.read.2, if_true] at h
  unfold iso9660Read at h
  simp only [hNode.length, if_neg (show ¬ n > length by omega)] at h
  obtain ⟨blocksize, hRound, h⟩ := Outcome.bind_eq_done.mp h
  obtain rfl : blocksize = 2048 := by
    have hBlocks := roundToBlocks_done (by omega) hRound
    omega
  obtain ⟨⟨blockbuf, s₁⟩, hAlloc, -⟩ := Outcome.bind_eq_done.mp h
  exact ⟨fuel, _, Machine.kalloc_done hAlloc⟩

/-- **The loop of `cat`.** If it ends, it has printed the file. -/
theorem catLoop_prints {content text : List UInt8} {rounds : Nat} (hNul : 0 ∉ content)
    (hPos : 0 < content.length) (hLength : content.length < 2 ^ 31)
    (hFile : IsFile env dev inode content) (hInv : s.Inv (⟨filebuf, 2049⟩ :: live))
    (hNode : FileNode env s.mem node fsInfo dev inode content.length)
    (hStable : Stable s.pages live node 332) (hInfo : Stable s.pages live fsInfo 16)
    (h : catLoop env fuel node filebuf rounds s content.length 0 = .done (text, s')) :
    text = content := by
  have hRoom : ∃ f r, kalloc f s.heap 2048 = .done r := by
    cases rounds with
    | zero => cases h
    | succ rounds =>
      obtain ⟨n, hn, hPosN, hLeN, hLast⟩ : ∃ n : Nat,
          (if (content.length : Int) ≥ 2048 then 2048 else (content.length : Int)) = n ∧
            1 ≤ n ∧ n ≤ 2048 ∧ n ≤ content.length := by
        refine ⟨min 2048 content.length, ?_, by omega, by omega, by omega⟩
        split <;> omega
      rw [catLoop] at h
      simp only [hn, wordOf_natCast (show n < 2 ^ 32 by omega)] at h
      obtain ⟨s₁, hRead, -⟩ := Outcome.bind_eq_done.mp h
      exact readFs_room hNode hPosN hLeN hLast hRead
  obtain ⟨fuel₀, s'', hLoop, -⟩ :=
    catLoop_spec hNul hLength hFile (Nat.zero_add _) hPos (Nat.zero_mod _)
    hInv hNode hStable hInfo hRoom
  have hMore := catLoop_mono h (le_max_left fuel fuel₀) (le_max_left rounds content.length)
  have hSpec := hLoop (max fuel fuel₀) (max rounds content.length) (by omega) (by omega)
  rw [Int.natCast_zero, List.drop_zero] at hSpec
  exact (Prod.mk.inj (Outcome.done.inj (hMore.symm.trans hSpec))).1

end Files

-- ---------------------------------------------------------------------------
-- Listings
-- ---------------------------------------------------------------------------

section Listings

variable {env : ShellEnv} {s s' : Machine} {live : List Alloc} {dir fuel : Nat}

theorem storeString_stringAt (str : List UInt8) (m : Mem) (d : Nat) :
    StringAt (storeString m d str) d str := by
  induction str generalizing m d with
  | nil => exact ⟨fun j hj => absurd hj (Nat.not_lt_zero j), store8_self⟩
  | cons c cs ih =>
    refine stringAt_cons.mpr ⟨?_, ih _ _⟩
    rw [storeString, storeString_sameOff cs _ _ d (by omega), store8_self]

theorem storeDirent_stringAt (m : Mem) (resp : Nat) (name : List UInt8) :
    StringAt (storeDirent m resp name) (resp + 4) name := by
  have hName := storeString_stringAt name m (resp + 4)
  unfold storeDirent
  refine StringAt.congr (m := (storeString m (resp + 4) name).store8 (resp + 4 + name.length) 0) ?_
    ((store32_sameOff _ _ _).sameOn (by omega))
  -- the terminator is stored twice
  refine ⟨fun j hj => ?_, store8_self⟩
  rw [store8_other (by omega)]
  exact hName.1 j hj

/-- A call that returns the name with the number `i`, or null behind the last one. -/
def Answers (names : List (List UInt8)) (i p : Nat) (m : Mem) : Prop :=
  (names[i]? = none ∧ p = 0) ∨
    ∃ name, names[i]? = some name ∧ p ≠ 0 ∧ StringAt m (p + 4) name

/-- **A directory of the virtual file system** with one name. -/
theorem readdirFs_root {i p : Nat} {name : List UInt8}
    (hFlags : s.mem.load32 (dir + 268) = fsDirectory)
    (hReaddir : s.mem.load32 (dir + 300) = env.rootReaddir)
    (hAnswer : rootReaddir env s dir i =
      if i = 0 then (env.direntResp, { s with mem := storeDirent s.mem env.direntResp name })
      else (0, s))
    (h : readdirFs env fuel s dir i = .done (p, s')) : Answers [name] i p s'.mem := by
  unfold readdirFs at h
  simp only [hFlags, hReaddir] at h
  rw [if_pos ⟨by decide, env.readdir_ne.2.1⟩, if_pos trivial, hAnswer] at h
  by_cases hFirst : i = 0
  · subst hFirst
    rw [if_pos rfl] at h
    obtain ⟨rfl, rfl⟩ := Prod.mk.inj (Outcome.done.inj h)
    exact Or.inr ⟨name, rfl, env.dirent_ne_null, storeDirent_stringAt _ _ _⟩
  · rw [if_neg hFirst] at h
    obtain ⟨rfl, -⟩ := Prod.mk.inj (Outcome.done.inj h)
    refine Or.inl ⟨List.getElem?_eq_none ?_, rfl⟩
    rw [List.length_singleton]
    omega

/-- **A directory of the volume.** -/
theorem readdirFs_volume {fsInfo inode i p : Nat} {sec : Mem} {dot dotDot : DirRecord}
    {rest : List DirRecord} (hLayout : Layout env s.pages) (hInv : s.Inv live)
    (hDir : DirAt env.toEnv s live dir fsInfo inode sec) (hSec : IsDirectory sec dot dotDot rest)
    (hFlags : s.mem.load32 (dir + 268) = fsDirectory)
    (hReaddir : s.mem.load32 (dir + 300) = env.iso9660Readdir) (hFuel : 256 ≤ fuel)
    (h : readdirFs env fuel s dir i = .done (p, s')) :
    Answers ((visible rest).map DirRecord.ident) i p s'.mem := by
  obtain ⟨hNe, -, hWord, -⟩ := env.readdir_ne
  unfold readdirFs at h
  simp only [hFlags, hReaddir] at h
  rw [if_pos ⟨by decide, hWord⟩, if_neg hNe.symm, if_pos trivial] at h
  have hDone := h
  unfold iso9660Readdir at h
  obtain ⟨⟨buffer, s₁⟩, hBuf, -⟩ := Outcome.bind_eq_done.mp h
  obtain ⟨q, s'', hRun, -, -, -, -, hName⟩ := iso9660Readdir_spec (i := i) hInv hDir hSec
    (hLayout.answers _ (by simp)) hFuel hBuf
  obtain ⟨rfl, rfl⟩ : q = p ∧ s'' = s' := by simpa using hRun.symm.trans hDone
  unfold Answers
  rw [List.getElem?_map]
  rcases hName with ⟨hNone, rfl⟩ | ⟨r, hSome, rfl, hIdent⟩
  · exact Or.inl ⟨by rw [hNone, Option.map_none], rfl⟩
  · exact Or.inr ⟨r.ident, by rw [hSome, Option.map_some], env.globals_ne_null.2.2.2, hIdent⟩

/-- **The loop of `ls`.** Each call answers for one name, and keeps what the next call
needs: what is printed is a line for each name from the number `i` on. -/
theorem lsLoop_prints {names : List (List UInt8)} {P : Machine → Prop} {rounds i : Nat}
    {text : List UInt8} (hNames : ∀ name ∈ names, 0 ∉ name) (hSmall : names.length < 2 ^ 32)
    (hCall : ∀ s i p s', P s → readdirFs env fuel s dir i = .done (p, s') →
      P s' ∧ Answers names i p s'.mem)
    (hs : P s) (hi : i ≤ names.length) (h : lsLoop env fuel dir rounds s i = .done (text, s')) :
    P s' ∧ text = (names.drop i).flatMap fun name => name ++ ascii "\n" := by
  induction rounds generalizing s i text with
  | zero => cases h
  | succ rounds ih =>
    rw [lsLoop] at h
    obtain ⟨⟨entry, s₁⟩, hEntry, h⟩ := Outcome.bind_eq_done.mp h
    obtain ⟨hs₁, hAnswer⟩ := hCall s i entry s₁ hs hEntry
    simp only at h
    rcases hAnswer with ⟨hEnd, rfl⟩ | ⟨name, hName, hEntry, hString⟩
    · rw [if_neg (by simp)] at h
      obtain ⟨rfl, rfl⟩ := Prod.mk.inj (Outcome.done.inj h)
      rw [List.drop_eq_nil_of_le (List.getElem?_eq_none_iff.mp hEnd)]
      exact ⟨hs₁, rfl⟩
    · obtain ⟨hIn, hGet⟩ := List.getElem?_eq_some_iff.mp hName
      rw [if_pos hEntry] at h
      obtain ⟨line, hLine, h⟩ := Outcome.bind_eq_done.mp h
      obtain ⟨⟨rest, s₂⟩, hRest, hEq⟩ := Outcome.map_eq_done.mp h
      obtain ⟨rfl, rfl⟩ := Prod.mk.inj hEq
      obtain rfl := printString_eq (hNames name (List.mem_of_getElem? hName)) hString hLine
      rw [Nat.mod_eq_of_lt (show i + 1 < 2 ^ 32 by omega)] at hRest
      obtain ⟨hs', rfl⟩ := ih hs₁ (by omega) hRest
      rw [List.drop_eq_getElem_cons hIn, hGet, List.flatMap_cons]
      exact ⟨hs', rfl⟩

end Listings

-- ---------------------------------------------------------------------------
-- The pointers of a node
-- ---------------------------------------------------------------------------

section Nodes

variable {env : Env} {s s' : Machine} {fuel p : Nat}

theorem entryToNodeMini_readdir {e fsInfo : Nat} {parent : FsNodeMini}
    (hWord : env.iso9660Readdir < 2 ^ 32)
    (h : iso9660EntryToNodeMini env fuel s e fsInfo parent = .done (p, s')) :
    s'.mem.load32 (p + 300) = env.iso9660Readdir := by
  unfold iso9660EntryToNodeMini at h
  obtain ⟨⟨response, s₁⟩, -, h⟩ := Outcome.bind_eq_done.mp h
  obtain ⟨m, -, hEq⟩ := Outcome.map_eq_done.mp h
  obtain ⟨rfl, rfl⟩ := Prod.mk.inj hEq
  unfold storeLinks storeMini
  simp (disch := omega) only [load32_store32_other, load32_store32 hWord]

/-- A lookup that returns null has come to no record. -/
theorem lookup_of_null {live : List Alloc} {dir fsInfo inode : Nat} {sec : Mem}
    {dot dotDot : DirRecord} {rest : List DirRecord} {name : CString} (hInv : s.Inv live)
    (hDir : DirAt env s live dir fsInfo inode sec) (hSec : IsDirectory sec dot dotDot rest)
    (hFuel : 256 ≤ fuel) (h : iso9660Finddir env fuel s dir name = .done (0, s')) :
    lookup name.bytes rest = none := by
  have hDone := h
  unfold iso9660Finddir at h
  obtain ⟨⟨buffer, s₁⟩, hBuf, -⟩ := Outcome.bind_eq_done.mp h
  obtain ⟨-, -, hInv₁⟩ := Machine.kalloc_spec hInv (by omega) hBuf
  obtain ⟨m', -, hRun⟩ :=
    finddirLoop_directory name hSec (copyIn_sectorAt s.mem sec buffer) hFuel
  rcases hRun with ⟨hNone, -⟩ | ⟨r, o, -, -, -, -, -, hLoop⟩
  · exact hNone
  · -- what is returned then is an allocation
    rw [iso9660Finddir_hit hInv hDir hBuf hLoop] at hDone
    obtain ⟨⟨response, s₂⟩, hEntry, hEnd⟩ := Outcome.bind_eq_done.mp hDone
    obtain ⟨s₃, -, hEq⟩ := Outcome.map_eq_done.mp hEnd
    obtain ⟨rfl, -⟩ := Prod.mk.inj hEq
    unfold iso9660EntryToNode iso9660EntryToNodeMini at hEntry
    obtain ⟨⟨a, s₄⟩, hAlloc, hEntry⟩ := Outcome.bind_eq_done.mp hEntry
    obtain ⟨m, -, hEq⟩ := Outcome.map_eq_done.mp hEntry
    obtain ⟨rfl, -⟩ := Prod.mk.inj hEq
    have hInvM : Machine.Inv { s₁ with mem := m' } (⟨buffer, 2048⟩ :: live) := hInv₁
    obtain ⟨-, -, hInv₂⟩ := Machine.kalloc_spec hInvM (by decide) hAlloc
    have hAligned := (hInv₂.range List.mem_cons_self).2.1
    simp at hAligned

/-- A node that was found can be listed. -/
theorem finddir_readdir {dir : Nat} {name : CString} (hWord : env.iso9660Readdir < 2 ^ 32)
    (h : iso9660Finddir env fuel s dir name = .done (p, s')) (hp : p ≠ 0) :
    s'.mem.load32 (p + 300) = env.iso9660Readdir := by
  unfold iso9660Finddir at h
  obtain ⟨⟨buffer, s₁⟩, -, h⟩ := Outcome.bind_eq_done.mp h
  obtain ⟨⟨found, m⟩, -, h⟩ := Outcome.bind_eq_done.mp h
  cases found with
  | none =>
    obtain ⟨s₂, -, hEq⟩ := Outcome.map_eq_done.mp h
    exact absurd (Prod.mk.inj hEq).1.symm hp
  | some dirEntry =>
    obtain ⟨⟨response, s₂⟩, hNode, h⟩ := Outcome.bind_eq_done.mp h
    obtain ⟨s₃, hFree, hEq⟩ := Outcome.map_eq_done.mp h
    obtain ⟨rfl, rfl⟩ := Prod.mk.inj hEq
    obtain ⟨heap, -, rfl⟩ := Outcome.map_eq_done.mp hFree
    have hEntry :=
      entryToNodeMini_readdir hWord (show iso9660EntryToNodeMini _ _ _ _ _ _ = _ from hNode)
    exact hEntry

/-- So can one that was made again. -/
theorem recreate_readdir {mini : FsNodeMini} (hWord : env.iso9660Readdir < 2 ^ 32)
    (h : iso9660Recreate env fuel s mini = .done (p, s')) (hp : p ≠ 0) :
    s'.mem.load32 (p + 300) = env.iso9660Readdir := by
  unfold iso9660Recreate at h
  obtain ⟨⟨r, s₁⟩, -, h⟩ := Outcome.bind_eq_done.mp h
  obtain ⟨⟨e, s₂⟩, -, h⟩ := Outcome.bind_eq_done.mp h
  obtain ⟨⟨t, s₃⟩, -, h⟩ := Outcome.bind_eq_done.mp h
  obtain ⟨found, -, h⟩ := Outcome.bind_eq_done.mp h
  have hNull : ∀ {x : Outcome Machine}, (x.map fun s => (0, s)) ≠ .done (p, s') := by
    intro x hc
    obtain ⟨s₄, -, hEq⟩ := Outcome.map_eq_done.mp hc
    exact hp (Prod.mk.inj hEq).1.symm
  cases found with
  | none => exact absurd h hNull
  | some found =>
    simp only at h
    split at h
    · exact absurd h hNull
    · obtain ⟨s₅, -, h⟩ := Outcome.bind_eq_done.mp h
      exact entryToNodeMini_readdir hWord h

/-- The mount makes the mount node one that can be listed. -/
theorem mountCdrom_readdir {dev : Nat} {sh : Shell} (hWord : env.iso9660Readdir < 2 ^ 32)
    (h : mountCdrom env fuel s dev = .done sh) :
    sh.machine.mem.load32 (env.fsCdromMnt + 300) = env.iso9660Readdir := by
  obtain ⟨s', hRun, rfl⟩ := Outcome.map_eq_done.mp h
  unfold iso9660InitVolume at hRun
  obtain ⟨⟨fsInfo, s₁⟩, -, hRun⟩ := Outcome.bind_eq_done.mp hRun
  obtain ⟨⟨buffer, s₂⟩, -, hRun⟩ := Outcome.bind_eq_done.mp hRun
  obtain ⟨s₃, -, hRun⟩ := Outcome.bind_eq_done.mp hRun
  obtain ⟨⟨buffer2, s₄⟩, -, rfl⟩ := Outcome.map_eq_done.mp hRun
  unfold initTarget
  simp (disch := omega) only [load32_store32_other, load32_store32 hWord]

end Nodes

end Hexos
