import Hexos.Fs.PathTable

/-!
# HexOS — the way up in an ISO9660 volume

`iso9660_recreate` builds the node of a directory from its lba: the link to the
parent comes from the path table, everything else from the '.' record of the
directory. The buffer with that record is freed before the node is allocated,
so the node may be placed over the record, and then its own stores change the
record before the lba is read from it.

## Results

* `storeAttributes_lba` — what the record says when the lba is read.
* `iso9660Recreate_run` — the call, with the exact condition on the node's
  inode.
* `climb_spec` — repeated calls pass through the ancestors.
* `recreate_climbs_iff` — both together.
-/

namespace Hexos

open Mem

-- ---------------------------------------------------------------------------
-- The record under the node
-- ---------------------------------------------------------------------------

/-- The stores to the node change the lba of the record before it is read: it
is overwritten by zeros, or its upper half by the lower half of the length. -/
def Clobbers (entryBuffer node lba length : Nat) : Prop :=
  (entryBuffer = node + 256 ∧ lba ≠ 0) ∨
    (entryBuffer = node + 272 ∧ lba / 65536 ≠ length % 65536)

instance (entryBuffer node lba length : Nat) : Decidable (Clobbers entryBuffer node lba length) :=
  inferInstanceAs (Decidable (_ ∨ _))

section Record

variable {m : Mem} {a e : Nat}

/-- The attributes from `mask` to `gid` are zero. -/
theorem storeAttributes_zero {i : Nat} (hl : a + 256 ≤ i) (hr : i < a + 268) :
    storeAttributes m a e i = 0 := by
  unfold storeAttributes
  rw [store32_other (by omega)]
  rcases (by omega : i < a + 260 ∨ (a + 260 ≤ i ∧ i < a + 264) ∨ a + 264 ≤ i)
    with h | h | h
  · rw [store32_other (by omega), store32_other (by omega), store32_zero hl (by omega)]
  · rw [store32_other (by omega), store32_zero h.1 (by omega)]
  · exact store32_zero h (by omega)

/-- The record and the node may overlap, but both addresses are cells of the
heap: only two of the distances matter. -/
theorem storeAttributes_lba (hAligned : e % 16 = a % 16) :
    (storeAttributes m a e).load32 (e + 2) =
      if e = a + 256 then 0
      else if e = a + 272 then
        m.load32 (e + 2) % 65536 + 65536 * (m.load32 (e + 10) % 65536)
      else m.load32 (e + 2) := by
  split
  · next h =>
    have hByte : ∀ k, k < 4 → storeAttributes m a e (e + 2 + k) = 0 :=
      fun k hk => storeAttributes_zero (by omega) (by omega)
    unfold Mem.load32
    rw [hByte 1 (by omega), hByte 2 (by omega), hByte 3 (by omega),
      show storeAttributes m a e (e + 2) = 0 from hByte 0 (by omega)]
    rfl
  · split
    · next h =>
      -- the upper half of the lba is the lower half of `response->length`
      rw [(load32_halves _ (e + 2)).1, ← (load32_halves m (e + 2)).2,
        show e + 2 + 2 = a + 276 by omega]
      unfold storeAttributes
      rw [load16_store32]
      simp (disch := omega) only [load16_store32_other, load32_store32_other]
    · unfold storeAttributes
      simp (disch := omega) only [load32_store32_other]

/-- The name of a '.' record is empty: two bytes of the node are written at
most. -/
theorem storeName_dot {fuel : Nat} (hFuel : 0 < fuel) (hLen : m (e + 32) = 1)
    (hIdent : m (e + 33) = 0) :
    ∃ m₁, storeName fuel m a e = .done m₁ ∧ SameOff m m₁ a 2 := by
  obtain ⟨fuel, rfl⟩ : ∃ f, fuel = f + 1 := ⟨fuel - 1, by omega⟩
  have hCopy : strcpy (fuel + 1) m a (e + 33) = .done (m.store8 a 0) := by
    rw [strcpy, if_neg (by simpa using hIdent)]
  have hByte : ((m.store8 a 0) (e + 32)).toNat ≤ 1 := by
    unfold store8
    split
    · decide
    · rw [hLen]
      decide
  refine ⟨(m.store8 a 0).store8 (a + ((m.store8 a 0) (e + 32)).toNat) 0, ?_, ?_⟩
  · unfold storeName
    rw [if_pos (by rw [hLen]; decide), hCopy, Outcome.map_done]
  · exact ((store8_sameOff m a 0).sub (by omega) (by omega)).trans
      ((store8_sameOff _ _ _).sub (by omega) (by omega))

/-- The node of a directory of a volume. -/
def volumeView (env : Env) (fsInfo inode : Nat) (parent : FsNodeMini) : NodeView :=
  ⟨fsDirectory, inode, fsInfo, env.iso9660Finddir, env.iso9660Recreate,
    env.iso9660FreeNode, parent⟩

/-- **The node over its record.** Flags and parent are right; the inode is,
unless the record is clobbered. -/
theorem entryToNodeMini_dot (env : Env) {fuel fsInfo lba : Nat} {parent : FsNodeMini} {sec : Mem}
    {s s₁ : Machine} (hk : s.kalloc fuel sizeofFsNode = .done (a, s₁))
    (hAligned : e % 16 = a % 16) (hDot : IsDot sec lba) (hm : SectorAt s₁.mem e sec 0)
    (hFuel : 0 < fuel) (hInfo : fsInfo < 2 ^ 32) (hParent : parent.Words) :
    ∃ m' inode,
      iso9660EntryToNodeMini env fuel s e fsInfo parent = .done (a, { s₁ with mem := m' }) ∧
      viewNode m' a = volumeView env fsInfo inode parent ∧ SameOff s₁.mem m' a 332 ∧
      (inode = lba ↔ ¬ Clobbers e a lba (sec.load32 10)) := by
  obtain ⟨m₁, hName, hNameFrame⟩ := storeName_dot (a := a) hFuel
    ((hm 32 (by omega) (by omega)).trans hDot.identLen)
    ((hm 33 (by omega) (by omega)).trans hDot.ident)
  obtain ⟨m', hRun, hNode, hFrame⟩ := entryToNodeMini_spec env hk hName hInfo hParent
  -- the name does not meet what is read of the record
  have hFlags : m₁ (e + 25) = sec 25 := by
    rw [hNameFrame (e + 25) (by omega), hm 25 (by omega) (by omega)]
  have hLba : m₁.load32 (e + 2) = lba := by
    rw [(hNameFrame.sameOn (by omega)).load32, hm.load32 (by omega) (by omega), hDot.lba]
  have hLength : m₁.load32 (e + 10) = sec.load32 10 := by
    rw [(hNameFrame.sameOn (by omega)).load32, hm.load32 (by omega) (by omega)]
  have hView := hNode.view
  rw [hFlags, if_pos hDot.directory] at hView
  refine ⟨m', _, hRun, hView, (hNameFrame.sub (by omega) (by omega)).trans hFrame, ?_⟩
  rw [storeAttributes_lba hAligned, hLba, hLength]
  unfold Clobbers
  split
  · next h => omega
  · split
    · next h => omega
    · next h h' => simp [h, h']

end Record

-- ---------------------------------------------------------------------------
-- The call
-- ---------------------------------------------------------------------------

/-- The calls of `iso9660_recreate` to the heap, in their order: the entry
buffer, the node, and the heap they leave. -/
def recreateCalls (fuel : Nat) (heap : KernelHeap) : Outcome (Nat × Nat × KernelHeap) :=
  (kalloc fuel heap sizeofFsNode).bind fun (_, heap) =>
  (kalloc fuel heap 2048).bind fun (entryBuffer, heap) =>
  (kalloc fuel heap 2048).bind fun (tableBuffer, heap) =>
  (kfree heap tableBuffer).bind fun heap =>
  (kfree heap entryBuffer).bind fun heap =>
  (kalloc fuel heap sizeofFsNode).map fun (node, heap) => (entryBuffer, node, heap)

theorem Machine.kalloc_eq {fuel size ptr : Nat} {heap heap' : KernelHeap}
    (h : Hexos.kalloc fuel heap size = .done (ptr, heap')) (m : Mem) :
    Machine.kalloc fuel ⟨heap, m⟩ size = .done (ptr, ⟨heap', m⟩) := by
  unfold Machine.kalloc
  rw [h, Outcome.map_done]

/-- The call of the heap behind a call of the machine. -/
theorem Machine.kalloc_done {fuel size ptr : Nat} {s s' : Machine}
    (h : s.kalloc fuel size = .done (ptr, s')) :
    Hexos.kalloc fuel s.heap size = .done (ptr, s'.heap) := by
  obtain ⟨⟨p, heap⟩, hAlloc, hEq⟩ := Outcome.map_eq_done.mp h
  obtain ⟨rfl, rfl⟩ := Prod.mk.inj hEq
  exact hAlloc

theorem Machine.kfree_done {ptr : Nat} {s s' : Machine} (h : s.kfree ptr = .done s') :
    Hexos.kfree s.heap ptr = .done s'.heap := by
  obtain ⟨heap, hFree, rfl⟩ := Outcome.map_eq_done.mp h
  exact hFree

theorem Machine.kfree_eq {ptr : Nat} {heap heap' : KernelHeap}
    (h : Hexos.kfree heap ptr = .done heap') (m : Mem) :
    Machine.kfree ⟨heap, m⟩ ptr = .done ⟨heap', m⟩ := by
  unfold Machine.kfree
  rw [h, Outcome.map_done]

/-- Freeing a live allocation in a machine whose heap is known. -/
theorem Machine.Inv.kfree_heap {s : Machine} {live : List Alloc} {a : Alloc} {heap : KernelHeap}
    (h : s.Inv live) (ha : a ∈ live) (hFree : Hexos.kfree s.heap a.ptr = .done heap) (m : Mem) :
    Machine.Inv ⟨heap, m⟩ (live.erase a) ∧ heap.map (·.addr) = s.pages := by
  obtain ⟨s', hFree', -, hPages, hInv⟩ := Machine.kfree_spec h ha
  obtain rfl := Outcome.done.inj ((Machine.kfree_eq hFree s.mem).symm.trans hFree')
  exact ⟨hInv, hPages⟩

section Calls

variable {env : Env} {s : Machine} {live : List Alloc} {dev fsInfo fuel i entryBuffer node : Nat}
  {heap' : KernelHeap} {mountpoint : FsNodeMini} {v : Volume env dev} {d : PathEntry}
  {ds : List PathEntry}

/-- The heaps between the calls, with what is live in them and no page gone. -/
theorem recreateCalls_spec (hInv : s.Inv live)
    (hCalls : recreateCalls fuel s.heap = .done (entryBuffer, node, heap')) :
    ∃ r t h₁ h₂ h₃ h₄ h₅, kalloc fuel s.heap sizeofFsNode = .done (r, h₁) ∧
      kalloc fuel h₁ 2048 = .done (entryBuffer, h₂) ∧
      kalloc fuel h₂ 2048 = .done (t, h₃) ∧
      kfree h₃ t = .done h₄ ∧ kfree h₄ entryBuffer = .done h₅ ∧
      kalloc fuel h₅ sizeofFsNode = .done (node, heap') ∧
      (∀ m, Machine.Inv ⟨h₂, m⟩ (⟨entryBuffer, 2048⟩ :: ⟨r, 332⟩ :: live) ∧
        Machine.pages ⟨h₂, m⟩ = s.pages) ∧
      (∀ m, Machine.Inv ⟨h₃, m⟩
        (⟨t, 2048⟩ :: ⟨entryBuffer, 2048⟩ :: ⟨r, 332⟩ :: live) ∧
        Machine.pages ⟨h₃, m⟩ = s.pages) ∧
      ∀ m, Machine.Inv ⟨heap', m⟩ (⟨node, 332⟩ :: ⟨r, 332⟩ :: live) ∧
        Machine.pages ⟨heap', m⟩ = s.pages := by
  unfold recreateCalls at hCalls
  obtain ⟨⟨r, h₁⟩, hR, hCalls⟩ := Outcome.bind_eq_done.mp hCalls
  obtain ⟨⟨e, h₂⟩, hE, hCalls⟩ := Outcome.bind_eq_done.mp hCalls
  obtain ⟨⟨t, h₃⟩, hT, hCalls⟩ := Outcome.bind_eq_done.mp hCalls
  obtain ⟨h₄, hFreeT, hCalls⟩ := Outcome.bind_eq_done.mp hCalls
  obtain ⟨h₅, hFreeE, hCalls⟩ := Outcome.bind_eq_done.mp hCalls
  obtain ⟨⟨a, h₆⟩, hA, hEnd⟩ := Outcome.map_eq_done.mp hCalls
  obtain ⟨rfl, rfl, rfl⟩ : e = entryBuffer ∧ a = node ∧ h₆ = heap' := by simpa using hEnd
  obtain ⟨-, hPages₁, hInv₁⟩ :=
    Machine.kalloc_spec hInv (by decide) (Machine.kalloc_eq hR s.mem)
  obtain ⟨-, hPages₂, hInv₂⟩ :=
    Machine.kalloc_spec hInv₁ (by omega) (Machine.kalloc_eq hE s.mem)
  obtain ⟨-, hPages₃, hInv₃⟩ :=
    Machine.kalloc_spec hInv₂ (by omega) (Machine.kalloc_eq hT s.mem)
  obtain ⟨hInv₄, hPages₄⟩ := hInv₃.kfree_heap List.mem_cons_self hFreeT s.mem
  rw [List.erase_cons_head] at hInv₄
  obtain ⟨hInv₅, hPages₅⟩ := hInv₄.kfree_heap List.mem_cons_self hFreeE s.mem
  rw [List.erase_cons_head] at hInv₅
  obtain ⟨-, hPages₆, hInv₆⟩ :=
    Machine.kalloc_spec hInv₅ (by decide) (Machine.kalloc_eq hA s.mem)
  have hPages₂' := hPages₂.trans hPages₁
  have hPages₃' := hPages₃.trans hPages₂'
  exact ⟨r, t, h₁, h₂, h₃, h₄, h₅, hR, hE, hT, hFreeT, hFreeE, hA,
    fun _ => ⟨hInv₂, hPages₂'⟩,
    fun _ => ⟨hInv₃, hPages₃'⟩,
    fun _ => ⟨hInv₆, hPages₆.trans (hPages₅.trans (hPages₄.trans hPages₃'))⟩⟩

/-- A call that returns a node has made all of the calls. -/
theorem recreateCalls_of_node {s' : Machine} {mini : FsNodeMini}
    (h : iso9660Recreate env fuel s mini = .done (node, s')) (hNode : node ≠ 0) :
    ∃ entryBuffer, recreateCalls fuel s.heap = .done (entryBuffer, node, s'.heap) := by
  unfold iso9660Recreate freeBuffers at h
  obtain ⟨⟨r, s₁⟩, hR, h⟩ := Outcome.bind_eq_done.mp h
  obtain ⟨⟨e, s₂⟩, hE, h⟩ := Outcome.bind_eq_done.mp h
  obtain ⟨⟨t, s₃⟩, hT, h⟩ := Outcome.bind_eq_done.mp h
  obtain ⟨found, -, h⟩ := Outcome.bind_eq_done.mp h
  -- the exits that find no directory return null
  have hNull : ∀ {x : Outcome Machine}, (x.map fun s => (0, s)) ≠ .done (node, s') := by
    intro x hc
    obtain ⟨s₄, -, hEq⟩ := Outcome.map_eq_done.mp hc
    exact hNode (Prod.mk.inj hEq).1.symm
  cases found with
  | none => exact absurd h hNull
  | some found =>
    obtain ⟨pathEntry, first⟩ := found
    simp only at h
    split at h
    · exact absurd h hNull
    · obtain ⟨s₅, hFree, h⟩ := Outcome.bind_eq_done.mp h
      obtain ⟨s₄, hFreeT, hFreeE⟩ := Outcome.bind_eq_done.mp hFree
      unfold iso9660EntryToNodeMini at h
      obtain ⟨⟨a, s₆⟩, hA, h⟩ := Outcome.bind_eq_done.mp h
      obtain ⟨m, -, hEq⟩ := Outcome.map_eq_done.mp h
      obtain ⟨rfl, rfl⟩ := Prod.mk.inj hEq
      -- reading a sector does not touch the heap
      have hT' : kalloc fuel s₂.heap 2048 = .done (t, s₃.heap) := by
        simpa only [Machine.readBlock] using Machine.kalloc_done hT
      have hFreeT' : kfree s₃.heap t = .done s₄.heap := by
        simpa only [Machine.readBlock] using Machine.kfree_done hFreeT
      refine ⟨e, ?_⟩
      unfold recreateCalls
      simp only [Machine.kalloc_done hR, Machine.kalloc_done hE, hT', hFreeT',
        Machine.kfree_done hFreeE, Machine.kalloc_done hA, Outcome.bind_done, Outcome.map_done]

/-- The link to the parent of the directory at `lba`, as the scans find it in every
memory that holds the path table and the record of the volume. -/
def ParentLink (env : Env) (dev fuel fsInfo : Nat) (mountpoint : FsNodeMini) (lba : Nat)
    (parent : FsNodeMini) : Prop :=
  ∀ m base, SectorAt m base (pathTableSector env dev) 0 → VolumeAt m fsInfo dev mountpoint →
    ∃ p first, findPathEntry m lba fuel base true = .done (some (p, first)) ∧
      pathParent env m fsInfo base p first = some parent

/-- The function over calls that succeed and three reads into its buffers: of the
directory, of the volume descriptor and of the path table. -/
theorem iso9660Recreate_eq {lba r t : Nat} {h₁ h₂ h₃ h₄ h₅ : KernelHeap}
    {m₁ m₂ m₃ : Mem} (hR : kalloc fuel s.heap sizeofFsNode = .done (r, h₁))
    (hE : kalloc fuel h₁ 2048 = .done (entryBuffer, h₂))
    (hT : kalloc fuel h₂ 2048 = .done (t, h₃)) (hFreeT : kfree h₃ t = .done h₄)
    (hFreeE : kfree h₄ entryBuffer = .done h₅) (hVolume : VolumeAt s.mem fsInfo dev mountpoint)
    (hVolume₁ : VolumeAt m₁ fsInfo dev mountpoint)
    (hVolume₂ : VolumeAt m₂ fsInfo dev mountpoint)
    (hm₁ : m₁ = s.mem.copyIn entryBuffer 2048 (env.devices dev lba))
    (hm₂ : m₂ = m₁.copyIn t 2048 (env.devices dev iso9660Offset))
    (hm₃ : m₃ = m₂.copyIn t 2048 (pathTableSector env dev)) (recreate : Nat) :
    iso9660Recreate env fuel s ⟨lba, fsInfo, recreate⟩ =
      (findPathEntry m₃ lba fuel t true).bind fun found =>
        match found.bind fun (p, first) => pathParent env m₃ fsInfo t p first with
        | none => .done (0, ⟨h₅, m₃⟩)
        | some parent =>
          iso9660EntryToNodeMini env fuel ⟨h₅, m₃⟩ entryBuffer fsInfo parent := by
  have hTableLba : m₂.load32 (t + 140) = (env.devices dev iso9660Offset).load32 140 := by
    rw [hm₂, load32_copyIn (by omega)]
  have hLast :
      m₂.copyIn t 2048 (env.devices dev ((env.devices dev iso9660Offset).load32 140)) = m₃ :=
    hm₃.symm
  unfold iso9660Recreate freeBuffers
  rw [show s.kalloc fuel sizeofFsNode =
    .done (r, ⟨h₁, s.mem⟩) from Machine.kalloc_eq hR s.mem]
  simp only [Outcome.bind_done, Machine.kalloc_eq hE, Machine.kalloc_eq hT, Machine.readBlock,
    hVolume.dev, ← hm₁, hVolume₁.dev, ← hm₂, hVolume₂.dev, hTableLba]
  rw [hLast]
  congr 1
  funext found
  -- every exit frees both buffers
  cases found with
  | none =>
    simp only [Machine.kfree_eq hFreeT, Machine.kfree_eq hFreeE, Outcome.bind_done,
      Outcome.map_done, Option.bind_none]
  | some found =>
    obtain ⟨p, first⟩ := found
    cases hFound : pathParent env m₃ fsInfo t p first with
    | none =>
      simp only [hFound, Machine.kfree_eq hFreeT, Machine.kfree_eq hFreeE, Outcome.bind_done,
        Outcome.map_done, Option.bind_some]
    | some parent =>
      simp only [hFound, Machine.kfree_eq hFreeT, Machine.kfree_eq hFreeE, Outcome.bind_done,
        Option.bind_some]

/-- The buffers of the call: in a memory `m` with the path table and the record of the
directory, it scans the one and makes the node from the other, over the heap that
the calls for the buffers have left. No stable memory has changed by then. -/
theorem iso9660Recreate_buffers (lba : Nat) (hInv : s.Inv live)
    (hInfo : Stable s.pages live fsInfo 16) (hVolume : VolumeAt s.mem fsInfo dev mountpoint)
    (hCalls : recreateCalls fuel s.heap = .done (entryBuffer, node, heap')) (recreate : Nat) :
    ∃ m r t heap, Machine.kalloc fuel ⟨heap, m⟩ sizeofFsNode =
      .done (node, ⟨heap', m⟩) ∧
      (∀ m', Machine.Inv ⟨heap', m'⟩ (⟨node, 332⟩ :: ⟨r, 332⟩ :: live) ∧
        Machine.pages ⟨heap', m'⟩ = s.pages) ∧
      entryBuffer % 16 = node % 16 ∧ (∀ k l, Stable s.pages live k l → SameOn s.mem m k l) ∧
      SectorAt m t (pathTableSector env dev) 0 ∧
      SectorAt m entryBuffer (env.devices dev lba) 0 ∧
      iso9660Recreate env fuel s ⟨lba, fsInfo, recreate⟩ =
        (findPathEntry m lba fuel t true).bind fun found =>
          match found.bind fun (p, first) => pathParent env m fsInfo t p first with
          | none => .done (0, ⟨heap, m⟩)
          | some parent =>
            iso9660EntryToNodeMini env fuel ⟨heap, m⟩ entryBuffer fsInfo parent := by
  obtain ⟨r, t, h₁, h₂, h₃, h₄, h₅, hR, hE, hT, hFreeT, hFreeE, hA, hInv₂,
    hInv₃, hInv₆⟩ :=
    recreateCalls_spec hInv hCalls
  -- the sectors are read into the buffers
  obtain ⟨m₁, hm₁⟩ : ∃ m, m = s.mem.copyIn entryBuffer 2048 (env.devices dev lba) :=
    ⟨_, rfl⟩
  obtain ⟨m₂, hm₂⟩ : ∃ m, m = m₁.copyIn t 2048 (env.devices dev iso9660Offset) :=
    ⟨_, rfl⟩
  obtain ⟨m₃, hm₃⟩ : ∃ m, m = m₂.copyIn t 2048 (pathTableSector env dev) := ⟨_, rfl⟩
  have hFrame₁ : SameOff s.mem m₁ entryBuffer 2048 := hm₁ ▸ copyIn_sameOff _ _ _ _
  have hFrame₂ : SameOff m₁ m₂ t 2048 := hm₂ ▸ copyIn_sameOff _ _ _ _
  have hFrame₃ : SameOff m₂ m₃ t 2048 := hm₃ ▸ copyIn_sameOff _ _ _ _
  have hSame : ∀ k l, Stable s.pages live k l →
      SameOn s.mem m₁ k l ∧ SameOn m₁ m₂ k l ∧ SameOn m₂ m₃ k l := by
    intro k l hStable
    have hApartE := Stable.apart (s := ⟨h₂, m₁⟩)
      (by rw [(hInv₂ m₁).2]; exact hStable.cons _) (hInv₂ m₁).1
    have hApartT :=
      Stable.apart (s := ⟨h₃, m₁⟩) (by rw [(hInv₃ m₁).2]; exact (hStable.cons _).cons _)
      (hInv₃ m₁).1
    exact ⟨hFrame₁.sameOn hApartE, hFrame₂.sameOn hApartT, hFrame₃.sameOn hApartT⟩
  obtain ⟨hInfo₁, hInfo₂, -⟩ := hSame fsInfo 16 hInfo
  have hVolume₁ := hVolume.congr hInfo₁
  have hVolume₂ := hVolume₁.congr hInfo₂
  have hTable : SectorAt m₃ t (pathTableSector env dev) 0 := hm₃ ▸ copyIn_sectorAt _ _ _
  have hEntry : SectorAt m₃ entryBuffer (env.devices dev lba) 0 := by
    have hBuffers := (hInv₃ m₁).1.apart List.mem_cons_self
    simp only at hBuffers
    intro k _ hk
    rw [hFrame₃ _ (by omega), hFrame₂ _ (by omega), hm₁, copyIn_in hk]
  -- the node is allocated after both buffers have been freed
  have hAligned : entryBuffer % 16 = node % 16 := by
    have hE16 := ((hInv₂ m₁).1.range List.mem_cons_self).2.1
    have hA16 := ((hInv₆ m₁).1.range List.mem_cons_self).2.1
    simp only at hE16 hA16
    omega
  refine ⟨m₃, r, t, h₅, Machine.kalloc_eq hA m₃, hInv₆, hAligned, ?_, hTable,
    hEntry, ?_⟩
  · intro k l hStable
    obtain ⟨hSame₁, hSame₂, hSame₃⟩ := hSame k l hStable
    exact (hSame₁.trans hSame₂).trans hSame₃
  · exact iso9660Recreate_eq hR hE hT hFreeT hFreeE hVolume hVolume₁ hVolume₂ hm₁ hm₂
      hm₃ recreate

/-- **The call.** Where the scans find a parent, with room in the heap, it returns
a directory node with that parent, and touches no stable memory. The inode is
right exactly when the record is not clobbered. -/
theorem iso9660Recreate_run {lba : Nat} {parent : FsNodeMini} (hInv : s.Inv live)
    (hInfo : Stable s.pages live fsInfo 16) (hWord : fsInfo < 2 ^ 32)
    (hVolume : VolumeAt s.mem fsInfo dev mountpoint)
    (hLink : ParentLink env dev fuel fsInfo mountpoint lba parent) (hParent : parent.Words)
    (hDot : IsDot (env.devices dev lba) lba) (hFuel : 0 < fuel)
    (hCalls : recreateCalls fuel s.heap = .done (entryBuffer, node, heap')) (recreate : Nat) :
    ∃ m' r inode, iso9660Recreate env fuel s ⟨lba, fsInfo, recreate⟩ =
      .done (node, ⟨heap', m'⟩) ∧
      Machine.Inv ⟨heap', m'⟩ (⟨node, 332⟩ :: ⟨r, 332⟩ :: live) ∧
      Machine.pages ⟨heap', m'⟩ = s.pages ∧
      (∀ k l, Stable s.pages live k l → SameOn s.mem m' k l) ∧
      viewNode m' node = volumeView env fsInfo inode parent ∧
      (inode = lba ↔ ¬ Clobbers entryBuffer node lba ((env.devices dev lba).load32 10)) := by
  obtain ⟨m, r, t, heap, hAlloc, hInv', hAligned, hSame, hTable, hEntry, hCall⟩ :=
    iso9660Recreate_buffers lba hInv hInfo hVolume hCalls recreate
  obtain ⟨p, first, hFind, hFound⟩ := hLink m t hTable (hVolume.congr (hSame _ _ hInfo))
  obtain ⟨m', inode, hRun, hView, hFrame, hInode⟩ :=
    entryToNodeMini_dot env hAlloc hAligned hDot
    hEntry hFuel hWord hParent
  refine ⟨m', r, inode, ?_, (hInv' m').1, (hInv' m').2, ?_, hView, hInode⟩
  · rw [hCall, hFind]
    simp only [Outcome.bind_done, Option.bind_some, hFound]
    exact hRun
  · intro k l hStable
    have hApart := Stable.apart (s := ⟨heap', m'⟩) (by rw [(hInv' m').2]; exact hStable.cons _)
      (hInv' m').1
    exact (hSame k l hStable).trans (hFrame.sameOn hApart)

/-- The call for a directory of a well-formed volume. -/
theorem iso9660Recreate_spec (hInv : s.Inv live) (hInfo : Stable s.pages live fsInfo 16)
    (hWord : fsInfo < 2 ^ 32) (hVolume : VolumeAt s.mem fsInfo dev mountpoint)
    (hd : v.Ancestry i (d :: ds)) (hFuel : 256 ≤ fuel)
    (hCalls : recreateCalls fuel s.heap = .done (entryBuffer, node, heap')) (recreate : Nat) :
    ∃ m' r inode, iso9660Recreate env fuel s ⟨d.lba, fsInfo, recreate⟩ =
      .done (node, ⟨heap', m'⟩) ∧
      Machine.Inv ⟨heap', m'⟩ (⟨node, 332⟩ :: ⟨r, 332⟩ :: live) ∧
      Machine.pages ⟨heap', m'⟩ = s.pages ∧
      (∀ k l, Stable s.pages live k l → SameOn s.mem m' k l) ∧
      viewNode m' node = volumeView env fsInfo inode (upLink env fsInfo mountpoint ds) ∧
      (inode = d.lba ↔
        ¬ Clobbers entryBuffer node d.lba ((env.devices dev d.lba).load32 10)) :=
  iso9660Recreate_run hInv hInfo hWord hVolume
    (fun _ _ hTable hVolume' => Volume.pathParent_spec hd hTable hVolume'.mountpoint hFuel)
    (Volume.upLink_words hd hWord hVolume) (v.dots d (List.mem_of_getElem? hd.head))
      (by omega) hCalls
    recreate

-- ---------------------------------------------------------------------------
-- The way up
-- ---------------------------------------------------------------------------

/-- `n` calls through `recreate` pointers, each on the parent of the node that
the last one returned: the nodes passed, and the link reached. -/
def climb (env : Env) (fuel : Nat) :
    Nat → Machine → FsNodeMini → Outcome (List NodeView × FsNodeMini)
  | 0, _, mini => .done ([], mini)
  | n + 1, s, mini =>
    (callRecreate env fuel s mini).bind fun (node, s) =>
    (climb env fuel n s (loadMini s.mem (node + 316))).map fun (nodes, last) =>
      (viewNode s.mem node :: nodes, last)

/-- The entry buffers and nodes of `n` calls. -/
def climbCalls (fuel : Nat) : Nat → KernelHeap → Outcome (List (Nat × Nat))
  | 0, _ => .done []
  | n + 1, heap =>
    (recreateCalls fuel heap).bind fun (entryBuffer, node, heap) =>
    (climbCalls fuel n heap).map fun places => (entryBuffer, node) :: places

/-- The nodes of the given directories, each with the link to the next. -/
def nodesUp (env : Env) (fsInfo : Nat) (mountpoint : FsNodeMini) : List PathEntry → List NodeView
  | [] => []
  | d :: ds =>
    volumeView env fsInfo d.lba (upLink env fsInfo mountpoint ds) ::
      nodesUp env fsInfo mountpoint ds

/-- No record is clobbered in the calls for the given directories. -/
def Unharmed (env : Env) (dev : Nat) (places : List (Nat × Nat)) (ds : List PathEntry) : Prop :=
  ∀ p ∈ places.zip ds,
    ¬ Clobbers p.1.1 p.1.2 p.2.lba ((env.devices dev p.2.lba).load32 10)

instance (env : Env) (dev : Nat) (places : List (Nat × Nat)) (ds : List PathEntry) :
    Decidable (Unharmed env dev places ds) :=
  inferInstanceAs (Decidable (∀ p ∈ places.zip ds, _))

theorem callRecreate_iso9660 (mini : FsNodeMini) (h : mini.recreate = env.iso9660Recreate) :
    callRecreate env fuel s mini = iso9660Recreate env fuel s mini := by
  unfold callRecreate
  rw [if_neg (by rw [h]; exact env.functions_ne.2.1.symm), if_pos h]

/-- One call of the climb, and what is left to climb. -/
theorem climb_step {places : List (Nat × Nat)} (hInv : s.Inv live)
    (hInfo : Stable s.pages live fsInfo 16) (hWord : fsInfo < 2 ^ 32)
    (hVolume : VolumeAt s.mem fsInfo dev mountpoint) (hd : v.Ancestry i (d :: ds))
    (hFuel : 256 ≤ fuel) (hCalls : climbCalls fuel (ds.length + 1) s.heap = .done places)
    (hRest : ∀ (s' : Machine) (live' : List Alloc) places', s'.Inv live' →
      Stable s'.pages live' fsInfo 16 → VolumeAt s'.mem fsInfo dev mountpoint →
      climbCalls fuel ds.length s'.heap = .done places' →
      ∃ nodes, climb env fuel ds.length s' (upLink env fsInfo mountpoint ds) =
          .done (nodes, mountpoint) ∧
        (nodes = nodesUp env fsInfo mountpoint ds ↔ Unharmed env dev places' ds)) :
    ∃ nodes, climb env fuel (ds.length + 1) s (upLink env fsInfo mountpoint (d :: ds)) =
        .done (nodes, mountpoint) ∧
      (nodes = nodesUp env fsInfo mountpoint (d :: ds) ↔ Unharmed env dev places (d :: ds)) := by
  rw [climbCalls] at hCalls
  obtain ⟨⟨e, a, heap'⟩, hFirst, hCalls⟩ := Outcome.bind_eq_done.mp hCalls
  obtain ⟨places', hLater, rfl⟩ := Outcome.map_eq_done.mp hCalls
  obtain ⟨m', r, inode, hRun, hInv', hPages', hSame, hView, hInode⟩ :=
    iso9660Recreate_spec hInv hInfo hWord hVolume hd hFuel hFirst env.iso9660Recreate
  obtain ⟨nodes, hClimb, hNodes⟩ := hRest ⟨heap', m'⟩ _ places' hInv'
    (by rw [hPages']; exact (hInfo.cons _).cons _) (hVolume.congr (hSame _ _ hInfo)) hLater
  have hLink : loadMini m' (a + 316) = upLink env fsInfo mountpoint ds :=
    congrArg NodeView.parent hView
  refine ⟨viewNode m' a :: nodes, ?_, ?_⟩
  · rw [climb, callRecreate_iso9660 (upLink env fsInfo mountpoint (d :: ds)) rfl]
    simp only [upLink, hRun, Outcome.bind_done]
    rw [hLink, hClimb, Outcome.map_done]
  · rw [hView, nodesUp, List.cons_eq_cons, hNodes]
    unfold Unharmed
    rw [List.zip_cons_cons, List.forall_mem_cons, ← hInode]
    simp [volumeView]

/-- **The climb.** From every directory it passes through the ancestors and
ends at the mount point, and the nodes it passes are right exactly when no
record is clobbered. -/
theorem climb_spec {places : List (Nat × Nat)} {es : List PathEntry} (h : v.Ancestry i es)
    (hInv : s.Inv live) (hInfo : Stable s.pages live fsInfo 16) (hWord : fsInfo < 2 ^ 32)
    (hVolume : VolumeAt s.mem fsInfo dev mountpoint) (hFuel : 256 ≤ fuel)
    (hCalls : climbCalls fuel es.length s.heap = .done places) :
    ∃ nodes, climb env fuel es.length s (upLink env fsInfo mountpoint es) =
        .done (nodes, mountpoint) ∧
      (nodes = nodesUp env fsInfo mountpoint es ↔ Unharmed env dev places es) := by
  induction h generalizing s live places with
  | root hd =>
    refine climb_step hInv hInfo hWord hVolume (.root hd) hFuel hCalls ?_
    intro s' live' places' _ _ _ _
    exact ⟨[], rfl, by simp [nodesUp, Unharmed]⟩
  | child hi hd hds ih =>
    refine climb_step hInv hInfo hWord hVolume (.child hi hd hds) hFuel hCalls ?_
    intro s' live' places' hInv' hInfo' hVolume' hCalls'
    exact ih hInv' hInfo' hVolume' hCalls'

/-- **Climbing to the mount point.** For every directory of a well-formed volume
and every state of the heap with room for the calls: the node returned is a
directory node with the lba of the directory and the link to its parent exactly
when its record is not clobbered, and the climb from it leads to the mount point
with one step for each ancestor, past the right nodes exactly when no record
on the way is clobbered. -/
theorem recreate_climbs_iff (env : Env) (dev : Nat) (v : Volume env dev) (s : Machine)
    (live : List Alloc) (fsInfo fuel : Nat) (mountpoint : FsNodeMini) (hInv : s.Inv live)
    (hInfo : Stable s.pages live fsInfo 16) (hWord : fsInfo < 2 ^ 32)
    (hVolume : VolumeAt s.mem fsInfo dev mountpoint) (hFuel : 256 ≤ fuel) (i : Nat)
    (d : PathEntry) (hd : v.entries[i]? = some d) :
    ∃ ds, v.Ancestry i (d :: ds) ∧
      (∀ entryBuffer node heap', recreateCalls fuel s.heap = .done (entryBuffer, node, heap') →
        ∀ recreate, ∃ s',
          iso9660Recreate env fuel s ⟨d.lba, fsInfo, recreate⟩ = .done (node, s') ∧
          ((s'.mem.load32 (node + 268) = fsDirectory ∧ s'.mem.load32 (node + 272) = d.lba ∧
              loadMini s'.mem (node + 316) = upLink env fsInfo mountpoint ds) ↔
            ¬ Clobbers entryBuffer node d.lba ((env.devices dev d.lba).load32 10))) ∧
      ∀ places, climbCalls fuel (ds.length + 1) s.heap = .done places →
        ∃ nodes, climb env fuel (ds.length + 1) s ⟨d.lba, fsInfo, env.iso9660Recreate⟩ =
            .done (nodes, mountpoint) ∧
          (nodes = nodesUp env fsInfo mountpoint (d :: ds) ↔
            Unharmed env dev places (d :: ds)) := by
  obtain ⟨ds, hds⟩ := v.exists_ancestry i d hd
  refine ⟨ds, hds, ?_, ?_⟩
  · intro e a heap' hCalls recreate
    obtain ⟨m', r, inode, hRun, -, -, -, hView, hInode⟩ :=
      iso9660Recreate_spec hInv hInfo hWord hVolume hds hFuel hCalls recreate
    refine ⟨⟨heap', m'⟩, hRun, ?_⟩
    have hFlags : m'.load32 (a + 268) = fsDirectory := congrArg NodeView.flags hView
    have hNode : m'.load32 (a + 272) = inode := congrArg NodeView.inode hView
    have hLink : loadMini m' (a + 316) = upLink env fsInfo mountpoint ds :=
      congrArg NodeView.parent hView
    rw [hFlags, hNode, hLink, ← hInode]
    simp
  · intro places hCalls
    exact climb_spec hds hInv hInfo hWord hVolume hFuel hCalls

end Calls

-- ---------------------------------------------------------------------------
-- The mounted disk
-- ---------------------------------------------------------------------------

/-- The directory `E` is below `D`, which is below the root directory. -/
theorem tree_ancestry : treeVolume.Ancestry 2 [⟨1, 22, 2⟩, ⟨1, 21, 1⟩, ⟨1, 20, 1⟩] :=
  .child (by decide) rfl (.child (by decide) rfl (.root rfl))

/-- On the freshly mounted disk with the directories `D` and `D/E`, the node of `E` is
recreated with a link to `D`; the way up from `E` passes through the nodes of `E`,
`D` and the root directory and ends at the mount point. -/
theorem recreate_climbs_from_subdirectory :
    ∃ sh fsInfo node s' nodes, sampleShell treeDisk = some sh ∧
      iso9660Recreate (sampleEnv treeDisk) 600 sh.machine ⟨22, fsInfo, 0x50B0⟩ =
        .done (node, s') ∧
      s'.mem.load32 (node + 268) = fsDirectory ∧ s'.mem.load32 (node + 272) = 22 ∧
      loadMini s'.mem (node + 316) = ⟨21, fsInfo, 0x50B0⟩ ∧
      climb (sampleEnv treeDisk) 600 3 sh.machine ⟨22, fsInfo, 0x50B0⟩ =
        .done (nodes, ⟨1, 0, 0x5030⟩) ∧
      nodes = [volumeView (sampleEnv treeDisk) fsInfo 22 ⟨21, fsInfo, 0x50B0⟩,
        volumeView (sampleEnv treeDisk) fsInfo 21 ⟨20, fsInfo, 0x50B0⟩,
        volumeView (sampleEnv treeDisk) fsInfo 20 ⟨1, 0, 0x5030⟩] := by
  have hEval : (sampleShell treeDisk).map (fun sh => (climbCalls 600 3 sh.machine.heap).toOption.map
      fun places => decide (Unharmed (sampleEnv treeDisk) 1 places
        [⟨1, 22, 2⟩, ⟨1, 21, 1⟩, ⟨1, 20, 1⟩])) = some (some true) := by decide +kernel
  obtain ⟨sh, hShell, hEval⟩ := Option.map_eq_some_iff.mp hEval
  obtain ⟨places, hPlaces, hEval⟩ := Option.map_eq_some_iff.mp hEval
  have hPlaces := Outcome.toOption_eq_some.mp hPlaces
  have hUnharmed := of_decide_eq_true hEval
  -- the first of the three calls is the one for `E`
  have hFirst := hPlaces
  rw [climbCalls] at hFirst
  obtain ⟨⟨entryBuffer, node, heap'⟩, hCalls, hFirst⟩ := Outcome.bind_eq_done.mp hFirst
  obtain ⟨places', -, rfl⟩ := Outcome.map_eq_done.mp hFirst
  have hRecord := hUnharmed ((entryBuffer, node), ⟨1, 22, 2⟩) List.mem_cons_self
  obtain ⟨fsInfo, buffer2, -, hInv, -, -, hMounted⟩ := sampleShell_mounted hShell
  have hTop := (hInv.range (a := ⟨fsInfo, 16⟩) (by simp)).2.2
  simp only at hTop
  obtain ⟨ds, hds, hCall, hClimb⟩ := recreate_climbs_iff (sampleEnv treeDisk) 1 treeVolume
    sh.machine _ fsInfo 600 ⟨1, 0, 0x5030⟩ hInv
    (Or.inl ⟨⟨fsInfo, 16⟩, by simp, by simp, by simp⟩) (by omega) hMounted.volume
      (by omega) 2
    ⟨1, 22, 2⟩ rfl
  obtain rfl : ds = [⟨1, 21, 1⟩, ⟨1, 20, 1⟩] :=
    List.tail_eq_of_cons_eq (hds.unique tree_ancestry)
  obtain ⟨s', hRun, hNode⟩ := hCall _ _ _ hCalls 0x50B0
  obtain ⟨hFlags, hInode, hLink⟩ := hNode.mpr hRecord
  obtain ⟨nodes, hUp, hNodes⟩ := hClimb _ hPlaces
  exact ⟨sh, fsInfo, node, s', nodes, hShell, hRun, hFlags, hInode, hLink, hUp,
    hNodes.mpr hUnharmed⟩

/-- Calls of clients of the heap that leave a free run of 16 cells before the
place of the next large buffer. -/
def fragmentHeap (s : Machine) : Outcome Machine :=
  (s.kalloc 600 1408).bind fun (_, s) =>
  (s.kalloc 600 332).bind fun (g, s) =>
  (s.kalloc 600 1504).bind fun (_, s) =>
  (s.kalloc 600 272).bind fun (x, s) =>
  (s.kfree x).bind fun s => s.kfree g

/-- The node of the root directory gets the inode 0: it is allocated 256 bytes
before the freed buffer, and `mask` and `uid` are stored over the lba of the
record before that is read. -/
theorem recreate_reads_freed_record :
    ∃ sh s node s' fsInfo, sampleShell sampleDisk = some sh ∧
      fragmentHeap sh.machine = .done s ∧
      sampleVolume.entries[0]? = some ⟨1, 20, 1⟩ ∧ s.mem.load32 fsInfo = 1 ∧
      iso9660Recreate (sampleEnv sampleDisk) 600 s ⟨20, fsInfo, 0x50B0⟩ = .done (node, s') ∧
      node ≠ 0 ∧ s'.mem.load32 (node + 272) = 0 := by
  have hEval :
      (sampleShell sampleDisk).map (fun sh => (fragmentHeap sh.machine).toOption.map fun s =>
      (s.mem.load32 (s.mem.load32 (0x3000 + 280)),
        (iso9660Recreate (sampleEnv sampleDisk) 600 s
          ⟨20, s.mem.load32 (0x3000 + 280), 0x50B0⟩).toOption.map fun (node, s') =>
            (decide (node ≠ 0), s'.mem.load32 (node + 272)))) =
      some (some (1, some (true, 0))) := by decide +kernel
  obtain ⟨sh, hShell, hEval⟩ := Option.map_eq_some_iff.mp hEval
  obtain ⟨s, hFragment, hFacts⟩ := Option.map_eq_some_iff.mp hEval
  obtain ⟨hDev, hRun⟩ := Prod.mk.inj hFacts
  obtain ⟨⟨node, s'⟩, hRun, hNode⟩ := Option.map_eq_some_iff.mp hRun
  obtain ⟨hNull, hInode⟩ := Prod.mk.inj hNode
  exact ⟨sh, s, node, s', _, hShell, Outcome.toOption_eq_some.mp hFragment, rfl, hDev,
    Outcome.toOption_eq_some.mp hRun, of_decide_eq_true hNull, hInode⟩

end Hexos
