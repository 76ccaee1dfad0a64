import Hexos.Fs.Definitions
import Hexos.Heap.Totality

/-!
# HexOS — calls with more fuel

A call that returns within a bound on the rounds of its loops returns the same
within every larger bound: one lemma for each function with a loop in it.

## Results

* `iso9660Readdir_mono`, `finddirFs_mono`, `readFs_mono` — the calls of the shell.
* `catLoop_mono` — the loop of `cat`.
-/

namespace Hexos

variable {env : Env} {f g : Nat}

theorem strcpy_mono {m m' : Mem} {d p : Nat} (h : strcpy f m d p = .done m') (hfg : f ≤ g) :
    strcpy g m d p = .done m' := by
  induction f generalizing g m d p with
  | zero => cases h
  | succ f ih =>
    obtain ⟨g, rfl⟩ : ∃ k, g = k + 1 := ⟨g - 1, by omega⟩
    rw [strcpy] at h ⊢
    split at h
    · next hByte =>
      rw [if_pos hByte]
      exact ih h (by omega)
    · next hByte =>
      rw [if_neg hByte]
      exact h

theorem Machine.kalloc_mono {s : Machine} {size : Nat} {r : Nat × Machine}
    (h : s.kalloc f size = .done r) (hfg : f ≤ g) : s.kalloc g size = .done r := by
  unfold Machine.kalloc at h ⊢
  obtain ⟨a, hAlloc, rfl⟩ := Outcome.map_eq_done.mp h
  rw [Hexos.kalloc_mono hAlloc (by simp) hfg, Outcome.map_done]

theorem finddirLoop_mono {name : CString} {m : Mem} {dirEntry : Nat} {skipFirst : Bool}
    {r : Option Nat × Mem} (h : finddirLoop name f m dirEntry skipFirst = .done r)
    (hfg : f ≤ g) :
    finddirLoop name g m dirEntry skipFirst = .done r := by
  induction f generalizing g m dirEntry skipFirst with
  | zero => cases h
  | succ f ih =>
    obtain ⟨g, rfl⟩ : ∃ k, g = k + 1 := ⟨g - 1, by omega⟩
    rw [finddirLoop] at h ⊢
    split at h
    · next hEnd =>
      rw [if_pos hEnd]
      exact h
    · next hEnd =>
      rw [if_neg hEnd]
      split at h
      · next hShown =>
        rw [if_pos hShown]
        simp only at h ⊢
        split at h
        · next hLen =>
          rw [if_pos hLen]
          split at h
          · next hEq =>
            rw [if_pos hEq]
            exact h
          · next hEq =>
            rw [if_neg hEq]
            exact ih h (by omega)
        · next hLen =>
          rw [if_neg hLen]
          exact h
      · next hShown =>
        rw [if_neg hShown]
        exact ih h (by omega)

theorem readdirLoop_mono {m : Mem} {i dirEntry count : Nat} {skipFirst : Bool} {r : Option Nat}
    (h : readdirLoop m i f dirEntry skipFirst count = .done r) (hfg : f ≤ g) :
    readdirLoop m i g dirEntry skipFirst count = .done r := by
  induction f generalizing g dirEntry skipFirst count with
  | zero => cases h
  | succ f ih =>
    obtain ⟨g, rfl⟩ : ∃ k, g = k + 1 := ⟨g - 1, by omega⟩
    rw [readdirLoop] at h ⊢
    split at h
    · next hEnd =>
      rw [if_pos hEnd]
      exact h
    · next hEnd =>
      rw [if_neg hEnd]
      split at h
      · next hShown =>
        rw [if_pos hShown]
        split at h
        · next hCount =>
          rw [if_pos hCount]
          exact h
        · next hCount =>
          rw [if_neg hCount]
          exact ih h (by omega)
      · next hShown =>
        rw [if_neg hShown]
        exact ih h (by omega)

theorem storeName_mono {m m' : Mem} {response dirEntry : Nat}
    (h : storeName f m response dirEntry = .done m') (hfg : f ≤ g) :
    storeName g m response dirEntry = .done m' := by
  unfold storeName at h ⊢
  split at h
  · next hLen =>
    obtain ⟨m₁, hCopy, rfl⟩ := Outcome.map_eq_done.mp h
    rw [if_pos hLen, strcpy_mono hCopy hfg, Outcome.map_done]
  · next hLen =>
    rw [if_neg hLen]
    exact h

theorem entryToNodeMini_mono {s : Machine} {dirEntry fsInfo : Nat} {parent : FsNodeMini}
    {r : Nat × Machine} (h : iso9660EntryToNodeMini env f s dirEntry fsInfo parent = .done r)
    (hfg : f ≤ g) : iso9660EntryToNodeMini env g s dirEntry fsInfo parent = .done r := by
  unfold iso9660EntryToNodeMini at h ⊢
  obtain ⟨⟨response, s₁⟩, hAlloc, h⟩ := Outcome.bind_eq_done.mp h
  obtain ⟨m, hName, rfl⟩ := Outcome.map_eq_done.mp h
  rw [Machine.kalloc_mono hAlloc hfg, Outcome.bind_done]
  simp only [storeName_mono hName hfg, Outcome.map_done]

theorem iso9660Finddir_mono {s : Machine} {dir : Nat} {name : CString} {r : Nat × Machine}
    (h : iso9660Finddir env f s dir name = .done r) (hfg : f ≤ g) :
    iso9660Finddir env g s dir name = .done r := by
  unfold iso9660Finddir at h ⊢
  obtain ⟨⟨buffer, s₁⟩, hAlloc, h⟩ := Outcome.bind_eq_done.mp h
  obtain ⟨⟨found, m⟩, hLoop, h⟩ := Outcome.bind_eq_done.mp h
  rw [Machine.kalloc_mono hAlloc hfg, Outcome.bind_done]
  simp only [finddirLoop_mono hLoop hfg, Outcome.bind_done]
  cases found with
  | none => exact h
  | some dirEntry =>
    obtain ⟨⟨response, s₂⟩, hNode, h⟩ := Outcome.bind_eq_done.mp h
    unfold iso9660EntryToNode at hNode ⊢
    simp only [entryToNodeMini_mono hNode hfg, Outcome.bind_done]
    exact h

theorem iso9660Readdir_mono {s : Machine} {dir i : Nat} {r : Nat × Machine}
    (h : iso9660Readdir env f s dir i = .done r) (hfg : f ≤ g) :
    iso9660Readdir env g s dir i = .done r := by
  unfold iso9660Readdir at h ⊢
  obtain ⟨⟨buffer, s₁⟩, hAlloc, h⟩ := Outcome.bind_eq_done.mp h
  obtain ⟨found, hLoop, h⟩ := Outcome.bind_eq_done.mp h
  rw [Machine.kalloc_mono hAlloc hfg, Outcome.bind_done]
  simp only [readdirLoop_mono hLoop hfg, Outcome.bind_done]
  cases found with
  | none => exact h
  | some dirEntry =>
    simp only at h ⊢
    split at h
    · next hLen =>
      obtain ⟨m, hCopy, h⟩ := Outcome.bind_eq_done.mp h
      rw [if_pos hLen, strcpy_mono hCopy hfg, Outcome.bind_done]
      exact h
    · next hLen =>
      rw [if_neg hLen]
      exact h

theorem finddirFs_mono {s : Machine} {node : Nat} {name : CString} {r : Nat × Machine}
    (h : finddirFs env f s node name = .done r) (hfg : f ≤ g) :
    finddirFs env g s node name = .done r := by
  unfold finddirFs at h ⊢
  simp only at h ⊢
  split at h
  · next hDir =>
    rw [if_pos hDir]
    split at h
    · next hRoot =>
      rw [if_pos hRoot]
      exact h
    · next hRoot =>
      rw [if_neg hRoot]
      split at h
      · next hIso =>
        rw [if_pos hIso]
        exact iso9660Finddir_mono h hfg
      · cases h
  · next hDir =>
    rw [if_neg hDir]
    exact h

theorem roundToBlocks_mono {n blocksize : Nat} (h : roundToBlocks f n = .done blocksize)
    (hfg : f ≤ g) :
    roundToBlocks g n = .done blocksize := by
  induction f generalizing g n with
  | zero => cases h
  | succ f ih =>
    obtain ⟨g, rfl⟩ : ∃ k, g = k + 1 := ⟨g - 1, by omega⟩
    rw [roundToBlocks] at h ⊢
    split at h
    · next hPart =>
      rw [if_pos hPart]
      exact ih h (by omega)
    · next hPart =>
      rw [if_neg hPart]
      exact h

theorem iso9660Read_mono {s s' : Machine} {node offset size buffer : Nat}
    (h : iso9660Read env f s node offset size buffer = .done s') (hfg : f ≤ g) :
    iso9660Read env g s node offset size buffer = .done s' := by
  unfold iso9660Read at h ⊢
  obtain ⟨blocksize, hRound, h⟩ := Outcome.bind_eq_done.mp h
  obtain ⟨⟨blockbuf, s₁⟩, hAlloc, h⟩ := Outcome.bind_eq_done.mp h
  simp only [roundToBlocks_mono hRound hfg, Outcome.bind_done, Machine.kalloc_mono hAlloc hfg]
  exact h

theorem readFs_mono {s s' : Machine} {node offset size buffer : Nat}
    (h : readFs env f s node offset size buffer = .done s') (hfg : f ≤ g) :
    readFs env g s node offset size buffer = .done s' := by
  unfold readFs at h ⊢
  simp only at h ⊢
  split at h
  · next hRead =>
    rw [if_pos hRead]
    split at h
    · next hIso =>
      rw [if_pos hIso]
      exact iso9660Read_mono h hfg
    · cases h
  · next hRead =>
    rw [if_neg hRead]
    exact h

theorem printString_mono {m : Mem} {p : Nat} {text : List UInt8}
    (h : printString f m p = .done text) (hfg : f ≤ g) : printString g m p = .done text := by
  induction f generalizing g p text with
  | zero => cases h
  | succ f ih =>
    obtain ⟨g, rfl⟩ : ∃ k, g = k + 1 := ⟨g - 1, by omega⟩
    rw [printString] at h ⊢
    split at h
    · next hByte =>
      obtain ⟨rest, hRest, rfl⟩ := Outcome.map_eq_done.mp h
      rw [if_pos hByte, ih hRest (by omega), Outcome.map_done]
    · next hByte =>
      rw [if_neg hByte]
      exact h

/-- More fuel, and more rounds. -/
theorem catLoop_mono {node filebuf r q : Nat} {s s' : Machine} {left offset : Int}
    {text : List UInt8} (h : catLoop env f node filebuf r s left offset = .done (text, s'))
    (hfg : f ≤ g) (hrq : r ≤ q) :
    catLoop env g node filebuf q s left offset = .done (text, s') := by
  induction r generalizing q s left offset text with
  | zero => cases h
  | succ r ih =>
    obtain ⟨q, rfl⟩ : ∃ k, q = k + 1 := ⟨q - 1, by omega⟩
    rw [catLoop] at h ⊢
    simp only at h ⊢
    generalize (if left ≥ 2048 then (2048 : Int) else left) = toRead at h ⊢
    obtain ⟨s₁, hRead, h⟩ := Outcome.bind_eq_done.mp h
    obtain ⟨chunk, hChunk, h⟩ := Outcome.bind_eq_done.mp h
    rw [readFs_mono hRead hfg, Outcome.bind_done, printString_mono hChunk hfg, Outcome.bind_done]
    split at h
    · next hLast =>
      rw [if_pos hLast]
      exact h
    · next hLast =>
      obtain ⟨⟨rest, s₂⟩, hRest, hEq⟩ := Outcome.map_eq_done.mp h
      obtain ⟨rfl, rfl⟩ := Prod.mk.inj hEq
      rw [if_neg hLast, ih hRest (by omega), Outcome.map_done]

end Hexos
