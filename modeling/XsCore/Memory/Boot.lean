import XsCore.Memory.Exec
import XsCore.Memory.RefCounts

/-! # Memory after boot

The memory of a machine without processes, and what its first process starts with.
-/

namespace XsCore.Memory

def bootMem (pmm : Pmm) : Mem where
  pmm := pmm
  ram _ _ := 0
  cache := []
  backings := []
  snapshots := []

/-- An allocator of a small machine: the frames from low memory up to `managed` are free. -/
def smallPmm (managed : Nat) : Pmm where
  used f := decide (f < lowMemoryPages ∨ managed ≤ f)
  managed := managed
  freeCount := managed - lowMemoryPages
  nextSearch := lowMemoryPages
  refs _ := ⟨none, 0⟩

/-- A process that has image and stack pages only, checked page by page. -/
theorem ProcessOk.of_pages {p : Process} (hheap : p.heap.length = 0) (hmmaps : p.mmaps.length = 0)
    (hmapped : ∀ s ∈ p.mapped, s.frame ≠ none → (p.space.entries s.page).isSome) :
    ProcessOk p := by
  rw [List.length_eq_zero_iff] at hheap hmmaps
  refine ⟨fun s hs hframe => ?_, by simp [hheap], by simp [hmmaps]⟩
  exact Option.isSome_iff_ne_none.mp (hmapped s hs hframe)

end XsCore.Memory
