import XsCore.Memory.Allocator
import XsCore.Memory.Fault

/-! # Calls that have enough memory

With enough free frames the calls that need them succeed: an allocation takes one, mapping a page at
most three for its tables, and a fresh page one more.
-/

namespace XsCore.Memory

open Function Finset

def Pmm.free (m : Pmm) : Finset Nat := (range maxPageCount).filter fun f => m.used f = false

/-- At least `n` frames are free; frame zero is never among them. -/
structure Available (m : Mem) (n : Nat) : Prop where
  zero : m.pmm.used 0 = true
  free : n ≤ m.pmm.free.card

variable {m m' : Mem} {n : Nat} {s : Space}

theorem Available.mono {k : Nat} (h : Available m n) (hk : k ≤ n) : Available m k :=
  ⟨h.zero, hk.trans h.free⟩

theorem Available.fill (h : Available m n) (frame : Nat) (bytes : Nat → UInt8) :
    Available (m.fill frame bytes) n :=
  ⟨h.zero, h.free⟩

theorem refcountInc_used (pmm : Pmm) (frame : Nat) : (refcountInc pmm frame).used = pmm.used := by
  unfold refcountInc
  rcases refcountEntry pmm.refs frame true with ⟨refs, _ | i⟩
  · rfl
  · dsimp only
    split <;> rfl

theorem Available.inc (h : Available m n) (frame : Nat) : Available (m.inc frame) n := by
  have hused : (m.inc frame).pmm.used = m.pmm.used := refcountInc_used m.pmm frame
  constructor
  · rw [hused]
    exact h.zero
  · rw [Pmm.free, hused]
    exact h.free

theorem Pmm.free_eq_empty {pmm : Pmm} (h : nextFree pmm = none) : pmm.free = ∅ := by
  rw [Pmm.free, filter_eq_empty_iff]
  intro f hf
  rw [mem_range] at hf
  simp [nextFree_none h f hf]

theorem Available.allocate (h : Available m (n + 1)) :
    ∃ pmm f, m.allocate = (m.withPmm pmm, some f) ∧ Available (m.withPmm pmm) n := by
  rcases hnext : nextFree m.pmm with _ | f
  · have hfree := h.free
    rw [Pmm.free_eq_empty hnext] at hfree
    cases hfree
  have hunused := nextFree_unused hnext
  have hzero : f ≠ 0 := by
    rintro rfl
    rw [h.zero] at hunused
    cases hunused
  have hfound : (allocatePage m.pmm).2 = some f := by
    unfold allocatePage
    simp only [hnext]
    rw [if_neg hzero]
  have hused : (allocatePage m.pmm).1.used = update m.pmm.used f true := by
    unfold allocatePage
    simp only [hnext]
  refine ⟨(allocatePage m.pmm).1, f, by rw [Mem.allocate, hfound], ?_, ?_⟩
  · show (allocatePage m.pmm).1.used 0
    rw [hused, update_of_ne (Ne.symm hzero)]
    exact h.zero
  · have hsubset : m.pmm.free.erase f ⊆ (allocatePage m.pmm).1.free := by
      intro g hg
      rw [mem_erase, Pmm.free, mem_filter] at hg
      rw [Pmm.free, mem_filter, hused, update_of_ne hg.1]
      exact hg.2
    have hcard := card_le_card hsubset
    have herase := pred_card_le_card_erase (s := m.pmm.free) (a := f)
    have hfree := h.free
    exact (by omega : n ≤ m.pmm.free.card - 1).trans (herase.trans hcard)

theorem Available.nextLevel (h : Available m (n + 1)) (tables : List Table) (level index : Nat) :
    ∃ pmm tables', nextLevel m tables level index = (m.withPmm pmm, tables', true) ∧
      Available (m.withPmm pmm) n := by
  unfold Memory.nextLevel
  split_ifs
  · exact ⟨m.pmm, tables, rfl, h.mono (Nat.le_succ n)⟩
  obtain ⟨pmm, f, halloc, hrest⟩ := h.allocate
  rw [halloc]
  exact ⟨pmm, _, rfl, hrest⟩

theorem Available.walkTables (page : Nat) (levels : List Nat) (tables : List Table)
    (h : Available m (levels.length + n)) :
    ∃ pmm tables', walkTables page levels m tables = (m.withPmm pmm, tables', true) ∧
      Available (m.withPmm pmm) n := by
  induction levels generalizing m tables with
  | nil => exact ⟨m.pmm, tables, rfl, h.mono (by simp)⟩
  | cons level levels ih =>
    have hone : Available m (levels.length + n + 1) := h.mono (by rw [List.length_cons]; omega)
    obtain ⟨pmm, tables', hnext, hrest⟩ := hone.nextLevel tables level (page / 512 ^ level)
    rw [Memory.walkTables, hnext]
    exact ih tables' hrest

theorem Available.mapPageIn (h : Available m (n + 3)) {page : Nat} (hpage : page ≠ 0)
    (hcanonical : isCanonical page) (hentry : s.entries page = none) (pte : Pte) :
    ∃ pmm s', mapPageIn m s page pte = (m.withPmm pmm, s', true) ∧
      Available (m.withPmm pmm) n ∧ s'.entries page = some pte := by
  have hlevels : Available m (tableLevels.length + n) := h.mono (show 3 + n ≤ n + 3 by omega)
  obtain ⟨pmm, tables', hwalk, hrest⟩ := hlevels.walkTables page tableLevels s.tables
  unfold Memory.mapPageIn
  rw [dif_neg (by simp [hpage, hcanonical])]
  simp only [hwalk]
  rw [dif_pos trivial, if_neg (by simpa using hentry)]
  exact ⟨pmm, _, rfl, hrest, by simp [Space.withEntry]⟩

theorem Available.installFresh (h : Available m 4) {page : Nat} (hpage : page ≠ 0)
    (hcanonical : isCanonical page) (hentry : s.entries page = none) (flags : PageFlags)
    (bytes : Nat → UInt8) :
    ∃ m' s' f, installFresh m s page flags bytes = (m', s', some f) ∧ m.Allocated m' ∧
      s'.entries page = some ⟨f, flags⟩ ∧ m'.ram f = bytes := by
  obtain ⟨pmm, f, halloc, hrest⟩ := h.allocate
  rcases (hrest.fill f bytes).mapPageIn hpage hcanonical hentry ⟨f, flags⟩ with
    ⟨pmm', s', hmap, -, hentries⟩
  unfold Memory.installFresh
  rw [halloc]
  simp only [hmap]
  refine ⟨_, s', f, rfl, rfl, hentries, ?_⟩
  show update m.ram f bytes f = bytes
  rw [update_self]

end XsCore.Memory
