import XsCore.Memory.State

/-! # Page tables

The calls of `memory/virtual.c` on the user half of an address space.  Mapping a page may allocate
up to three tables, which stay with the address space even when the mapping fails.
-/

namespace XsCore.Memory

open Function

variable (m : Mem) (tables : List Table) (page : Nat) (s : Space)

/-- `next_level` with `create`: the table of one level, allocated when it is missing. -/
def nextLevel (m : Mem) (tables : List Table) (level index : Nat) : Mem × List Table × Bool :=
  if hasTable tables level index then (m, tables, true)
  else
    match m.allocate with
    | (m, some frame) => (m, ⟨level, index, frame⟩ :: tables, true)
    | (m, none) => (m, tables, false)

def walkTables (page : Nat) : List Nat → Mem → List Table → Mem × List Table × Bool
  | [], m, tables => (m, tables, true)
  | level :: levels, m, tables =>
    match nextLevel m tables level (page / 512 ^ level) with
    | (m, tables, true) => walkTables page levels m tables
    | (m, tables, false) => (m, tables, false)

theorem nextLevel_tables (level index : Nat) : (∀ l i, hasTable tables l i →
      hasTable (nextLevel m tables level index).2.1 l i) ∧
    ((nextLevel m tables level index).2.2 →
      hasTable (nextLevel m tables level index).2.1 level index) := by
  unfold nextLevel
  split_ifs with hthere
  · exact ⟨fun l i h => h, fun _ => hthere⟩
  cases halloc : m.allocate with
  | mk m' frame =>
    cases frame with
    | none => exact ⟨fun l i h => h, fun h => absurd h (by simp)⟩
    | some frame => exact ⟨fun l i h => Bool.or_eq_true_iff.mpr (.inr h), fun _ => by simp [hasTable]⟩

theorem walkTables_keeps (levels : List Nat) (m : Mem) (tables : List Table) {l i : Nat}
    (h : hasTable tables l i) : hasTable (walkTables page levels m tables).2.1 l i := by
  induction levels generalizing m tables with
  | nil => exact h
  | cons level levels ih =>
    have hkeep := (nextLevel_tables m tables level (page / 512 ^ level)).1 l i h
    rw [walkTables]
    cases hnext : nextLevel m tables level (page / 512 ^ level) with
    | mk m' rest =>
      cases rest with
      | mk tables' ok =>
        rw [hnext] at hkeep
        cases ok with
        | true => exact ih m' tables' hkeep
        | false => exact hkeep

theorem walkTables_complete (levels : List Nat) (m : Mem) (tables : List Table)
    (h : (walkTables page levels m tables).2.2) :
    ∀ level ∈ levels, hasTable (walkTables page levels m tables).2.1 level
      (page / 512 ^ level) := by
  induction levels generalizing m tables with
  | nil => simp
  | cons level levels ih =>
    have hown := (nextLevel_tables m tables level (page / 512 ^ level)).2
    rw [walkTables] at h ⊢
    cases hnext : nextLevel m tables level (page / 512 ^ level) with
    | mk m' rest =>
      cases rest with
      | mk tables' ok =>
        rw [hnext] at h hown
        cases ok with
        | true =>
          intro l hl
          rcases List.mem_cons.mp hl with rfl | hl
          · exact walkTables_keeps page levels m' tables' (hown rfl)
          · exact ih m' tables' h l hl
        | false => simp at h

def Space.withTables (s : Space) (tables : List Table)
    (h : ∀ l i, hasTable s.tables l i = true → hasTable tables l i = true) : Space where
  root := s.root
  tables := tables
  entries := s.entries
  walkable page hentry :=
    have hw := s.walkable page hentry
    ⟨hw.1, hw.2.1, fun level hl => h _ _ (hw.2.2 level hl)⟩

def Space.withEntry (s : Space) (page : Nat) (pte : Pte)
    (h : page ≠ 0 ∧ isCanonical page = true ∧ Walkable s.tables page) : Space where
  root := s.root
  tables := s.tables
  entries := update s.entries page (some pte)
  walkable page' hentry := by
    by_cases hp : page' = page
    · rw [hp]
      exact h
    · rw [update_of_ne hp] at hentry
      exact s.walkable page' hentry

def Space.withoutEntry (s : Space) (page : Nat) : Space where
  root := s.root
  tables := s.tables
  entries := update s.entries page none
  walkable page' hentry := by
    by_cases hp : page' = page
    · rw [hp, update_self] at hentry
      exact absurd rfl hentry
    · rw [update_of_ne hp] at hentry
      exact s.walkable page' hentry

/-- `xscore_vmm_map_page_in`: enter a frame for a page that has none. -/
def mapPageIn (m : Mem) (s : Space) (page : Nat) (pte : Pte) : Mem × Space × Bool :=
  if hpage : page = 0 ∨ isCanonical page = false then (m, s, false)
  else
    let walk := walkTables page tableLevels m s.tables
    let s' := s.withTables walk.2.1 fun _ _ h => walkTables_keeps page tableLevels m s.tables h
    if hwalk : walk.2.2 = true then
      if s.entries page ≠ none then (walk.1, s', false)
      else
        (walk.1, s'.withEntry page pte ⟨fun h => hpage (.inl h),
          by simpa using fun h => hpage (.inr h),
          walkTables_complete page tableLevels m s.tables hwalk⟩, true)
    else (walk.1, s', false)

/-- `xscore_vmm_unmap_page_in`: clear an entry; no page outside the user range ever has one. -/
def unmapPageIn (s : Space) (page : Nat) : Space × Option Nat :=
  match s.entries page with
  | some pte => (s.withoutEntry page, some pte.frame)
  | none => (s, none)

def remapPage (m : Mem) (s : Space) (page frame : Nat) (flags : PageFlags) : Mem × Space × Bool :=
  match unmapPageIn s page with
  | (s, none) => (m, s, false)
  | (s, some oldFrame) =>
    match mapPageIn m s page ⟨frame, flags⟩ with
    | (m, s, true) => (m, s, true)
    | (m, s, false) =>
      let (m, s, _) := mapPageIn m s page ⟨oldFrame, flags⟩
      (m, s, false)

end XsCore.Memory
