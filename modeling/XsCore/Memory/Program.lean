import XsCore.Memory.Fault

/-! # A process and its program

What page faults leave alone: the image, and the record of every image page outside the range of
the stack.
-/

namespace XsCore.Memory

open List Option

variable {i page' : Nat} {s s' : MappedPage} {flags' : PageFlags}

def flagsAt : List MappedPage → Nat → Option PageFlags
  | [], _ => none
  | s :: rest, page => if s.page = page then some s.flags else flagsAt rest page

def InStack (page : Nat) : Prop := stackTopPage - maxStackPages ≤ page ∧ page < stackTopPage

variable {m m' : Mem} {p p' p'' : Process} {mapped mapped' : List MappedPage} {page : Nat}
  {flags : PageFlags}

theorem flagsAt_set (hs : mapped[i]? = some s)
    (hpage : s'.page = s.page) (hflags : s.page = page → s'.flags = s.flags) :
    flagsAt (mapped.set i s') page = flagsAt mapped page := by
  induction mapped generalizing i with
  | nil => rfl
  | cons t rest ih =>
    cases i with
    | zero =>
      have ht : t = s := by simpa using hs
      subst ht
      simp only [set_cons_zero, flagsAt, hpage]
      split_ifs with hhere
      · rw [hflags hhere]
      · rfl
    | succ i =>
      simp only [set_cons_succ, flagsAt]
      rw [ih (by simpa using hs)]

theorem flagsAt_eq : flagsAt mapped page =
    (mapped.find? fun s => s.page = page).map MappedPage.flags := by
  induction mapped with
  | nil => rfl
  | cons t rest ih =>
    rw [flagsAt, find?_cons, ih]
    by_cases hhere : t.page = page <;> simp [hhere]

theorem flagsAt_append (s : MappedPage) (h : flagsAt mapped page = some flags) :
    flagsAt (mapped ++ [s]) page = some flags := by
  rw [flagsAt_eq, map_eq_some_iff] at h
  obtain ⟨t, ht, hflags⟩ := h
  rw [flagsAt_eq, find?_append, ht, some_or, map_some, hflags]

theorem flagsAt_append_new (hnone : ∀ t ∈ mapped, t.page ≠ page) (hpage : s.page = page) :
    flagsAt (mapped ++ [s]) page = some s.flags := by
  have hfind : mapped.find? (fun s => decide (s.page = page)) = none := by simpa using hnone
  rw [flagsAt_eq, find?_append, hfind]
  simp [hpage]

theorem findSlot_of_flagsAt (h : flagsAt mapped page = some flags) :
    ∃ i s, findSlot (·.page = page) mapped = some (i, s) ∧ s.page = page ∧
      s.flags = flags := by
  rw [flagsAt_eq, ← findSlot_snd, Option.map_map, map_eq_some_iff] at h
  obtain ⟨⟨i, s⟩, hfind, hflags⟩ := h
  exact ⟨i, s, hfind, of_decide_eq_true (findSlot_some hfind).2, hflags⟩

theorem flagsAt_set_found (hfind : findSlot (·.page = page) mapped = some (i, s))
    (hpage : s'.page = page) : flagsAt (mapped.set i s') page = some s'.flags := by
  induction mapped generalizing i with
  | nil => simp [findSlot] at hfind
  | cons t rest ih =>
    rw [findSlot] at hfind
    by_cases hhere : t.page = page
    · rw [if_pos (by simpa using hhere)] at hfind
      have hzero : i = 0 := (congrArg Prod.fst (some.inj hfind)).symm
      rw [hzero]
      simp [flagsAt, hpage]
    rw [if_neg (by simpa using hhere)] at hfind
    obtain ⟨⟨j, s''⟩, hrest, heq⟩ := map_eq_some_iff.mp hfind
    have hi : i = j + 1 := (congrArg Prod.fst heq).symm
    have hs : s'' = s := congrArg Prod.snd heq
    subst hs
    rw [hi, set_cons_succ, flagsAt, if_neg hhere]
    exact ih hrest

theorem flagsAt_of_mem (h : s ∈ mapped) : ∃ flags, flagsAt mapped s.page = some flags := by
  rw [flagsAt_eq, ← isSome_iff_exists, isSome_map, find?_isSome]
  exact ⟨s, h, decide_eq_true rfl⟩

def Grants (mapped : List MappedPage) (page : Nat) : Prop :=
  ∃ flags, flagsAt mapped page = some flags ∧ flags.writable = true

/-! ## Later states of a process -/

/-- The process still runs the program it was given, with the same image pages. -/
structure Later (p p' : Process) : Prop where
  image : p'.image = p.image
  running : p'.running = p.running
  stack : p.stackBottom ≠ 0 → p'.stackBottom ≠ 0
  records : ∀ page flags, ¬ InStack page → flagsAt p.mapped page = some flags →
    flagsAt p'.mapped page = some flags

theorem Later.refl (p : Process) : Later p p := ⟨rfl, rfl, id, fun _ _ _ h => h⟩

theorem trackPage_flagsAt {frame : Option Nat}
    (hne : page' ≠ page) (h : trackPage mapped page frame flags = some mapped')
    (hflags : flagsAt mapped page' = some flags') : flagsAt mapped' page' = some flags' := by
  unfold trackPage at h
  cases hfind : findSlot (fun s => decide (s.page = page)) mapped with
  | some hit =>
    obtain ⟨i, slot⟩ := hit
    have hslot := findSlot_some hfind
    have hpage : slot.page = page := of_decide_eq_true hslot.2
    simp only [hfind, some.injEq] at h
    rw [← h, flagsAt_set hslot.1 hpage.symm fun heq => absurd (heq.symm.trans hpage) hne]
    exact hflags
  | none =>
    simp only [hfind] at h
    split_ifs at h
    cases h
    exact flagsAt_append _ hflags

theorem mapNewPage_flagsAt (hne : page' ≠ page) (hflags : flagsAt p.mapped page' = some flags') :
    flagsAt (mapNewPage m p page flags).2.1.mapped page' = some flags' := by
  unfold mapNewPage
  rcases installFresh m p.space page flags fun _ => 0 with ⟨m', s, _ | frame⟩
  · exact hflags
  dsimp only
  cases htrack : trackPage p.mapped page (some frame) flags with
  | none => exact hflags
  | some mapped' => exact trackPage_flagsAt hne htrack hflags

theorem mapNewPage_same : (mapNewPage m p page flags).2.1.image = p.image ∧
    (mapNewPage m p page flags).2.1.running = p.running ∧
    (mapNewPage m p page flags).2.1.stackBottom = p.stackBottom := by
  unfold mapNewPage
  rcases installFresh m p.space page flags fun _ => 0 with ⟨m', s, _ | frame⟩
  · exact ⟨rfl, rfl, rfl⟩
  dsimp only
  cases trackPage p.mapped page (some frame) flags <;> exact ⟨rfl, rfl, rfl⟩

end XsCore.Memory
