import XsCore.Foundation.ProbeTable
import Mathlib.Order.Interval.Finset.Nat

/-! # Physical memory

The page-frame allocator of `memory/physical.c`: an allocation bitmap searched from a hint, and a
bounded open-addressing table of reference counts.  Frames are page numbers; the physical address
of frame `p` is `4096 * p`.
-/

namespace XsCore.Memory

open ProbeTable Function

def maxPageCount : Nat := 1048576

def lowMemoryPages : Nat := 256

def refcountSlots : Nat := 131072

def refcountMax : Nat := 65535

structure Pmm where
  used : Nat → Bool
  managed : Nat
  freeCount : Nat
  nextSearch : Nat
  refs : Nat → Entry Nat

def refcountHash (page : Nat) : Nat :=
  page * 11400714819323198485 % 2 ^ 64 / 2 ^ 47 % refcountSlots

/-- `refcount_entry`: the table, in which an entry may have been taken over, and the entry found. -/
def refcountEntry (refs : Nat → Entry Nat) (page : Nat) (create : Bool) :
    (Nat → Entry Nat) × Option Nat :=
  match search refs refcountSlots (refcountHash page) page refcountSlots 0 none with
  | .found i => (refs, some i)
  | .vacant i =>
    if create then (update refs i { refs i with key := some page }, some i)
    else (refs, none)
  -- A full table hands out a reusable entry under its old key, or nothing.
  | .full reusable => (refs, if create then reusable else none)

def setCount (refs : Nat → Entry Nat) (entry : Option Nat) (count : Nat) : Nat → Entry Nat :=
  match entry with
  | some i => update refs i { refs i with count := count }
  | none => refs

def firstFree (used : Nat → Bool) (page : Nat) : Nat → Option Nat
  | 0 => none
  | n + 1 => if used page then firstFree used (page + 1) n else some page

def nextFree (m : Pmm) : Option Nat :=
  let start := m.nextSearch / 64 * 64
  (firstFree m.used start (maxPageCount - start)).or (firstFree m.used 0 start)

def allocatePage (m : Pmm) : Pmm × Option Nat :=
  match nextFree m with
  | none => (m, none)
  | some page =>
    let (refs, entry) := refcountEntry m.refs page true
    ({ m with
        used := update m.used page true
        freeCount := m.freeCount - 1
        nextSearch := page + 1
        refs := setCount refs entry 1 },
      -- Physical address zero reads as failure.
      if page = 0 then none else some page)

def freePage (m : Pmm) (page : Nat) : Pmm :=
  if page < lowMemoryPages ∨ m.managed ≤ page ∨ m.used page = false then m
  else
    let (refs, entry) := refcountEntry m.refs page false
    { m with
        used := update m.used page false
        freeCount := m.freeCount + 1
        nextSearch := min page m.nextSearch
        refs := setCount refs entry 0 }

def refcountInc (m : Pmm) (page : Nat) : Pmm :=
  let (refs, entry) := refcountEntry m.refs page true
  match entry with
  | some i =>
    if (refs i).count = refcountMax then { m with refs := refs }
    else { m with refs := setCount refs (some i) ((refs i).count + 1) }
  | none => { m with refs := refs }

def refcountDec (m : Pmm) (page : Nat) : Pmm :=
  match (refcountEntry m.refs page false).2 with
  | some i =>
    if 1 < (m.refs i).count then { m with refs := setCount m.refs (some i) ((m.refs i).count - 1) }
    else freePage m page
  | none => freePage m page

def refcountGet (m : Pmm) (page : Nat) : Nat :=
  match (refcountEntry m.refs page false).2 with
  | some i => if (m.refs i).count = 0 then 1 else (m.refs i).count
  | none => 1

/-! ## The allocator as a map of counts -/

def Pmm.count (m : Pmm) (page : Nat) : Nat :=
  value m.refs refcountSlots refcountHash page

def Pmm.Roomy (m : Pmm) : Prop :=
  ∃ i < refcountSlots, (m.refs i).key = none

/-- The allocator between two calls; `reserved` are the frames it never hands out. -/
structure PmmOk (reserved : Nat → Bool) (m : Pmm) : Prop where
  probed : Probed m.refs refcountSlots refcountHash
  keyed : ∀ i < refcountSlots, ∀ page, (m.refs i).key = some page → reserved page = false
  used_iff : ∀ page, m.used page = true ↔ reserved page = true ∨ 0 < m.count page
  reserved_low : ∀ page < lowMemoryPages, reserved page = true
  reserved_beyond : ∀ page, m.managed ≤ page → reserved page = true

variable {reserved : Nat → Bool} {m : Pmm}

theorem refcountSlots_pos : 0 < refcountSlots := by
  decide

variable {page : Nat}

section

variable (h : PmmOk reserved m)
include h

theorem PmmOk.count_reserved (hres : reserved page) : m.count page = 0 := by
  refine value_absent refcountSlots_pos fun i hi hkey => ?_
  rw [h.keyed i hi page hkey] at hres
  cases hres

theorem PmmOk.not_reserved (hcount : 0 < m.count page) : reserved page = false := by
  by_contra hres
  rw [h.count_reserved (by simpa using hres)] at hcount
  exact Nat.lt_irrefl 0 hcount

/-! ## What each call does to the counts -/

theorem refcountEntry_create (hroom : m.Roomy) (page : Nat) :
    ∃ refs i, refcountEntry m.refs page true = (refs, some i) ∧ i < refcountSlots ∧
      Usable m.refs refcountSlots refcountHash page i ∧ (refs i).count = m.count page ∧
      ∀ c, setCount refs (some i) c = update m.refs i ⟨some page, c⟩ := by
  rcases search_cases h.probed hroom page with
    ⟨i, hi, hsearch, hkey⟩ | ⟨i, hi, hsearch, htake, habsent⟩
  · refine ⟨m.refs, i, by simp [refcountEntry, hsearch], hi, .inl hkey, ?_, fun c => ?_⟩
    · exact (value_own h.probed hi hkey).symm
    · simp [setCount, hkey]
  refine ⟨update m.refs i { m.refs i with key := some page }, i,
    by simp [refcountEntry, hsearch], hi, .inr ⟨htake, habsent⟩, ?_, fun c => ?_⟩
  · rw [update_self]
    rw [htake.1, Pmm.count, value_absent refcountSlots_pos habsent]
  · simp [setCount]

theorem refcountEntry_find (hcount : 0 < m.count page) :
    ∃ i, refcountEntry m.refs page false = (m.refs, some i) ∧ i < refcountSlots ∧
      (m.refs i).key = some page ∧ (m.refs i).count = m.count page := by
  by_cases hown : ∃ i < refcountSlots, (m.refs i).key = some page
  · obtain ⟨i, hi, hkey⟩ := hown
    refine ⟨i, ?_, hi, hkey, (value_own h.probed hi hkey).symm⟩
    rw [refcountEntry, search_own h.probed hi hkey]
  · simp only [not_exists, not_and] at hown
    rw [Pmm.count, value_absent refcountSlots_pos hown] at hcount
    exact absurd hcount (Nat.lt_irrefl 0)

/-- Writing one frame's count, and its bit with it. -/
theorem PmmOk.write {i c : Nat} {u : Bool} (m' : Pmm) (hres : reserved page = false)
    (hi : i < refcountSlots) (huse : Usable m.refs refcountSlots refcountHash page i)
    (hrefs : m'.refs = update m.refs i ⟨some page, c⟩) (hused : m'.used = update m.used page u)
    (hu : u ↔ 0 < c) (hmanaged : m'.managed = m.managed) :
    PmmOk reserved m' ∧ m'.count = update m.count page c := by
  have hcount : m'.count = update m.count page c := by
    have hvalue := value_set h.probed hi huse c
    rw [← hrefs] at hvalue
    exact hvalue
  refine ⟨⟨?_, ?_, ?_, h.reserved_low, ?_⟩, hcount⟩
  · rw [hrefs]
    exact h.probed.set hi huse c
  · intro j hj page' hkey
    rw [hrefs] at hkey
    by_cases hji : j = i
    · rw [hji, update_self] at hkey
      cases hkey
      exact hres
    · rw [update_of_ne hji] at hkey
      exact h.keyed j hj page' hkey
  · intro page'
    rw [hused, hcount]
    by_cases hp : page' = page
    · subst hp
      simp [hu, hres]
    · rw [update_of_ne hp, update_of_ne hp]
      exact h.used_iff page'
  · intro page' hbeyond
    exact h.reserved_beyond page' (by omega)

end

theorem firstFree_unused {used : Nat → Bool} {n found : Nat}
    (h : firstFree used page n = some found) : used found = false := by
  induction n generalizing page with
  | zero => simp [firstFree] at h
  | succ n ih =>
    rw [firstFree] at h
    split_ifs at h with hused
    · exact ih h
    · cases h
      simpa using hused

theorem nextFree_unused (h : nextFree m = some page) : m.used page = false := by
  rcases Option.or_eq_some_iff.mp h with hfound | ⟨-, hfound⟩ <;> exact firstFree_unused hfound

section

variable (h : PmmOk reserved m)
include h

theorem allocatePage_cases (hroom : m.Roomy) : allocatePage m = (m, none) ∨
    ∃ m' page, allocatePage m = (m', some page) ∧ PmmOk reserved m' ∧ m'.managed = m.managed ∧
      m.count page = 0 ∧ m'.count = update m.count page 1 := by
  unfold allocatePage
  rcases hnext : nextFree m with _ | page
  · exact .inl rfl
  right
  have hunused := nextFree_unused hnext
  have hnot : ¬ (reserved page ∨ 0 < m.count page) := by
    rw [← h.used_iff, hunused]
    decide
  simp only [not_or, Bool.not_eq_true, Nat.not_lt, Nat.le_zero] at hnot
  have hpage : page ≠ 0 := by
    rintro rfl
    rw [h.reserved_low 0 (by decide)] at hnot
    exact absurd hnot.1 (by decide)
  obtain ⟨refs, i, hentry, hi, huse, -, hset⟩ := refcountEntry_create h hroom page
  simp only [hentry, if_neg hpage]
  refine ⟨_, page, rfl, and_left_comm.mpr ⟨rfl, and_left_comm.mpr ⟨hnot.2, ?_⟩⟩⟩
  exact h.write _ hnot.1 hi huse (hset 1) rfl (by simp) rfl

section

variable (hcount : 0 < m.count page)
include hcount

theorem freePage_spec : PmmOk reserved (freePage m page) ∧ (freePage m page).managed = m.managed ∧
      (freePage m page).count = update m.count page 0 := by
  have hres := h.not_reserved hcount
  have hlow : ¬ page < lowMemoryPages := fun hlow => by
    rw [h.reserved_low page hlow] at hres
    cases hres
  have hbeyond : ¬ m.managed ≤ page := fun hbeyond => by
    rw [h.reserved_beyond page hbeyond] at hres
    cases hres
  have hused : m.used page := (h.used_iff page).mpr (.inr hcount)
  obtain ⟨i, hentry, hi, hkey, -⟩ := refcountEntry_find h hcount
  have hfree : freePage m page = { m with
      used := update m.used page false
      freeCount := m.freeCount + 1
      nextSearch := min page m.nextSearch
      refs := update m.refs i ⟨some page, 0⟩ } := by
    simp [freePage, hlow, hbeyond, hused, hentry, setCount, hkey]
  rw [hfree]
  exact and_left_comm.mpr ⟨rfl, h.write _ hres hi (.inl hkey) rfl rfl (by simp) rfl⟩

theorem refcountDec_spec :
    PmmOk reserved (refcountDec m page) ∧ (refcountDec m page).managed = m.managed ∧
      (refcountDec m page).count = update m.count page (m.count page - 1) := by
  obtain ⟨i, hentry, hi, hkey, hcnt⟩ := refcountEntry_find h hcount
  by_cases hmany : 1 < m.count page
  · have hdec : refcountDec m page =
        { m with refs := update m.refs i ⟨some page, m.count page - 1⟩ } := by
      simp [refcountDec, hentry, hcnt, hmany, setCount, hkey]
    have hused : m.used = update m.used page true := by
      rw [← (h.used_iff page).mpr (.inr hcount), update_eq_self]
    rw [hdec]
    exact and_left_comm.mpr ⟨rfl, h.write _ (h.not_reserved hcount) hi (.inl hkey) rfl hused
      (by simp; omega) rfl⟩
  · have hdec : refcountDec m page = freePage m page := by
      simp [refcountDec, hentry, hcnt, hmany]
    rw [hdec, show m.count page - 1 = 0 by omega]
    exact freePage_spec h hcount

theorem refcountInc_spec (hmax : m.count page < refcountMax) :
    PmmOk reserved (refcountInc m page) ∧ (refcountInc m page).managed = m.managed ∧
      (refcountInc m page).count = update m.count page (m.count page + 1) := by
  obtain ⟨i, hentry, hi, hkey, hcnt⟩ := refcountEntry_find h hcount
  have hcreate : refcountEntry m.refs page true = (m.refs, some i) := by
    rw [refcountEntry, search_own h.probed hi hkey]
  have hinc : refcountInc m page =
      { m with refs := update m.refs i ⟨some page, m.count page + 1⟩ } := by
    simp [refcountInc, hcreate, hcnt, Nat.ne_of_lt hmax, setCount, hkey]
  have hused : m.used = update m.used page true := by
    rw [← (h.used_iff page).mpr (.inr hcount), update_eq_self]
  rw [hinc]
  exact and_left_comm.mpr
    ⟨rfl, h.write _ (h.not_reserved hcount) hi (.inl hkey) rfl hused (by simp) rfl⟩

theorem refcountGet_eq : refcountGet m page = m.count page := by
  obtain ⟨i, hentry, -, -, hcnt⟩ := refcountEntry_find h hcount
  simp [refcountGet, hentry, hcnt, Nat.ne_of_gt hcount]

end

end

end XsCore.Memory
