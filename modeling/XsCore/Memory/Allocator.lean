import XsCore.Foundation.Machine
import XsCore.Memory.State

/-! # The page allocator over whole histories

How the allocator is set up at boot, its calls as the rest of the kernel makes them, on physical
addresses, and what holds after any sequence of them: the free counter is the number of clear bits
of the bitmap, and the search from the hint misses no free page.
-/

namespace XsCore.Memory

open Function List

variable (pages : List Nat)

/-! ## Boot -/

structure MemoryDescriptor where
  type : Nat
  physicalStart : Nat
  numberOfPages : Nat

def conventionalMemory : Nat := 7

def blankPmm (managed : Nat) : Pmm where
  used := fun _ => true
  managed := managed
  freeCount := 0
  nextSearch := lowMemoryPages
  refs := fun _ => ⟨none, 0⟩

def markFree (m : Pmm) (page : Nat) : Pmm :=
  if m.used page then
    { m with used := update m.used page false, freeCount := m.freeCount + 1 }
  else m

def markRangeFree (m : Pmm) (physicalStart pageCount : Nat) : Pmm :=
  let first := physicalStart / pageSize
  if m.managed ≤ first then m
  else (range' first (min pageCount (m.managed - first))).foldl markFree m

def reservePage (m : Pmm) (page : Nat) : Pmm :=
  if m.managed ≤ page ∨ m.used page = true then m
  else { m with used := update m.used page true, freeCount := m.freeCount - 1 }

def reserveRange (m : Pmm) (start stop : Nat) : Pmm :=
  if stop ≤ start then m
  else
    let first := start / pageSize
    let last := (stop + pageSize - 1) % 2 ^ 64 / pageSize
    (range' first (last - first)).foldl reservePage m

/-- The end of the highest conventional range; ranges that leave the address space are skipped. -/
def highestAddress (descriptors : List MemoryDescriptor) : Nat :=
  descriptors.foldl (fun highest d =>
    if d.type ≠ conventionalMemory ∨ (2 ^ 64 - 1 - d.physicalStart) / pageSize < d.numberOfPages
    then highest
    else max highest (d.physicalStart + d.numberOfPages * pageSize)) 0

/-- `xscore_pmm_initialize`; `textStart` and `kernelEnd` are the linker's bounds of the kernel. -/
def pmmInitialize (descriptors : List MemoryDescriptor) (textStart kernelEnd : Nat) : Option Pmm :=
  let managed := min (highestAddress descriptors) (maxPageCount * pageSize) / pageSize
  if managed = 0 then none
  else
    let released := (descriptors.filter (·.type = conventionalMemory)).foldl
      (fun m d => markRangeFree m d.physicalStart d.numberOfPages) (blankPmm managed)
    let low := (range lowMemoryPages).foldl reservePage released
    let m := reserveRange low textStart kernelEnd
    if m.freeCount = 0 then none else some m

def pmmInitDirect (memoryBytes reservedEnd : Nat) : Option Pmm :=
  let managed := min (memoryBytes / pageSize) maxPageCount
  if managed = 0 then none
  else
    let released :=
      if lowMemoryPages < managed then
        markRangeFree (blankPmm managed) (lowMemoryPages * pageSize) (managed - lowMemoryPages)
      else blankPmm managed
    some (reserveRange released (lowMemoryPages * pageSize) reservedEnd)

inductive Boot where
  | firmware (descriptors : List MemoryDescriptor) (textStart kernelEnd : Nat)
  | direct (memoryBytes reservedEnd : Nat)

def Boot.start : Boot → Option Pmm
  | .firmware descriptors textStart kernelEnd => pmmInitialize descriptors textStart kernelEnd
  | .direct memoryBytes reservedEnd => pmmInitDirect memoryBytes reservedEnd

/-! ## The calls -/

/-- `xscore_pmm_allocate_page`; zero is failure. -/
def pmmAllocatePage (m : Pmm) : Pmm × Nat :=
  ((allocatePage m).1, (allocatePage m).2.elim 0 (· * pageSize))

/-- `xscore_pmm_free_page`, and whether it freed the page. -/
def pmmFreePage (m : Pmm) (address : Nat) : Pmm × Bool :=
  if address % pageSize ≠ 0 then (m, false)
  else (freePage m (address / pageSize),
    decide (lowMemoryPages ≤ address / pageSize ∧ address / pageSize < m.managed) &&
      m.used (address / pageSize))

def pmmRefcountInc (m : Pmm) (address : Nat) : Pmm :=
  refcountInc m (address / pageSize)

def refcountShared (m : Pmm) (page : Nat) : Bool :=
  (refcountEntry m.refs page false).2.any fun i => decide (1 < (m.refs i).count)

def pmmRefcountDec (m : Pmm) (address : Nat) : Pmm × Bool :=
  if refcountShared m (address / pageSize) then (refcountDec m (address / pageSize), true)
  else pmmFreePage m address

inductive Call where
  | allocate
  | free (address : Nat)
  | increment (address : Nat)
  | decrement (address : Nat)

/-- The allocator together with the pages it handed out that have not been freed since. -/
structure Allocator where
  pmm : Pmm
  held : List Nat

/-- A release that went through takes the page from its holders. -/
def Allocator.afterFree (s : Allocator) (address : Nat) : Allocator where
  pmm := (pmmFreePage s.pmm address).1
  held := if (pmmFreePage s.pmm address).2 then s.held.filter (· ≠ address / pageSize) else s.held

def Allocator.step (s : Allocator) : Call → Allocator
  | .allocate =>
    { pmm := (pmmAllocatePage s.pmm).1
      held :=
        if (pmmAllocatePage s.pmm).2 = 0 then s.held
        else (pmmAllocatePage s.pmm).2 / pageSize :: s.held }
  | .free address => s.afterFree address
  | .increment address => { s with pmm := pmmRefcountInc s.pmm address }
  | .decrement address =>
    if refcountShared s.pmm (address / pageSize) then
      { s with pmm := (pmmRefcountDec s.pmm address).1 }
    else s.afterFree address

/-! ## The free counter -/

def freePages (m : Pmm) : Finset Nat :=
  (Finset.range m.managed).filter fun page => m.used page = false

variable {page : Nat}

theorem mem_freePages {m : Pmm} : page ∈ freePages m ↔ page < m.managed ∧ m.used page = false := by
  simp [freePages]

structure Counted (m : Pmm) : Prop where
  free : m.freeCount = (freePages m).card
  beyond : ∀ page, m.managed ≤ page → m.used page = true
  bounded : m.managed ≤ maxPageCount

variable {m : Pmm}

section

variable (h : Counted m)
include h

theorem Counted.take (hfree : page ∈ freePages m) (m' : Pmm)
    (hused : m'.used = update m.used page true) (hmanaged : m'.managed = m.managed)
    (hcount : m'.freeCount = m.freeCount - 1) : Counted m' := by
  have hpages : freePages m' = (freePages m).erase page := by
    ext other
    rw [Finset.mem_erase, mem_freePages, mem_freePages, hused, hmanaged]
    by_cases hother : other = page <;> simp [hother]
  constructor
  · rw [hpages, Finset.card_erase_of_mem hfree, hcount, h.free]
  · intro other hother
    rw [hused]
    by_cases hsame : other = page
    · rw [hsame, update_self]
    · rw [update_of_ne hsame]
      exact h.beyond other (hmanaged ▸ hother)
  · exact hmanaged ▸ h.bounded

theorem Counted.give (hpage : page < m.managed) (hinuse : m.used page)
    (m' : Pmm) (hused : m'.used = update m.used page false)
    (hmanaged : m'.managed = m.managed) (hcount : m'.freeCount = m.freeCount + 1) : Counted m' := by
  have hpages : freePages m' = insert page (freePages m) := by
    ext other
    rw [Finset.mem_insert, mem_freePages, mem_freePages, hused, hmanaged]
    by_cases hother : other = page
    · simp [hother, hpage]
    · simp [hother]
  have habsent : page ∉ freePages m := by
    rw [mem_freePages, hinuse]
    simp
  constructor
  · rw [hpages, Finset.card_insert_of_notMem habsent, hcount, h.free]
  · intro other hother
    have hne : other ≠ page := by omega
    rw [hused, update_of_ne hne]
    exact h.beyond other (hmanaged ▸ hother)
  · exact hmanaged ▸ h.bounded

theorem markFree_counted (hpage : page < m.managed) :
    Counted (markFree m page) ∧ (markFree m page).managed = m.managed := by
  unfold markFree
  split_ifs with hused
  · exact ⟨h.give hpage hused _ rfl rfl rfl, rfl⟩
  · exact ⟨h, rfl⟩

theorem reservePage_counted (page : Nat) :
    Counted (reservePage m page) ∧ (reservePage m page).managed = m.managed := by
  unfold reservePage
  split_ifs with hskip
  · exact ⟨h, rfl⟩
  · simp only [not_or, Nat.not_le, Bool.not_eq_true] at hskip
    exact ⟨h.take (mem_freePages.mpr hskip) _ rfl rfl rfl, rfl⟩

theorem foldl_markFree_counted (hpages : ∀ page ∈ pages, page < m.managed) :
    Counted (pages.foldl markFree m) ∧ (pages.foldl markFree m).managed = m.managed := by
  refine foldlRecOn (motive := fun m' => Counted m' ∧ m'.managed = m.managed) pages markFree ⟨h, rfl⟩
    fun m' hm' page hpage => ?_
  have hstep := markFree_counted hm'.1 (hm'.2.symm ▸ hpages page hpage)
  exact ⟨hstep.1, hstep.2.trans hm'.2⟩

theorem markRangeFree_counted (physicalStart pageCount : Nat) :
    Counted (markRangeFree m physicalStart pageCount) ∧
      (markRangeFree m physicalStart pageCount).managed = m.managed := by
  unfold markRangeFree
  dsimp only
  split_ifs with hfirst
  · exact ⟨h, rfl⟩
  refine foldl_markFree_counted _ h fun page hpage => ?_
  rw [mem_range'_1] at hpage
  omega

theorem foldl_reservePage_counted : Counted (pages.foldl reservePage m) :=
  pages.foldlRecOn reservePage h fun _ hm' page _ => (reservePage_counted hm' page).1

theorem reserveRange_counted (start stop : Nat) : Counted (reserveRange m start stop) := by
  unfold reserveRange
  split_ifs
  · exact h
  · exact foldl_reservePage_counted _ h

end

theorem blankPmm_counted {managed : Nat} (hbound : managed ≤ maxPageCount) :
    Counted (blankPmm managed) where
  free := by
    have hnone : freePages (blankPmm managed) = ∅ := by
      ext page
      simp [mem_freePages, blankPmm]
    rw [hnone]
    rfl
  beyond := fun _ _ => rfl
  bounded := hbound

/-! ## Low memory, the hint and the empty table -/

/-- What boot leaves beside the bitmap and its counter. -/
structure Prepared (m : Pmm) : Prop where
  low : ∀ page < lowMemoryPages, m.used page = true
  hint : m.nextSearch = lowMemoryPages
  refs : m.refs = fun _ => ⟨none, 0⟩

/-- `m'` differs from `m` by bits of the bitmap that were set, and the counter. -/
structure Reserves (m m' : Pmm) : Prop where
  used : ∀ page, m.used page = true → m'.used page = true
  hint : m'.nextSearch = m.nextSearch
  refs : m'.refs = m.refs

theorem Reserves.refl (m : Pmm) : Reserves m m := ⟨fun _ h => h, rfl, rfl⟩

theorem Reserves.trans {m₁ m₂ m₃ : Pmm} (h : Reserves m₁ m₂) (h' : Reserves m₂ m₃) :
    Reserves m₁ m₃ :=
  ⟨fun page hused => h'.used page (h.used page hused), h'.hint.trans h.hint, h'.refs.trans h.refs⟩

theorem reservePage_reserves (m : Pmm) (page : Nat) : Reserves m (reservePage m page) := by
  unfold reservePage
  split_ifs
  · exact .refl m
  refine ⟨fun other hother => ?_, rfl, rfl⟩
  by_cases hsame : other = page
  · simp [hsame]
  · simpa [hsame] using hother

theorem foldl_reservePage_reserves (m : Pmm) (pages : List Nat) :
    Reserves m (pages.foldl reservePage m) :=
  pages.foldlRecOn reservePage (.refl m) fun _ h page _ => h.trans (reservePage_reserves _ page)

theorem reserveRange_reserves (m : Pmm) (start stop : Nat) :
    Reserves m (reserveRange m start stop) := by
  unfold reserveRange
  split_ifs
  · exact .refl m
  · exact foldl_reservePage_reserves m _

theorem Prepared.reserves {m' : Pmm} (h : Prepared m) (hres : Reserves m m') : Prepared m' :=
  ⟨fun page hpage => hres.used page (h.low page hpage), hres.hint.trans h.hint,
    hres.refs.trans h.refs⟩

theorem reservePage_used (h : Counted m) (page : Nat) : (reservePage m page).used page := by
  unfold reservePage
  split_ifs with hskip
  · rcases hskip with hbeyond | hused
    · exact h.beyond page hbeyond
    · exact hused
  · simp

theorem foldl_reservePage_used (h : Counted m) (hpage : page ∈ pages) :
    (pages.foldl reservePage m).used page := by
  induction pages generalizing m with
  | nil => simp at hpage
  | cons first pages ih =>
    rcases mem_cons.mp hpage with hfirst | hrest
    · rw [foldl_cons, hfirst]
      exact (foldl_reservePage_reserves _ pages).used first (reservePage_used h first)
    · exact ih (reservePage_counted h first).1 hrest

theorem prepared_low (h : Counted m) (hhint : m.nextSearch = lowMemoryPages)
    (hrefs : m.refs = fun _ => ⟨none, 0⟩) :
    Prepared ((range lowMemoryPages).foldl reservePage m) := by
  generalize hpages : range lowMemoryPages = pages
  have hframe := foldl_reservePage_reserves m pages
  refine ⟨fun page hpage => foldl_reservePage_used pages h ?_, hframe.hint.trans hhint,
    hframe.refs.trans hrefs⟩
  rw [← hpages]
  exact mem_range.mpr hpage

theorem foldl_markFree_frame (m : Pmm) : (pages.foldl markFree m).nextSearch = m.nextSearch ∧
      (pages.foldl markFree m).refs = m.refs ∧
      ∀ page, page ∉ pages → (pages.foldl markFree m).used page = m.used page := by
  refine foldlRecOn (motive := fun m' => m'.nextSearch = m.nextSearch ∧ m'.refs = m.refs ∧
    ∀ page, page ∉ pages → m'.used page = m.used page) pages markFree ⟨rfl, rfl, fun _ _ => rfl⟩
    fun m' h first hfirst => ?_
  unfold markFree
  split_ifs
  · refine ⟨h.1, h.2.1, fun page hpage => ?_⟩
    rw [← h.2.2 page hpage]
    exact update_of_ne (ne_of_mem_of_not_mem hfirst hpage).symm _ _
  · exact h

theorem markRangeFree_frame (m : Pmm) (physicalStart pageCount : Nat) :
    (markRangeFree m physicalStart pageCount).nextSearch = m.nextSearch ∧
      (markRangeFree m physicalStart pageCount).refs = m.refs ∧
      ∀ page < physicalStart / pageSize,
        (markRangeFree m physicalStart pageCount).used page = m.used page := by
  unfold markRangeFree
  dsimp only
  split_ifs with hfirst
  · exact ⟨rfl, rfl, fun _ _ => rfl⟩
  have hframe := foldl_markFree_frame
    (range' (physicalStart / pageSize)
      (min pageCount (m.managed - physicalStart / pageSize))) m
  refine ⟨hframe.1, hframe.2.1, fun page hpage => hframe.2.2 page fun hmem => ?_⟩
  rw [mem_range'_1] at hmem
  omega

theorem foldl_markRangeFree (descriptors : List MemoryDescriptor) (h : Counted m) :
    let m' := descriptors.foldl (fun m d => markRangeFree m d.physicalStart d.numberOfPages) m
    Counted m' ∧ m'.nextSearch = m.nextSearch ∧ m'.refs = m.refs := by
  refine foldlRecOn (motive := fun m' => Counted m' ∧ m'.nextSearch = m.nextSearch ∧ m'.refs = m.refs)
    descriptors _ ⟨h, rfl, rfl⟩ fun m' hm' d _ => ?_
  have hframe := markRangeFree_frame m' d.physicalStart d.numberOfPages
  exact ⟨(markRangeFree_counted hm'.1 d.physicalStart d.numberOfPages).1,
    hframe.1.trans hm'.2.1, hframe.2.1.trans hm'.2.2⟩

theorem pmmInitialize_ok {descriptors : List MemoryDescriptor} {textStart kernelEnd : Nat}
    (h : pmmInitialize descriptors textStart kernelEnd = some m) : Counted m ∧ Prepared m := by
  unfold pmmInitialize at h
  extract_lets managed released low kernel at h
  by_cases hzero : managed = 0
  · simp [hzero] at h
  rw [if_neg hzero] at h
  by_cases hnone : kernel.freeCount = 0
  · simp [hnone] at h
  rw [if_neg hnone] at h
  obtain rfl := Option.some.inj h
  have hbound : managed ≤ maxPageCount :=
    Nat.div_le_of_le_mul (Nat.mul_comm maxPageCount pageSize ▸ Nat.min_le_right _ _)
  have hreleased := foldl_markRangeFree
    (descriptors.filter (·.type = conventionalMemory)) (blankPmm_counted hbound)
  have hlow := foldl_reservePage_counted (range lowMemoryPages) hreleased.1
  have hprepared := prepared_low hreleased.1 hreleased.2.1 hreleased.2.2
  exact ⟨reserveRange_counted hlow _ _, hprepared.reserves (reserveRange_reserves _ _ _)⟩

theorem pmmInitDirect_ok {memoryBytes reservedEnd : Nat}
    (h : pmmInitDirect memoryBytes reservedEnd = some m) : Counted m ∧ Prepared m := by
  unfold pmmInitDirect at h
  extract_lets managed released at h
  by_cases hzero : managed = 0
  · simp [hzero] at h
  rw [if_neg hzero] at h
  cases h
  have hblank : Counted (blankPmm managed) := blankPmm_counted (Nat.min_le_right _ _)
  have hreleased : Counted released ∧ Prepared released := by
    by_cases hlow : lowMemoryPages < managed
    · have hframe := markRangeFree_frame (blankPmm managed) (lowMemoryPages * pageSize)
        (managed - lowMemoryPages)
      simp only [released, if_pos hlow]
      refine ⟨(markRangeFree_counted hblank _ _).1, fun page hpage => ?_, hframe.1, hframe.2.1⟩
      rw [hframe.2.2 page (by rwa [Nat.mul_div_cancel _ (by decide : 0 < pageSize)])]
      rfl
    · simp only [released, if_neg hlow]
      exact ⟨hblank, fun _ _ => rfl, rfl, rfl⟩
  exact ⟨reserveRange_counted hreleased.1 _ _, hreleased.2.reserves (reserveRange_reserves _ _ _)⟩

theorem Boot.start_ok {boot : Boot} (h : boot.start = some m) : Counted m ∧ Prepared m := by
  cases boot with
  | firmware descriptors textStart kernelEnd => exact pmmInitialize_ok h
  | direct memoryBytes reservedEnd => exact pmmInitDirect_ok h

/-! ## The search -/

theorem firstFree_none {used : Nat → Bool} {n : Nat} (h : firstFree used page n = none) :
    ∀ other, page ≤ other → other < page + n → used other := by
  induction n generalizing page with
  | zero =>
    intro other hlow hhigh
    omega
  | succ n ih =>
    intro other hlow hhigh
    rw [firstFree] at h
    split_ifs at h with hused
    by_cases hsame : other = page
    · rw [hsame, hused]
    · exact ih h other (by omega) (by omega)

theorem nextFree_none (h : nextFree m = none) : ∀ page < maxPageCount, m.used page := by
  unfold nextFree at h
  rw [Option.or_eq_none_iff] at h
  intro page hpage
  by_cases hstart : page < m.nextSearch / 64 * 64
  · exact firstFree_none h.2 page (Nat.zero_le page) (by omega)
  · exact firstFree_none h.1 page (by omega) (by omega)

/-! ## Histories -/

structure HistoryOk (s : Allocator) : Prop where
  counted : Counted s.pmm
  low : ∀ page < lowMemoryPages, s.pmm.used page = true
  hint : s.pmm.nextSearch ≤ maxPageCount
  held : ∀ page ∈ s.held, s.pmm.used page = true

theorem nextFree_spec (h : Counted m) (hlow : ∀ page < lowMemoryPages, m.used page)
    (hnext : nextFree m = some page) : page ∈ freePages m ∧ lowMemoryPages ≤ page := by
  have hunused := nextFree_unused hnext
  constructor
  · rw [mem_freePages]
    refine ⟨?_, hunused⟩
    by_contra hbeyond
    rw [h.beyond page (by omega)] at hunused
    cases hunused
  · by_contra hbelow
    rw [hlow page (by omega)] at hunused
    cases hunused

theorem page_address_ne_zero (h : lowMemoryPages ≤ page) : page * pageSize ≠ 0 := by
  have hlow : 0 < lowMemoryPages := by decide
  have hsize : 0 < pageSize := by decide
  exact (Nat.mul_pos (hlow.trans_le h) hsize).ne'

theorem pmmAllocatePage_cases (h : Counted m) (hlow : ∀ page < lowMemoryPages, m.used page) :
    (pmmAllocatePage m = (m, 0) ∧ ∀ page < m.managed, m.used page) ∨
    ∃ m' page, pmmAllocatePage m = (m', page * pageSize) ∧ page ∈ freePages m ∧
      lowMemoryPages ≤ page ∧ m'.used = update m.used page true ∧
      m'.managed = m.managed ∧ m'.freeCount = m.freeCount - 1 ∧ m'.nextSearch = page + 1 := by
  rcases hnext : nextFree m with _ | page
  · left
    refine ⟨by simp [pmmAllocatePage, allocatePage, hnext], fun page hpage => ?_⟩
    exact nextFree_none hnext page (hpage.trans_le h.bounded)
  right
  have hfound := nextFree_spec h hlow hnext
  have hpage : page ≠ 0 := by
    have : lowMemoryPages = 256 := rfl
    omega
  exact ⟨(allocatePage m).1, page, by simp [pmmAllocatePage, allocatePage, hnext, hpage],
    hfound.1, hfound.2, by simp [allocatePage, hnext], by simp [allocatePage, hnext],
    by simp [allocatePage, hnext], by simp [allocatePage, hnext]⟩

/-- What a free does: nothing, or it clears the bit of a managed page in use. -/
theorem pmmFreePage_cases (m : Pmm) (address : Nat) : pmmFreePage m address = (m, false) ∨
    ∃ m', pmmFreePage m address = (m', true) ∧ address % pageSize = 0 ∧
      lowMemoryPages ≤ address / pageSize ∧ address / pageSize < m.managed ∧
      m.used (address / pageSize) ∧
      m'.used = update m.used (address / pageSize) false ∧ m'.managed = m.managed ∧
      m'.freeCount = m.freeCount + 1 ∧ m'.nextSearch ≤ m.nextSearch := by
  unfold pmmFreePage
  by_cases halign : address % pageSize ≠ 0
  · exact .inl (if_pos halign)
  rw [if_neg halign]
  generalize address / pageSize = page
  by_cases hskip : page < lowMemoryPages ∨ m.managed ≤ page ∨ m.used page = false
  · left
    have hrefused : (decide (lowMemoryPages ≤ page ∧ page < m.managed) && m.used page) = false := by
      rw [Bool.and_eq_false_iff, decide_eq_false_iff_not]
      rcases hskip with hlow | hbeyond | hunused
      · exact .inl (by omega)
      · exact .inl (by omega)
      · exact .inr hunused
    rw [freePage, if_pos hskip, hrefused]
  · right
    have hkeep := hskip
    simp only [not_or, Nat.not_lt, Nat.not_le, Bool.not_eq_false] at hskip
    refine ⟨freePage m page, ?_, not_not.mp halign, hskip.1, hskip.2.1, hskip.2.2, ?_⟩
    · simp [hskip.1, hskip.2.1, hskip.2.2]
    · simp only [freePage, if_neg hkeep, true_and]
      exact Nat.min_le_right _ _

theorem refcountInc_frame (m : Pmm) (page : Nat) :
    (refcountInc m page).used = m.used ∧ (refcountInc m page).managed = m.managed ∧
      (refcountInc m page).freeCount = m.freeCount ∧
      (refcountInc m page).nextSearch = m.nextSearch := by
  unfold refcountInc
  cases hentry : (refcountEntry m.refs page true).2 with
  | none => simp [hentry]
  | some i =>
    by_cases hmax : ((refcountEntry m.refs page true).1 i).count = refcountMax <;>
      simp [hentry, hmax]

theorem refcountDec_shared (h : refcountShared m page) :
    (refcountDec m page).used = m.used ∧ (refcountDec m page).managed = m.managed ∧
      (refcountDec m page).freeCount = m.freeCount ∧
      (refcountDec m page).nextSearch = m.nextSearch := by
  unfold refcountShared at h
  unfold refcountDec
  cases hentry : (refcountEntry m.refs page false).2 with
  | none => simp [hentry] at h
  | some i =>
    have hmany : 1 < (m.refs i).count := by simpa [hentry] using h
    simp [hmany]

variable {s : Allocator}

section

variable (h : HistoryOk s)
include h

theorem HistoryOk.frame {m' : Pmm}
    (hm : m'.used = s.pmm.used ∧ m'.managed = s.pmm.managed ∧ m'.freeCount = s.pmm.freeCount ∧
      m'.nextSearch = s.pmm.nextSearch) : HistoryOk { s with pmm := m' } := by
  have hpages : freePages m' = freePages s.pmm := by simp [freePages, hm.1, hm.2.1]
  refine ⟨⟨?_, ?_, hm.2.1 ▸ h.counted.bounded⟩, ?_, hm.2.2.2 ▸ h.hint, ?_⟩
  · rw [hpages, hm.2.2.1]
    exact h.counted.free
  · rw [hm.1, hm.2.1]
    exact h.counted.beyond
  · rw [hm.1]
    exact h.low
  · rw [hm.1]
    exact h.held

theorem HistoryOk.allocate : HistoryOk (s.step .allocate) := by
  rcases pmmAllocatePage_cases h.counted h.low with ⟨hnone, -⟩ | ⟨m', page, hsome, hpage⟩
  · simpa [Allocator.step, hnone] using h
  obtain ⟨hfree, hlow, hused, hmanaged, hcount, hhint⟩ := hpage
  have hpositive := page_address_ne_zero hlow
  have hstep : s.step .allocate = ⟨m', page :: s.held⟩ := by
    simp only [Allocator.step, hsome, if_neg hpositive]
    rw [Nat.mul_div_cancel page (by decide : 0 < pageSize)]
  have hkept : ∀ other, s.pmm.used other → m'.used other := by
    intro other hother
    rw [hused]
    by_cases hsame : other = page
    · rw [hsame, update_self]
    · rw [update_of_ne hsame, hother]
  rw [hstep]
  refine ⟨h.counted.take hfree m' hused hmanaged hcount, ?_, ?_, ?_⟩
  · exact fun other hother => hkept other (h.low other hother)
  · have hbelow := (mem_freePages.mp hfree).1
    rw [hhint]
    exact Nat.le_trans hbelow h.counted.bounded
  · intro other hother
    rcases mem_cons.mp hother with hsame | hold
    · rw [hsame, hused, update_self]
    · exact hkept other (h.held other hold)

theorem HistoryOk.afterFree (address : Nat) : HistoryOk (s.afterFree address) := by
  rcases pmmFreePage_cases s.pmm address with hnone | ⟨m', hsome, -, hlow, hpage, hinuse, hrest⟩
  · simpa [Allocator.afterFree, hnone] using h
  obtain ⟨hused, hmanaged, hcount, hhint⟩ := hrest
  have hstep : s.afterFree address = ⟨m', s.held.filter (· ≠ address / pageSize)⟩ := by
    simp [Allocator.afterFree, hsome]
  rw [hstep]
  refine ⟨h.counted.give hpage hinuse m' hused hmanaged hcount, ?_, hhint.trans h.hint, ?_⟩
  · intro other hother
    rw [hused, update_of_ne (by omega)]
    exact h.low other hother
  · intro other hother
    have hmem : other ∈ s.held ∧ other ≠ address / pageSize := by simpa using hother
    rw [hused, update_of_ne hmem.2]
    exact h.held other hmem.1

theorem HistoryOk.step (call : Call) : HistoryOk (s.step call) := by
  cases call with
  | allocate => exact h.allocate
  | free address => exact h.afterFree address
  | increment address => exact h.frame (refcountInc_frame s.pmm (address / pageSize))
  | decrement address =>
    by_cases hshared : refcountShared s.pmm (address / pageSize)
    · have hdec : (pmmRefcountDec s.pmm address).1 = refcountDec s.pmm (address / pageSize) := by
        simp [pmmRefcountDec, hshared]
      simp only [Allocator.step, if_pos hshared, hdec]
      exact h.frame (refcountDec_shared hshared)
    · simp only [Allocator.step, if_neg hshared]
      exact h.afterFree address

theorem HistoryOk.run (calls : List Call) : HistoryOk (Machine.run Allocator.step s calls) :=
  Machine.run_invariant HistoryOk (fun _ call h => h.step call) h calls

end

theorem Boot.history_ok {boot : Boot} (h : boot.start = some m) : HistoryOk ⟨m, []⟩ := by
  have hok := boot.start_ok h
  refine ⟨hok.1, hok.2.low, ?_, fun page hpage => absurd hpage (by simp)⟩
  rw [hok.2.hint]
  decide

theorem HistoryOk.hint_irrelevant (h : HistoryOk s) {hint : Nat}
    (hfail : (pmmAllocatePage { s.pmm with nextSearch := hint }).2 = 0) :
    ∀ page < s.pmm.managed, s.pmm.used page := by
  have hcounted : Counted { s.pmm with nextSearch := hint } :=
    ⟨h.counted.free, h.counted.beyond, h.counted.bounded⟩
  rcases pmmAllocatePage_cases hcounted h.low with ⟨-, hall⟩ | ⟨m', page, hsome, -, hlow, -⟩
  · exact hall
  · rw [hsome] at hfail
    exact absurd hfail (page_address_ne_zero hlow)

/-- The allocator after any history of calls since boot.  Its counter is the number of free
pages; an allocation that succeeds returns a free page that nobody holds; one that fails finds no
page free, wherever the hint points; and freeing what is not allocated changes nothing. -/
theorem allocator_history (boot : Boot) (m : Pmm) (hboot : boot.start = some m)
    (calls : List Call) :
    let s := Machine.run Allocator.step ⟨m, []⟩ calls
    s.pmm.freeCount = (freePages s.pmm).card ∧
    ((pmmAllocatePage s.pmm).2 ≠ 0 →
      ∃ page ∈ freePages s.pmm, (pmmAllocatePage s.pmm).2 = page * pageSize ∧ page ∉ s.held) ∧
    (∀ hint ≤ maxPageCount,
      (pmmAllocatePage { s.pmm with nextSearch := hint }).2 = 0 → freePages s.pmm = ∅) ∧
    (∀ address, address % pageSize ≠ 0 ∨ s.pmm.managed ≤ address / pageSize ∨
        s.pmm.used (address / pageSize) = false →
      pmmFreePage s.pmm address = (s.pmm, false)) := by
  intro s
  have hok : HistoryOk s := (boot.history_ok hboot).run calls
  refine ⟨hok.counted.free, ?_, ?_, ?_⟩
  · intro hsuccess
    rcases pmmAllocatePage_cases hok.counted hok.low with ⟨hnone, -⟩ | ⟨m', page, hsome, hfree, -⟩
    · exact absurd (by rw [hnone]) hsuccess
    refine ⟨page, hfree, by rw [hsome], fun hheld => ?_⟩
    have hunused := (mem_freePages.mp hfree).2
    rw [hok.held page hheld] at hunused
    cases hunused
  · intro hint _ hfail
    have hall := hok.hint_irrelevant hfail
    refine Finset.eq_empty_of_forall_notMem fun page hpage => ?_
    have hfree := mem_freePages.mp hpage
    rw [hall page hfree.1] at hfree
    exact absurd hfree.2 (by decide)
  · intro address hbad
    rcases pmmFreePage_cases s.pmm address with hnone | ⟨m', -, halign, -, hpage, hinuse, -⟩
    · exact hnone
    rcases hbad with hunaligned | hbeyond | hunused
    · exact absurd halign hunaligned
    · omega
    · rw [hinuse] at hunused
      cases hunused

/-- A machine with a megabyte and one page of memory comes up with that page free. -/
theorem allocator_history_small : ((Boot.direct (257 * 4096) 0).start).isSome = true ∧
    ∃ m, (Boot.direct (257 * 4096) 0).start = some m ∧
      (Machine.run Allocator.step ⟨m, []⟩ [.allocate, .free 0x100000]).pmm.freeCount =
        (freePages (Machine.run Allocator.step ⟨m, []⟩ [.allocate, .free 0x100000]).pmm).card := by
  have hsome : ((Boot.direct (257 * 4096) 0).start).isSome := rfl
  obtain ⟨m, hm⟩ := Option.isSome_iff_exists.mp hsome
  exact ⟨hsome, m, hm,
    (allocator_history (.direct (257 * 4096) 0) m hm [.allocate, .free 0x100000]).1⟩

end XsCore.Memory
