import XsCore.Memory.Allocator

/-! # The table of reference counts against the map it stands for

The true number of references to each page is what the calls so far add up to.  The table gives it
back as long as callers touch only pages they hold, no page collects more references than a count
can hold, and the table still has an entry that was never used.
-/

namespace XsCore.Memory

open ProbeTable Function Machine

variable {address page : Nat}

/-- The allocator together with the references outstanding to each page. -/
structure Referenced where
  pmm : Pmm
  refs : Nat → Nat

def Referenced.step (s : Referenced) : Call → Referenced
  | .allocate =>
    { pmm := (pmmAllocatePage s.pmm).1
      refs :=
        if (pmmAllocatePage s.pmm).2 = 0 then s.refs
        else update s.refs ((pmmAllocatePage s.pmm).2 / pageSize) 1 }
  | .free address =>
    { pmm := (pmmFreePage s.pmm address).1
      refs := update s.refs (address / pageSize) 0 }
  | .increment address =>
    { pmm := pmmRefcountInc s.pmm address
      refs := update s.refs (address / pageSize) (s.refs (address / pageSize) + 1) }
  | .decrement address =>
    { pmm := (pmmRefcountDec s.pmm address).1
      refs := update s.refs (address / pageSize) (s.refs (address / pageSize) - 1) }

/-- Callers name pages they hold, counts stay within sixteen bits, and the table is not full. -/
def Referenced.Fits (s : Referenced) : Call → Prop
  | .allocate => s.pmm.Roomy
  | .free address => address % pageSize = 0 ∧ 0 < s.refs (address / pageSize)
  | .increment address =>
    0 < s.refs (address / pageSize) ∧ s.refs (address / pageSize) < refcountMax
  | .decrement address => address % pageSize = 0 ∧ 0 < s.refs (address / pageSize)

structure Exact (reserved : Nat → Bool) (s : Referenced) : Prop where
  ok : PmmOk reserved s.pmm
  count : s.pmm.count = s.refs

variable {reserved : Nat → Bool} {m : Pmm} {s : Referenced}

theorem pmmFreePage_aligned (h : address % pageSize = 0) :
    (pmmFreePage m address).1 = freePage m (address / pageSize) := by
  simp [pmmFreePage, h]

theorem pmmRefcountDec_aligned (h : address % pageSize = 0) :
    (pmmRefcountDec m address).1 = refcountDec m (address / pageSize) := by
  unfold pmmRefcountDec
  split_ifs with hshared
  · rfl
  rw [pmmFreePage_aligned h]
  unfold refcountShared at hshared
  unfold refcountDec
  cases hentry : (refcountEntry m.refs (address / pageSize) false).2 with
  | none => rfl
  | some i =>
    have hfew : ¬ 1 < (m.refs i).count := by simpa [hentry] using hshared
    simp only [if_neg hfew]

theorem Exact.allocate (h : Exact reserved s) (hroom : s.pmm.Roomy) :
    Exact reserved (s.step .allocate) := by
  rcases allocatePage_cases h.ok hroom with hnone | ⟨m', page, hsome, hok, -, -, hcount⟩
  · simpa [Referenced.step, pmmAllocatePage, hnone] using h
  have hpage : page * pageSize ≠ 0 := by
    refine page_address_ne_zero ?_
    by_contra hlow
    have hfree : reserved page = false := hok.not_reserved (by rw [hcount]; simp)
    rw [hok.reserved_low page (by omega)] at hfree
    cases hfree
  have hstep : s.step .allocate = ⟨m', update s.refs page 1⟩ := by
    simp only [Referenced.step, pmmAllocatePage, hsome, Option.elim_some, if_neg hpage]
    rw [Nat.mul_div_cancel page (by decide : 0 < pageSize)]
  rw [hstep]
  exact ⟨hok, by rw [hcount, h.count]⟩

theorem Exact.step (h : Exact reserved s) (call : Call) (hfits : s.Fits call) :
    Exact reserved (s.step call) := by
  cases call with
  | allocate => exact h.allocate hfits
  | free address =>
    have hspec := freePage_spec h.ok (by rw [h.count]; exact hfits.2)
    rw [← pmmFreePage_aligned hfits.1, h.count] at hspec
    exact ⟨hspec.1, hspec.2.2⟩
  | increment address =>
    have hpos : 0 < s.pmm.count (address / pageSize) := by rw [h.count]; exact hfits.1
    have hmax : s.pmm.count (address / pageSize) < refcountMax := by rw [h.count]; exact hfits.2
    have hspec := refcountInc_spec h.ok hpos hmax
    rw [h.count] at hspec
    exact ⟨hspec.1, hspec.2.2⟩
  | decrement address =>
    have hspec := refcountDec_spec h.ok (by rw [h.count]; exact hfits.2)
    rw [← pmmRefcountDec_aligned hfits.1, h.count] at hspec
    exact ⟨hspec.1, hspec.2.2⟩

theorem Exact.run (h : Exact reserved s) {calls : List Call}
    (hfits : Guarded Referenced.step Referenced.Fits s calls) :
    Exact reserved (Machine.run Referenced.step s calls) :=
  hfits.invariant (Exact reserved) (fun _ call hs hcall => hs.step call hcall) h

/-- A freshly booted allocator: what is in use is reserved, and the table is empty. -/
theorem Boot.exact {boot : Boot} (h : boot.start = some m) : Exact m.used ⟨m, fun _ => 0⟩ := by
  have hok := boot.start_ok h
  have hkeys : ∀ i, (m.refs i).key = none := by
    intro i
    rw [hok.2.refs]
  have hcount : m.count = fun _ => 0 := by
    funext page
    exact value_absent refcountSlots_pos fun i _ => by simp [hkeys i]
  have hprobed : Probed m.refs refcountSlots refcountHash := by
    constructor
    · intro i j page _ _ hkey
      simp [hkeys i] at hkey
    · intro i page _ hkey
      simp [hkeys i] at hkey
    · intro i _
      rw [hok.2.refs]
  refine ⟨⟨hprobed, fun i _ page hkey => ?_, fun page => ?_, hok.2.low, hok.1.beyond⟩, hcount⟩
  · simp [hkeys i] at hkey
  · simp [hcount]

theorem Exact.decrement_frees_iff (h : Exact reserved s) (hheld : 0 < s.refs page) :
    (pmmRefcountDec s.pmm (page * pageSize)).1.used page = false ↔ s.refs page = 1 := by
  have hpage : page * pageSize / pageSize = page := Nat.mul_div_cancel page (by decide)
  have hcount : 0 < s.pmm.count page := by rwa [h.count]
  have hspec := refcountDec_spec h.ok hcount
  rw [pmmRefcountDec_aligned (Nat.mul_mod_left page pageSize), hpage]
  have hused := hspec.1.used_iff page
  rw [hspec.2.2, update_self, h.count, h.ok.not_reserved hcount] at hused
  rw [← Bool.not_eq_true, hused]
  simp only [Bool.false_eq_true, false_or]
  omega

theorem refcountGet_pos (m : Pmm) (page : Nat) : 0 < refcountGet m page := by
  unfold refcountGet
  split
  · split_ifs <;> omega
  · exact Nat.one_pos

/-- In every history whose calls fit, a query returns the number of references outstanding to a
page exactly if there is one, and a decrement returns the page exactly when it drops the last. -/
theorem refcounts_exact (boot : Boot) (m : Pmm) (hboot : boot.start = some m) (calls : List Call)
    (hfits : Guarded Referenced.step Referenced.Fits ⟨m, fun _ => 0⟩ calls) :
    let s := Machine.run Referenced.step ⟨m, fun _ => 0⟩ calls
    (∀ page, refcountGet s.pmm page = s.refs page ↔ 0 < s.refs page) ∧
    (∀ page, 0 < s.refs page →
      ((pmmRefcountDec s.pmm (page * pageSize)).1.used page = false ↔ s.refs page = 1)) := by
  intro s
  have hexact : Exact m.used s := (Boot.exact hboot).run hfits
  constructor
  · intro page
    refine ⟨fun hquery => hquery ▸ refcountGet_pos s.pmm page, fun hheld => ?_⟩
    rw [refcountGet_eq hexact.ok (by rwa [hexact.count]), hexact.count]
  · intro page hheld
    exact hexact.decrement_frees_iff hheld

/-! ## A page with more references than a count can hold -/

theorem one_page_boot : ∃ m, (Boot.direct (257 * 4096) 0).start = some m ∧ nextFree m = some 256 :=
  ⟨_, rfl, rfl⟩

theorem one_page_boot_fits {m : Pmm} (h : (Boot.direct (257 * 4096) 0).start = some m) :
    Guarded Referenced.step Referenced.Fits ⟨m, fun _ => 0⟩ [.allocate] := by
  refine ⟨?_, trivial⟩
  have hok := Boot.start_ok h
  exact ⟨0, refcountSlots_pos, by rw [hok.2.refs]⟩

theorem one_page_allocated {m : Pmm} (hpage : nextFree m = some 256) :
    ((⟨m, fun _ => 0⟩ : Referenced).step .allocate).refs 256 = 1 := by
  simp [Referenced.step, pmmAllocatePage, allocatePage, hpage, pageSize]

/-- A page that is allocated, shared and given up once. -/
theorem refcounts_exact_one_page : ∃ m, (Boot.direct (257 * 4096) 0).start = some m ∧
    refcountGet (Machine.run Referenced.step ⟨m, fun _ => 0⟩
      [.allocate, .increment (256 * pageSize), .decrement (256 * pageSize)]).pmm 256 = 1 := by
  obtain ⟨m, hm, hpage⟩ := one_page_boot
  have hone := one_page_allocated hpage
  have hindex : 256 * pageSize / pageSize = 256 := rfl
  refine ⟨m, hm, ?_⟩
  have hexact := (refcounts_exact (.direct (257 * 4096) 0) m hm
    [.allocate, .increment (256 * pageSize), .decrement (256 * pageSize)] ?_).1 256
  · have hrefs : (Machine.run Referenced.step ⟨m, fun _ => 0⟩
        [.allocate, .increment (256 * pageSize), .decrement (256 * pageSize)]).refs 256 = 1 := by
      simpa [Referenced.step, hindex] using hone
    rw [hexact.mpr (by omega), hrefs]
  · refine ⟨(one_page_boot_fits hm).1, ?_, ?_, trivial⟩
    · rw [Referenced.Fits, hindex, hone]
      decide
    · refine ⟨by decide, ?_⟩
      simp [Referenced.step, hindex]

theorem Exact.increments (h : Exact reserved s) (hheld : 0 < s.refs page) (n : Nat)
    (hmax : s.refs page + n ≤ refcountMax) :
    let s' := Machine.run Referenced.step s (List.replicate n (.increment (page * pageSize)))
    Exact reserved s' ∧ s'.refs page = s.refs page + n := by
  have hpage : page * pageSize / pageSize = page := Nat.mul_div_cancel page (by decide)
  induction n generalizing s with
  | zero => exact ⟨h, rfl⟩
  | succ n ih =>
    have hstep := h.step (.increment (page * pageSize)) (by
      rw [Referenced.Fits, hpage]
      exact ⟨hheld, by omega⟩)
    have hrefs : (s.step (.increment (page * pageSize))).refs page = s.refs page + 1 := by
      simp [Referenced.step, hpage]
    have hrest := ih hstep (by omega) (by omega)
    rw [List.replicate_succ, run_cons]
    exact ⟨hrest.1, by rw [hrest.2]; omega⟩

theorem refcountInc_full (h : PmmOk reserved m) (hfull : m.count page = refcountMax) :
    refcountInc m page = m := by
  have hpos : 0 < m.count page := by
    rw [hfull]
    decide
  obtain ⟨i, hentry, hi, hkey, hcnt⟩ := refcountEntry_find h hpos
  have hcreate : refcountEntry m.refs page true = (m.refs, some i) := by
    rw [refcountEntry, search_own h.probed hi hkey]
  simp [refcountInc, hcreate, hcnt, hfull]

theorem Exact.overflow (h : Exact reserved s) {page : Nat} (hone : s.refs page = 1) {n : Nat}
    (hn : n + 1 = refcountMax) :
    let s' := Machine.run Referenced.step s
      (List.replicate n (.increment (page * pageSize)) ++ [.increment (page * pageSize)])
    s'.refs page = refcountMax + 1 ∧ refcountGet s'.pmm page = refcountMax := by
  have hpage : page * pageSize / pageSize = page := Nat.mul_div_cancel page (by decide)
  have hpositive : 0 < s.refs page := by omega
  have hmany := h.increments hpositive n (by omega)
  rw [run_append]
  generalize Machine.run Referenced.step s
    (List.replicate n (.increment (page * pageSize))) = filled at hmany ⊢
  have hheld : filled.refs page = refcountMax := by
    have := hmany.2
    omega
  have hfull : filled.pmm.count page = refcountMax := by rw [hmany.1.count, hheld]
  have hpos : 0 < filled.pmm.count page := by omega
  constructor
  · simp [Referenced.step, hpage, hheld]
  · simp only [run_cons, run_nil, Referenced.step, pmmRefcountInc, hpage]
    rw [refcountInc_full hmany.1.ok hfull, refcountGet_eq hmany.1.ok hpos, hfull]

/-- One page, allocated once and referenced 65535 times more: the table loses the last one. -/
theorem refcount_saturates : ∃ m, (Boot.direct (257 * 4096) 0).start = some m ∧
    let s := Machine.run Referenced.step ⟨m, fun _ => 0⟩
      (.allocate :: (List.replicate 65534 (.increment (256 * pageSize)) ++
        [.increment (256 * pageSize)]))
    s.refs 256 = 65536 ∧ refcountGet s.pmm 256 = 65535 := by
  obtain ⟨m, hm, hpage⟩ := one_page_boot
  have hfirst : Exact m.used ((⟨m, fun _ => 0⟩ : Referenced).step .allocate) :=
    (Boot.exact hm).run (one_page_boot_fits hm)
  refine ⟨m, hm, ?_⟩
  rw [run_cons]
  exact hfirst.overflow (one_page_allocated hpage) (n := 65534) rfl

end XsCore.Memory
