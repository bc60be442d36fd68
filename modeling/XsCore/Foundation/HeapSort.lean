import Mathlib.Data.List.Nodup
import Mathlib.Data.List.Perm.Basic
import Mathlib.Logic.Equiv.Basic

/-!
# Heap sort by exchanges

A row is a function from positions; only its first `n` positions are sorted.  Every step of the sort
exchanges two positions, so the row it leaves is the old one along a permutation of the positions.
`less` is a strict weak order: what is not less than something else comes after it or is level with
it.
-/

namespace HeapSort

open Function List

universe u

variable {α : Type u}
variable {i j root count start : Nat}

/-! ## Rows along permutations -/

def swap (a : Nat → α) (i j : Nat) : Nat → α :=
  update (update a i (a j)) j (a i)

theorem swap_eq (a : Nat → α) (i j : Nat) : swap a i j = a ∘ Equiv.swap i j := by
  funext k
  unfold swap
  by_cases hj : k = j
  · subst hj
    simp
  by_cases hi : k = i
  · subst hi
    simp [update_of_ne hj]
  · simp [update_of_ne hj, update_of_ne hi, Equiv.swap_apply_of_ne_of_ne hi hj]

theorem swap_left (a : Nat → α) (i j : Nat) : swap a i j i = a j := by
  rw [swap_eq, comp_apply, Equiv.swap_apply_left]

theorem swap_right (a : Nat → α) (i j : Nat) : swap a i j j = a i := by
  rw [swap_eq, comp_apply, Equiv.swap_apply_right]

theorem swap_other (a : Nat → α) {k : Nat} (hi : k ≠ i) (hj : k ≠ j) : swap a i j k = a k := by
  rw [swap_eq, comp_apply, Equiv.swap_apply_of_ne_of_ne hi hj]

def Rearranges (lo hi : Nat) (a b : Nat → α) : Prop :=
  ∃ σ : Equiv.Perm Nat, (∀ i, i < lo ∨ hi ≤ i → σ i = i) ∧ b = a ∘ σ

variable {lo hi : Nat} {a b c : Nat → α}

theorem Rearranges.refl (lo hi : Nat) (a : Nat → α) : Rearranges lo hi a a :=
  ⟨Equiv.refl Nat, fun _ _ => rfl, rfl⟩

section

variable (h : Rearranges lo hi a b)
include h

theorem Rearranges.trans (h' : Rearranges lo hi b c) : Rearranges lo hi a c := by
  obtain ⟨σ, hσ, rfl⟩ := h
  obtain ⟨τ, hτ, rfl⟩ := h'
  refine ⟨τ.trans σ, fun i hout => ?_, rfl⟩
  rw [Equiv.trans_apply, hτ i hout, hσ i hout]

theorem Rearranges.mono {lo' hi' : Nat} (hlo : lo' ≤ lo) (hhi : hi ≤ hi') :
    Rearranges lo' hi' a b := by
  obtain ⟨σ, hσ, rfl⟩ := h
  exact ⟨σ, fun i hout => hσ i (by omega), rfl⟩

omit h in
theorem Rearranges.swap (a : Nat → α) (hleft : lo ≤ i ∧ i < hi) (hright : lo ≤ j ∧ j < hi) :
    Rearranges lo hi a (swap a i j) := by
  refine ⟨Equiv.swap i j, fun k hk => ?_, swap_eq a i j⟩
  exact Equiv.swap_apply_of_ne_of_ne (by omega) (by omega)

theorem Rearranges.outside (hout : i < lo ∨ hi ≤ i) : b i = a i := by
  obtain ⟨σ, hσ, rfl⟩ := h
  rw [comp_apply, hσ i hout]

theorem Rearranges.inside (hin : lo ≤ i ∧ i < hi) : ∃ j, (lo ≤ j ∧ j < hi) ∧ b i = a j := by
  obtain ⟨σ, hσ, rfl⟩ := h
  refine ⟨σ i, ?_, rfl⟩
  by_contra hout
  have hfixed : σ (σ i) = σ i := hσ (σ i) (by omega)
  have hsame : σ i = i := σ.injective hfixed
  omega

theorem Rearranges.perm {n : Nat} (hn : hi ≤ n) : ((range n).map b).Perm ((range n).map a) := by
  obtain ⟨σ, hσ, rfl⟩ := h.mono (Nat.zero_le lo) hn
  rw [← map_map]
  apply List.Perm.map
  rw [perm_ext_iff_of_nodup (List.Nodup.map σ.injective nodup_range) nodup_range]
  intro k
  rw [mem_map, mem_range]
  constructor
  · rintro ⟨i, hmem, rfl⟩
    rcases Rearranges.inside (a := fun i => i) ⟨σ, hσ, rfl⟩
      ⟨Nat.zero_le i, mem_range.mp hmem⟩ with ⟨j, hj, heq⟩
    have heq : σ i = j := heq
    rw [heq]
    exact hj.2
  · intro hk
    refine ⟨σ.symm k, mem_range.mpr ?_, σ.apply_symm_apply k⟩
    by_contra hout
    have hfixed := hσ (σ.symm k) (.inr (by omega))
    rw [σ.apply_symm_apply] at hfixed
    omega

end

/-! ## The sort -/

section Algorithm

variable (less : α → α → Bool)

def largerChild (a : Nat → α) (root count : Nat) : Nat :=
  if root * 2 + 1 + 1 < count ∧ less (a (root * 2 + 1)) (a (root * 2 + 1 + 1)) = true then
    root * 2 + 1 + 1
  else root * 2 + 1

/-- The value at `root` goes down until no child is larger. -/
def siftDown : Nat → (Nat → α) → Nat → Nat → Nat → α
  | 0, a, _, _ => a
  | fuel + 1, a, root, count =>
    if root < count / 2 then
      if less (a root) (a (largerChild less a root count)) then
        siftDown fuel (swap a root (largerChild less a root count))
          (largerChild less a root count) count
      else a
    else a

/-- Heaps from `start - 1` down to the whole row. -/
def build (count : Nat) : Nat → (Nat → α) → Nat → α
  | 0, a => a
  | start + 1, a => build count start (siftDown less count a start count)

/-- The largest value goes to the end, and the rest becomes a heap again. -/
def drain : Nat → (Nat → α) → Nat → α
  | 0, a => a
  | 1, a => a
  | stop + 2, a => drain (stop + 1) (siftDown less (stop + 1) (swap a 0 (stop + 1)) 0 (stop + 1))

def sort (count : Nat) (a : Nat → α) : Nat → α :=
  drain less count (build less count (count / 2) a)

/-- What a comparison has to be. -/
structure StrictWeak : Prop where
  asymm : ∀ x y, less x y = true → less y x = false
  trans : ∀ x y z, less x y = false → less y z = false → less x z = false

variable {less}

theorem StrictWeak.irrefl (h : StrictWeak less) (x : α) : less x x = false := by
  by_contra hx
  have hx : less x x := by simpa using hx
  rw [h.asymm x x hx] at hx
  cases hx

def IsChild (c i : Nat) : Prop := c = i * 2 + 1 ∨ c = i * 2 + 2

def HeapFrom (less : α → α → Bool) (a : Nat → α) (start count : Nat) : Prop :=
  ∀ i, start ≤ i → ∀ c, IsChild c i → c < count → less (a i) (a c) = false

/-- The same for all parents but `root`, whose children are not larger than its own parent. -/
structure HeapExcept (less : α → α → Bool) (a : Nat → α) (start root count : Nat) : Prop where
  others : ∀ i, start ≤ i → i ≠ root → ∀ c, IsChild c i → c < count → less (a i) (a c) = false
  above : ∀ i, start ≤ i → IsChild root i → ∀ c, IsChild c root → c < count →
    less (a i) (a c) = false

theorem largerChild_isChild (less : α → α → Bool) (a : Nat → α) (root count : Nat) :
    IsChild (largerChild less a root count) root := by
  unfold largerChild
  split
  · exact .inr rfl
  · exact .inl rfl

theorem largerChild_lt (less : α → α → Bool) (a : Nat → α) (h : root < count / 2) :
    largerChild less a root count < count := by
  unfold largerChild
  split
  · rename_i hright
    exact hright.1
  · omega

section

variable (hw : StrictWeak less)
include hw

theorem largerChild_max (a : Nat → α) {c : Nat} (hc : IsChild c root) (hlt : c < count) :
    less (a (largerChild less a root count)) (a c) = false := by
  unfold largerChild
  split
  · rename_i hright
    rcases hc with rfl | rfl
    · exact hw.asymm _ _ hright.2
    · exact hw.irrefl _
  · rename_i hleft
    rcases hc with rfl | rfl
    · exact hw.irrefl _
    · rw [not_and, Bool.not_eq_true] at hleft
      exact hleft hlt

omit hw in
theorem siftDown_rearranges (less : α → α → Bool) (fuel : Nat) (a : Nat → α) (root count : Nat) :
    Rearranges root count a (siftDown less fuel a root count) := by
  induction fuel generalizing a root with
  | zero => exact .refl root count a
  | succ fuel ih =>
    rw [siftDown]
    split
    · rename_i hroot
      split
      · have hlt := largerChild_lt less a hroot
        have hdown : root < largerChild less a root count := by
          rcases largerChild_isChild less a root count with h | h <;> omega
        have hswap : Rearranges root count a (swap a root (largerChild less a root count)) :=
          .swap a ⟨Nat.le_refl root, by omega⟩ ⟨by omega, hlt⟩
        exact hswap.trans ((ih _ _).mono (Nat.le_of_lt hdown) (Nat.le_refl count))
      · exact .refl root count a
    · exact .refl root count a

theorem HeapExcept.move (h : HeapExcept less a start root count) (hstart : start ≤ root)
    (hroot : root < count / 2) (hless : less (a root) (a (largerChild less a root count))) :
    HeapExcept less (HeapSort.swap a root (largerChild less a root count)) start
      (largerChild less a root count) count := by
  have hchild := largerChild_isChild less a root count
  have hmax : ∀ c, IsChild c root → c < count →
      less (a (largerChild less a root count)) (a c) = false :=
    fun _ => largerChild_max hw a
  have hlt := largerChild_lt less a hroot
  generalize largerChild less a root count = child at hless hchild hmax hlt ⊢
  have hdown : root < child := by rcases hchild with h | h <;> omega
  constructor
  · intro i hi hne c hc hcount
    have hc_child : c = child → i = root := by
      rintro rfl
      rcases hc with h₁ | h₁ <;> rcases hchild with h₂ | h₂ <;> omega
    by_cases hir : i = root
    · subst hir
      rw [swap_left]
      by_cases hcc : c = child
      · rw [hcc, swap_right]
        exact hw.asymm _ _ hless
      have hcr : c ≠ i := by rcases hc with h | h <;> omega
      rw [swap_other a hcr hcc]
      exact hmax c hc hcount
    · rw [swap_other a hir hne]
      by_cases hcr : c = root
      · rw [hcr, swap_left]
        exact h.above i hi (hcr ▸ hc) child hchild hlt
      · rw [swap_other a hcr fun hcc => hir (hc_child hcc)]
        exact h.others i hi hir c hc hcount
  · intro i hi hparent c hc hcount
    have hir : i = root := by rcases hparent with h₁ | h₁ <;> rcases hchild with h₂ | h₂ <;> omega
    have hcc : c ≠ child := by rcases hc with h | h <;> omega
    have hcr : c ≠ root := by rcases hc with h | h <;> omega
    rw [hir, swap_left, swap_other a hcr hcc]
    exact h.others child (by omega) (by omega) c hc hcount

theorem siftDown_heap (fuel : Nat) (a : Nat → α)
    (root : Nat) (h : HeapExcept less a start root count) (hstart : start ≤ root)
    (hfuel : count ≤ root + fuel) : HeapFrom less (siftDown less fuel a root count) start count := by
  induction fuel generalizing a root with
  | zero =>
    intro i hi c hc hcount
    by_cases hir : i = root
    · rcases hc with hc | hc <;> omega
    · exact h.others i hi hir c hc hcount
  | succ fuel ih =>
    rw [siftDown]
    split
    · rename_i hroot
      split
      · rename_i hless
        have hdown : root < largerChild less a root count := by
          rcases largerChild_isChild less a root count with hc | hc <;> omega
        exact ih _ _ (h.move hw hstart hroot hless) (by omega) (by omega)
      rename_i hstop
      have hstop : less (a root) (a (largerChild less a root count)) = false := by simpa using hstop
      intro i hi c hc hcount
      by_cases hir : i = root
      · subst hir
        exact hw.trans _ _ _ hstop (largerChild_max hw a hc hcount)
      · exact h.others i hi hir c hc hcount
    · rename_i hleaf
      intro i hi c hc hcount
      by_cases hir : i = root
      · rcases hc with hc | hc <;> omega
      · exact h.others i hi hir c hc hcount

omit hw in
theorem build_rearranges (count start : Nat) (a : Nat → α) :
    Rearranges 0 count a (build less count start a) := by
  induction start generalizing a with
  | zero => exact .refl 0 count a
  | succ start ih =>
    have hsift := siftDown_rearranges less count a start count
    exact (hsift.mono (Nat.zero_le start) (Nat.le_refl count)).trans (ih _)

theorem build_heap (start : Nat) (a : Nat → α) (h : HeapFrom less a start count) :
    HeapFrom less (build less count start a) 0 count := by
  induction start generalizing a with
  | zero => exact h
  | succ start ih =>
    apply ih
    apply siftDown_heap hw count a start _ (Nat.le_refl start) (Nat.le_add_left count start)
    constructor
    · intro i hi hne c hc hcount
      exact h i (by omega) c hc hcount
    · intro i hi hparent
      rcases hparent with hp | hp <;> omega

theorem root_max (h : HeapFrom less a 0 count) (i : Nat) (hi : i < count) :
    less (a 0) (a i) = false := by
  induction i using Nat.strongRecOn with
  | ind i ih =>
    by_cases hzero : i = 0
    · rw [hzero]
      exact hw.irrefl _
    have hparent : IsChild i ((i - 1) / 2) := by
      unfold IsChild
      omega
    have hup := ih ((i - 1) / 2) (by omega) (by omega)
    exact hw.trans _ _ _ hup (h _ (Nat.zero_le _) i hparent hi)

end

structure SortedFrom (less : α → α → Bool) (a : Nat → α) (stop count : Nat) : Prop where
  ordered : ∀ i j, stop ≤ i → i < j → j < count → less (a j) (a i) = false
  after : ∀ i j, i < stop → stop ≤ j → j < count → less (a j) (a i) = false

theorem drain_rearranges (stop : Nat) (a : Nat → α) : Rearranges 0 stop a (drain less stop a) := by
  induction stop using Nat.strongRecOn generalizing a with
  | ind stop ih =>
    match stop, ih with
    | 0, _ => exact .refl 0 0 a
    | 1, _ => exact .refl 0 1 a
    | stop + 2, ih =>
      have hswap : Rearranges 0 (stop + 2) a (HeapSort.swap a 0 (stop + 1)) :=
        .swap a ⟨Nat.le_refl 0, Nat.succ_pos _⟩ ⟨Nat.zero_le _, Nat.lt_succ_self _⟩
      have hsift := siftDown_rearranges less (stop + 1) (HeapSort.swap a 0 (stop + 1)) 0
        (stop + 1)
      have hrest := ih (stop + 1) (by omega)
        (siftDown less (stop + 1) (HeapSort.swap a 0 (stop + 1)) 0 (stop + 1))
      have htail := (hsift.trans hrest).mono (Nat.le_refl 0) (Nat.le_succ (stop + 1))
      exact hswap.trans htail

theorem SortedFrom.extend (hw : StrictWeak less) {stop : Nat}
    (h : SortedFrom less a (stop + 1) count) (hheap : HeapFrom less a 0 (stop + 1))
    (hb : Rearranges 0 stop (HeapSort.swap a 0 stop) b) : SortedFrom less b stop count := by
  have hlast : b stop = a 0 := by rw [hb.outside (.inr (Nat.le_refl stop)), swap_right]
  have htail : ∀ j, stop < j → b j = a j := by
    intro j hj
    rw [hb.outside (.inr (by omega)), swap_other a (by omega) (by omega)]
  have hfront : ∀ i < stop, ∃ k, k < stop + 1 ∧ b i = a k := by
    intro i hi
    obtain ⟨j, hj, heq⟩ := hb.inside ⟨Nat.zero_le i, hi⟩
    by_cases hzero : j = 0
    · subst hzero
      exact ⟨stop, by omega, by rw [heq, swap_left]⟩
    · exact ⟨j, by omega, by rw [heq, swap_other a hzero (by omega)]⟩
  constructor
  · intro i j hi hij hj
    rw [htail j (by omega)]
    by_cases hstop : i = stop
    · rw [hstop, hlast]
      exact h.after 0 j (by omega) (by omega) hj
    · rw [htail i (by omega)]
      exact h.ordered i j (by omega) hij hj
  · intro i j hi hij hj
    obtain ⟨k, hk, heq⟩ := hfront i hi
    rw [heq]
    by_cases hstop : j = stop
    · rw [hstop, hlast]
      exact root_max hw hheap k hk
    · rw [htail j (by omega)]
      exact h.after k j hk (by omega) hj

theorem drain_sorted (hw : StrictWeak less) (stop : Nat) (a : Nat → α)
    (hheap : HeapFrom less a 0 stop) (hstop : stop ≤ count) (hsorted : SortedFrom less a stop count) :
    ∀ i j, i < j → j < count → less (drain less stop a j) (drain less stop a i) = false := by
  induction stop using Nat.strongRecOn generalizing a with
  | ind stop ih =>
    match stop, ih with
    | 0, _ =>
      intro i j hij hj
      exact hsorted.ordered i j (Nat.zero_le i) hij hj
    | 1, _ =>
      intro i j hij hj
      by_cases hzero : i = 0
      · exact hsorted.after i j (by omega) (by omega) hj
      · exact hsorted.ordered i j (by omega) hij hj
    | stop + 2, ih =>
      rw [drain]
      have hsift := siftDown_rearranges less (stop + 1) (HeapSort.swap a 0 (stop + 1)) 0
        (stop + 1)
      apply ih (stop + 1) (by omega) _ _ (by omega) (hsorted.extend hw hheap hsift)
      apply siftDown_heap hw (stop + 1) _ 0 _ (Nat.le_refl 0) (by omega)
      -- Below the root the exchange has touched nothing.
      constructor
      · intro i _ hne c hc hcount
        have hc0 : c ≠ 0 := by rcases hc with hc | hc <;> omega
        rw [swap_other a hne (by rcases hc with hc | hc <;> omega), swap_other a hc0 (by omega)]
        exact hheap i (Nat.zero_le i) c hc (by omega)
      · intro i _ hparent
        rcases hparent with hp | hp <;> omega

theorem sort_rearranges (count : Nat) (a : Nat → α) : Rearranges 0 count a (sort less count a) :=
  (build_rearranges count (count / 2) a).trans (drain_rearranges count _)

theorem sort_sorted (hw : StrictWeak less) (count : Nat) (a : Nat → α) (hij : i < j)
    (hj : j < count) : less (sort less count a j) (sort less count a i) = false := by
  have hleaves : HeapFrom less a (count / 2) count := by
    intro k hk c hc hcount
    rcases hc with hc | hc <;> omega
  apply drain_sorted hw count _ (build_heap hw (count / 2) a hleaves) (Nat.le_refl count) _ i j hij hj
  constructor
  all_goals
    intro i j hi hij hj
    omega

end Algorithm

end HeapSort
