import Mathlib.Algebra.BigOperators.Group.Finset.Basic
import Mathlib.Tactic.Abel

/-! # Sums over tables with one entry changed

What a sum over a table gains and loses when an entry is overwritten, for tables that are functions
on an initial segment and for tables that are lists.  Both are stated without subtraction.
-/

namespace Tally

open Function List

variable {α M : Type*} [AddCommMonoid M]

theorem sum_range_update (g : α → M) (f : Nat → α) {n i : Nat} (hi : i < n) (x : α) :
    (∑ j ∈ Finset.range n, g (update f i x j)) + g (f i) =
      (∑ j ∈ Finset.range n, g (f j)) + g x := by
  have hmem : i ∈ Finset.range n := Finset.mem_range.mpr hi
  rw [← Finset.add_sum_erase _ _ hmem, ← Finset.add_sum_erase _ _ hmem, update_self]
  have hrest : ∑ j ∈ (Finset.range n).erase i, g (update f i x j) =
      ∑ j ∈ (Finset.range n).erase i, g (f j) := by
    refine Finset.sum_congr rfl fun j hj => ?_
    rw [update_of_ne (Finset.ne_of_mem_erase hj)]
  rw [hrest]
  abel

theorem sum_map_set (g : α → M) {l : List α} {i : Nat} {old : α} (h : l[i]? = some old) (x : α) :
    ((l.set i x).map g).sum + g old = (l.map g).sum + g x := by
  induction l generalizing i with
  | nil => simp at h
  | cons head tail ih =>
    cases i with
    | zero =>
      rw [getElem?_cons_zero, Option.some.injEq] at h
      subst h
      simp only [set_cons_zero, map_cons, sum_cons]
      abel
    | succ i =>
      have hrest := ih (i := i) (by simpa using h)
      simp only [set_cons_succ, map_cons, sum_cons]
      rw [add_assoc, hrest, add_assoc]

end Tally
