import Mathlib.Order.Basic

/-!
# Search by halving

Positions are tried in the middle of a range that shrinks to a half of it each time.  `sign` says for
each position on which side the searched place lies: it falls along the row, so a position with sign
zero is found when there is one.
-/

namespace Bisection

/-- The search among `count` positions from `first` on. -/
def search (sign : Nat → Int) : Nat → Nat → Nat → Option Nat
  | 0, _, _ => none
  | fuel + 1, first, count =>
    if count = 0 then none
    else
      let step := count / 2
      if sign (first + step) = 0 then some (first + step)
      else if 0 < sign (first + step) then search sign fuel (first + step + 1) (count - (step + 1))
      else search sign fuel first step

variable {sign : Nat → Int}

theorem search_some {fuel first count i : Nat} (h : search sign fuel first count = some i) :
    (first ≤ i ∧ i < first + count) ∧ sign i = 0 := by
  induction fuel generalizing first count with
  | zero => simp [search] at h
  | succ fuel ih =>
    rw [search] at h
    split_ifs at h
    dsimp only at h
    split at h
    · rename_i hzero
      cases h
      exact ⟨by omega, hzero⟩
    split at h
    · have hright := ih h
      exact ⟨by omega, hright.2⟩
    · have hleft := ih h
      exact ⟨by omega, hleft.2⟩

theorem search_isSome {fuel first count k : Nat} (hfuel : count ≤ fuel)
    (hfalls : ∀ i j, first ≤ i → i ≤ j → j < first + count →
      (0 ≤ sign j → 0 ≤ sign i) ∧ (sign i ≤ 0 → sign j ≤ 0))
    (hk : first ≤ k ∧ k < first + count) (hzero : sign k = 0) :
    (search sign fuel first count).isSome := by
  induction fuel generalizing first count with
  | zero => omega
  | succ fuel ih =>
    rw [search, if_neg (by omega)]
    dsimp only
    split
    · rfl
    rename_i hne
    split
    · rename_i hpos
      -- The searched position is to the right of a positive sign.
      have hright : first + count / 2 < k := by
        by_contra hle
        have hup := (hfalls k (first + count / 2) hk.1 (by omega) (by omega)).2 (by omega)
        omega
      exact ih (by omega) (fun i j hi hij hj => hfalls i j (by omega) hij (by omega)) (by omega)
    · rename_i hneg
      have hleft : k < first + count / 2 := by
        by_contra hle
        have hdown := (hfalls (first + count / 2) k (by omega) (by omega) hk.2).1 (by omega)
        omega
      exact ih (by omega) (fun i j hi hij hj => hfalls i j hi hij (by omega)) (by omega)

end Bisection
