import Mathlib.Data.List.Basic

/-! # Folding over blocks of one size -/

namespace BlockChain

open List

variable {α S : Type*} {n : Nat} {step : S → List α → S}

def chain (n : Nat) (step : S → List α → S) (s : S) (l : List α) : S :=
  if 0 < n ∧ n ≤ l.length then chain n step (step s (l.take n)) (l.drop n) else s
termination_by l.length
decreasing_by simp; omega

theorem chain_short (s : S) {l : List α} (h : l.length < n) : chain n step s l = s := by
  rw [chain, if_neg (by omega)]

theorem chain_block (s : S) {block : List α} (l : List α) (hn : 0 < n) (h : block.length = n) :
    chain n step s (block ++ l) = chain n step (step s block) l := by
  rw [chain, if_pos (by simp; omega), take_left' h, drop_left' h]

theorem chain_one (s : S) {block : List α} (hn : 0 < n) (h : block.length = n) :
    chain n step s block = step s block := by
  rw [← append_nil block, chain_block s [] hn h, chain_short _ (by simpa using hn), append_nil]

theorem chain_append (s : S) {a : List α} (b : List α) (hn : 0 < n) {k : Nat}
    (h : a.length = n * k) : chain n step s (a ++ b) = chain n step (chain n step s a) b := by
  induction k generalizing s a with
  | zero =>
    have hnil : a = [] := length_eq_zero_iff.mp h
    rw [hnil, nil_append, chain_short s (l := []) hn]
  | succ k ih =>
    rw [Nat.mul_succ] at h
    have hblock : (a.take n).length = n := by simp; omega
    have hrest : (a.drop n).length = n * k := by simp; omega
    rw [← take_append_drop n a, append_assoc, chain_block s _ hn hblock,
      chain_block s _ hn hblock, ih _ hrest]

end BlockChain
