import Mathlib.Algebra.Order.Ring.Nat
import Mathlib.Data.Nat.ModEq

/-! # Addresses rounded to blocks

Rounding down and up to multiples of a block size, and what it means for blocks and intervals whose
ends are multiples themselves.
-/

namespace Alignment

variable {n a b x : Nat}

def alignDown (n x : Nat) : Nat := x / n * n

def alignUp (n x : Nat) : Nat := (x + n - 1) / n * n

theorem dvd_alignDown (n x : Nat) : n ∣ alignDown n x := Nat.dvd_mul_left n (x / n)

theorem dvd_alignUp (n x : Nat) : n ∣ alignUp n x := Nat.dvd_mul_left n _

theorem alignDown_le (n x : Nat) : alignDown n x ≤ x := Nat.div_mul_le_self x n

theorem lt_alignDown_add (hn : 0 < n) (x : Nat) : x < alignDown n x + n := by
  have hmod := Nat.mod_lt x hn
  have hsplit := Nat.div_add_mod' x n
  unfold alignDown
  omega

theorem le_alignUp (hn : 0 < n) (x : Nat) : x ≤ alignUp n x := by
  have hround := lt_alignDown_add hn (x + n - 1)
  unfold alignDown at hround
  unfold alignUp
  omega

theorem alignUp_lt_add (hn : 0 < n) (x : Nat) : alignUp n x < x + n := by
  have hround := alignDown_le n (x + n - 1)
  unfold alignDown at hround
  unfold alignUp
  omega

theorem add_le_of_lt (ha : n ∣ a) (hb : n ∣ b) (h : a < b) : a + n ≤ b := by
  obtain ⟨i, rfl⟩ := ha
  obtain ⟨j, rfl⟩ := hb
  have hij : i < j := Nat.lt_of_mul_lt_mul_left h
  calc n * i + n = n * (i + 1) := (Nat.mul_succ n i).symm
    _ ≤ n * j := Nat.mul_le_mul_left n hij

end Alignment
