import Mathlib.Data.List.Basic
import Mathlib.Order.Lattice

/-!
# Sparse byte arrays

A byte array with holes: a size, and a value for every position.  Positions at
or past the size carry zero, so a region that is cut off and grown again reads
as zero.  Storing no byte changes nothing, the size included.
-/

/-- A byte array of the given size; every position past the size is zero. -/
@[ext] structure SparseBytes where
  size : Nat
  byte : Nat → UInt8
  zero_past : ∀ i, size ≤ i → byte i = 0

namespace SparseBytes

/-- The bytes of `[pos, pos + count)` come from `src`, all others stay. -/
def overlay (byte : Nat → UInt8) (pos count : Nat) (src : Nat → UInt8) : Nat → UInt8 :=
  fun i => if pos ≤ i ∧ i < pos + count then src (i - pos) else byte i

@[simp] theorem overlay_zero (byte : Nat → UInt8) (pos : Nat) (src : Nat → UInt8) :
    overlay byte pos 0 src = byte := by
  funext i
  simp only [overlay, ite_eq_right_iff]
  omega

theorem overlay_overlay (byte : Nat → UInt8) (pos a b : Nat) (src : Nat → UInt8) :
    overlay (overlay byte pos a src) (pos + a) b (fun i => src (a + i)) =
      overlay byte pos (a + b) src := by
  funext i
  unfold overlay
  split
  · rw [if_pos (by omega)]
    exact congrArg src (by omega)
  split
  · rw [if_pos (by omega)]
  · rw [if_neg (by omega)]

def store (f : SparseBytes) (pos count : Nat) (src : Nat → UInt8) : SparseBytes where
  size := if count = 0 then f.size else max f.size (pos + count)
  byte := overlay f.byte pos count src
  zero_past := by
    intro i hi
    unfold overlay
    split at hi
    · rw [if_neg (by omega)]
      exact f.zero_past i hi
    · rw [if_neg (by omega)]
      exact f.zero_past i (by omega)

/-- Cut the array off at `length`, or extend it with zeros up to `length`. -/
def resize (f : SparseBytes) (length : Nat) : SparseBytes where
  size := length
  byte := fun i => if i < length then f.byte i else 0
  zero_past := by
    intro i hi
    rw [if_neg (by omega)]

theorem resize_size (f : SparseBytes) : f.resize f.size = f := by
  refine SparseBytes.ext rfl ?_
  funext i
  by_cases hi : i < f.size
  · exact if_pos hi
  · exact (if_neg hi).trans (f.zero_past i (Nat.le_of_not_lt hi)).symm

def read (f : SparseBytes) (pos length : Nat) : List UInt8 :=
  (List.range (min length (f.size - pos))).map fun i => f.byte (pos + i)

end SparseBytes
