import Mathlib.Data.List.Basic
import Mathlib.Data.Nat.ModEq

/-! # Ring buffers

A ring of `n` cells with a reading position, a writing position and a fill count.  The queue it
stands for is read off from the reading position; storing appends to it and fetching takes from its
front, as long as the count stays within the ring.
-/

namespace Ring

open Function List

variable {α : Type} {n : Nat}

structure Buffer (α : Type) where
  cells : Nat → α
  readPos : Nat
  writePos : Nat
  count : Nat

structure Buffer.Ok (n : Nat) (b : Buffer α) : Prop where
  read_lt : b.readPos < n
  write_eq : b.writePos = (b.readPos + b.count) % n
  count_le : b.count ≤ n

def Buffer.queue (n : Nat) (b : Buffer α) : List α :=
  (List.range b.count).map fun i => b.cells ((b.readPos + i) % n)

def Buffer.put (n : Nat) (b : Buffer α) (x : α) : Buffer α :=
  { b with
    cells := update b.cells b.writePos x
    writePos := (b.writePos + 1) % n
    count := b.count + 1 }

def Buffer.putAll (n : Nat) (b : Buffer α) (xs : List α) : Buffer α := xs.foldl (Buffer.put n) b

def Buffer.skip (n : Nat) (b : Buffer α) (k : Nat) : Buffer α :=
  { b with readPos := (b.readPos + k) % n, count := b.count - k }

/-- The oldest elements, in the order of a copy loop over the reading position. -/
def Buffer.peek (n : Nat) (b : Buffer α) (k : Nat) : List α :=
  (List.range k).map fun i => b.cells ((b.readPos + i) % n)

def Buffer.clear (b : Buffer α) : Buffer α := { b with readPos := 0, writePos := 0, count := 0 }

variable {b : Buffer α}

@[simp]
theorem Buffer.length_queue (n : Nat) (b : Buffer α) : (b.queue n).length = b.count := by
  simp [queue]

theorem Buffer.Ok.clear (hn : 0 < n) (b : Buffer α) : b.clear.Ok n :=
  ⟨hn, by simp [Buffer.clear], Nat.zero_le n⟩

theorem Buffer.Ok.put (h : b.Ok n) (hroom : b.count < n) (x : α) : (b.put n x).Ok n := by
  refine ⟨h.read_lt, ?_, hroom⟩
  show (b.writePos + 1) % n = (b.readPos + (b.count + 1)) % n
  rw [h.write_eq, Nat.mod_add_mod, Nat.add_assoc]

theorem Buffer.queue_put (h : b.Ok n) (hroom : b.count < n) (x : α) :
    (b.put n x).queue n = b.queue n ++ [x] := by
  have hcell : ∀ i < b.count, (b.readPos + i) % n ≠ b.writePos := by
    intro i hi hsame
    rw [h.write_eq] at hsame
    have hmod : i ≡ b.count [MOD n] := Nat.ModEq.add_left_cancel' b.readPos hsame
    have hsmall := Nat.mod_eq_of_lt hroom
    rw [Nat.ModEq, hsmall, Nat.mod_eq_of_lt (Nat.lt_trans hi hroom)] at hmod
    omega
  unfold queue
  show (List.range (b.count + 1)).map _ = _
  rw [range_succ, map_append]
  congr 1
  · refine map_congr_left fun i hi => ?_
    exact update_of_ne (hcell i (mem_range.mp hi)) _ _
  · show [update b.cells b.writePos x ((b.readPos + b.count) % n)] = [x]
    rw [← h.write_eq, update_self]

theorem Buffer.putAll_spec (h : b.Ok n) (xs : List α) (hroom : b.count + xs.length ≤ n) :
    (b.putAll n xs).Ok n ∧ (b.putAll n xs).queue n = b.queue n ++ xs ∧
      (b.putAll n xs).count = b.count + xs.length := by
  induction xs generalizing b with
  | nil => exact ⟨h, by simp [putAll], rfl⟩
  | cons x xs ih =>
    rw [length_cons] at hroom
    have hfits : b.count < n := by omega
    have hrest := ih (h.put hfits x) (by show b.count + 1 + xs.length ≤ n; omega)
    refine ⟨hrest.1, ?_, ?_⟩
    · show ((b.put n x).putAll n xs).queue n = _
      rw [hrest.2.1, queue_put h hfits, append_assoc, singleton_append]
    · show ((b.put n x).putAll n xs).count = _
      rw [hrest.2.2, length_cons]
      show b.count + 1 + xs.length = _
      omega

theorem Buffer.Ok.skip (h : b.Ok n) {k : Nat} (hk : k ≤ b.count) : (b.skip n k).Ok n := by
  refine ⟨Nat.mod_lt _ (Nat.zero_lt_of_lt h.read_lt), ?_, Nat.le_trans (Nat.sub_le _ _) h.count_le⟩
  show b.writePos = ((b.readPos + k) % n + (b.count - k)) % n
  rw [h.write_eq, Nat.mod_add_mod, Nat.add_assoc, Nat.add_sub_cancel' hk]

theorem Buffer.peek_eq (b : Buffer α) {k : Nat} (hk : k ≤ b.count) :
    b.peek n k = (b.queue n).take k := by
  unfold peek queue
  rw [← map_take, take_range, Nat.min_eq_left hk]

theorem Buffer.queue_skip (b : Buffer α) (k : Nat) : (b.skip n k).queue n = (b.queue n).drop k := by
  unfold queue skip
  rw [← map_drop]
  refine ext_getElem (by simp) fun i hi _ => ?_
  simp [Nat.add_assoc]

theorem Buffer.peek_append_skip (b : Buffer α) {k : Nat} (hk : k ≤ b.count) :
    b.peek n k ++ (b.skip n k).queue n = b.queue n := by
  rw [peek_eq b hk, queue_skip, take_append_drop]

end Ring
