import Mathlib.Data.List.Basic
import Mathlib.Tactic.Ring

/-! # Little-endian words and byte-addressed memories

A structure of machine words laid out in memory is the concatenation of the little-endian images
of its fields.  `leWordAt_leWords` is the one layout fact the rest needs: word `i` of such an image
is read back from its offset.  `load` and `store` are block transfers to a byte-addressed memory.
-/

namespace Bytes

open List

variable (width n : Nat) (memory : Nat → UInt8) (address : Nat)

def leBytes : Nat → Nat → List UInt8
  | 0, _ => []
  | width + 1, n => UInt8.ofNat (n % 256) :: leBytes width (n / 256)

def leValue : List UInt8 → Nat
  | [] => 0
  | b :: bytes => b.toNat + 256 * leValue bytes

@[simp] theorem leBytes_length : (leBytes width n).length = width := by
  induction width generalizing n with
  | zero => rfl
  | succ width ih => simp [leBytes, ih]

theorem leValue_leBytes : leValue (leBytes width n) = n % 256 ^ width := by
  induction width generalizing n with
  | zero => simp [leBytes, leValue, Nat.mod_one]
  | succ width ih =>
    have hbyte : (UInt8.ofNat (n % 256)).toNat = n % 256 := by simp [UInt8.toNat_ofNat']
    rw [leBytes, leValue, ih, hbyte, pow_succ', Nat.mod_mul]

theorem leValue_lt (bytes : List UInt8) : leValue bytes < 256 ^ bytes.length := by
  induction bytes with
  | nil => simp [leValue]
  | cons b bytes ih =>
    have hb : b.toNat < 256 := b.toNat_lt
    rw [leValue, length_cons, pow_succ]
    omega

def leWords (width : Nat) (words : List Nat) : List UInt8 :=
  words.flatMap (leBytes width)

/-- The word at index `i` of an image of words of one width. -/
def leWordAt (width : Nat) (bytes : List UInt8) (i : Nat) : Nat :=
  leValue ((bytes.drop (i * width)).take width)

@[simp] theorem leWords_length (words : List Nat) :
    (leWords width words).length = words.length * width := by
  induction words with
  | nil => simp [leWords]
  | cons word words ih =>
    rw [leWords] at ih ⊢
    rw [flatMap_cons, length_append, ih, leBytes_length, length_cons]
    ring

theorem leWordAt_leWords {words : List Nat} (rest : List UInt8) {i : Nat} (hi : i < words.length) :
    leWordAt width (leWords width words ++ rest) i = words.get ⟨i, hi⟩ % 256 ^ width := by
  induction words generalizing i with
  | nil => cases hi
  | cons word words ih =>
    have himage : leWords width (word :: words) ++ rest =
        leBytes width word ++ (leWords width words ++ rest) := by
      simp [leWords]
    rcases i with _ | i
    · rw [leWordAt, himage, Nat.zero_mul, drop_zero,
        take_left' (leBytes_length width word), leValue_leBytes]
      rfl
    have hskip : (leBytes width word ++ (leWords width words ++ rest)).drop ((i + 1) * width) =
        (leWords width words ++ rest).drop (i * width) := by
      rw [Nat.succ_mul, Nat.add_comm, ← drop_drop, drop_left' (leBytes_length width word)]
    rw [leWordAt, himage, hskip]
    exact ih (Nat.lt_of_succ_lt_succ hi)

theorem leValue_field {before : List UInt8} {offset : Nat} (rest : List UInt8)
    (hoffset : before.length = offset) :
    leValue (((before ++ (leBytes width n ++ rest)).drop offset).take width) = n % 256 ^ width := by
  rw [drop_left' hoffset, take_left' (leBytes_length width n), leValue_leBytes]

def load (memory : Nat → UInt8) (address length : Nat) : List UInt8 :=
  (List.range length).map fun i => memory (address + i)

def store (memory : Nat → UInt8) (address : Nat) (bytes : List UInt8) : Nat → UInt8 :=
  fun a => if address ≤ a ∧ a < address + bytes.length then bytes.getD (a - address) 0 else memory a

@[simp] theorem load_length (length : Nat) : (load memory address length).length = length := by
  simp [load]

theorem store_outside {memory : Nat → UInt8} {address a : Nat} {bytes : List UInt8}
    (h : a < address ∨ address + bytes.length ≤ a) : store memory address bytes a = memory a := by
  rw [store, if_neg (by omega)]

theorem load_congr {memory memory' : Nat → UInt8} {address length : Nat}
    (h : ∀ a, address ≤ a → a < address + length → memory a = memory' a) :
    load memory address length = load memory' address length := by
  apply map_congr_left
  intro i hi
  rw [mem_range] at hi
  exact h (address + i) (by omega) (by omega)

theorem load_store (bytes : List UInt8) :
    load (store memory address bytes) address bytes.length = bytes := by
  apply ext_getElem
  · simp
  · intro i hi hbytes
    simp [load, store, hbytes]

theorem load_take {n length : Nat} (h : n ≤ length) :
    (load memory address length).take n = load memory address n := by
  unfold load
  rw [← map_take, take_range, Nat.min_eq_left h]

end Bytes
