import Mathlib.Data.List.Basic

/-! # Texts with back references

A text can be given by tokens that are either letters or copies of what stands a distance back; a
copy may run into itself.  A reader keeps the last letters in a circular window.
-/

namespace BackReferences

open List

variable {α : Type}

inductive Token (α : Type) where
  | literal (a : α)
  | copy (length distance : Nat)

def copyBack (text : List α) (distance : Nat) : Nat → List α
  | 0 => text
  | length + 1 =>
    let longer := copyBack text distance length
    longer ++ longer[longer.length - distance]?.toList

def expand (text : List α) : List (Token α) → List α
  | [] => text
  | .literal a :: tokens => expand (text ++ [a]) tokens
  | .copy length distance :: tokens => expand (copyBack text distance length) tokens

variable {text : List α} {distance pos size : Nat}

theorem copyBack_take (hpos : 0 < distance) (hback : distance ≤ pos) {length : Nat}
    (hfits : pos + length ≤ text.length)
    (hsame : ∀ k < length, text[pos + k]? = text[pos - distance + k]?) :
    copyBack (text.take pos) distance length = text.take (pos + length) := by
  induction length with
  | zero => rfl
  | succ length ih =>
    have hlonger := ih (by omega) (fun k hk => hsame k (by omega))
    have hlength : (text.take (pos + length)).length = pos + length := by
      rw [length_take]
      omega
    have hletter : (text.take (pos + length))[pos + length - distance]? = text[pos + length]? := by
      have hindex : pos + length - distance = pos - distance + length := by omega
      rw [getElem?_take_of_lt (by omega), hindex, hsame length (by omega)]
    rw [copyBack]
    rw [hlonger, hlength, hletter, ← Nat.add_assoc, take_add_one]

theorem copyBack_length (hpos : 0 < distance) (hback : distance ≤ text.length) (length : Nat) :
    (copyBack text distance length).length = text.length + length := by
  induction length with
  | zero => rfl
  | succ length ih =>
    rw [copyBack]
    rw [length_append, ih, getElem?_eq_getElem (by omega)]
    rfl

theorem copyBack_succ {a : α} (ha : text[text.length - distance]? = some a) (length : Nat) :
    copyBack text distance (length + 1) = copyBack (text ++ [a]) distance length := by
  induction length with
  | zero =>
    rw [copyBack, copyBack, copyBack, ha]
    rfl
  | succ length ih => rw [copyBack, ih, copyBack]

theorem take_append_literal {a : α} (h : text[pos]? = some a) :
    text.take pos ++ [a] = text.take (pos + 1) := by
  rw [take_add_one, h]
  rfl

/-! ## Windows -/

/-- A circular window of `size` letters holds the last letters of a text. -/
structure Recent (size : Nat) (window : Nat → α) (pos : Nat) (text : List α) : Prop where
  size_pos : 0 < size
  pos_eq : pos = text.length % size
  letter : ∀ j a, text[j]? = some a → text.length ≤ j + size → window (j % size) = a

theorem mod_ne_of_lt {j n : Nat} (hlt : j < n) (hclose : n < j + size) : j % size ≠ n % size := by
  intro heq
  have hdvd : size ∣ n - j := Nat.dvd_of_mod_eq_zero (Nat.sub_mod_eq_zero_of_mod_eq heq.symm)
  have hle := Nat.le_of_dvd (by omega) hdvd
  omega

theorem Recent.push {window : Nat → α} (h : Recent size window pos text) (a : α) :
    Recent size (Function.update window pos a) ((pos + 1) % size) (text ++ [a]) := by
  constructor
  · exact h.size_pos
  · rw [h.pos_eq, length_append, length_singleton, Nat.mod_add_mod]
  · intro j b hb hrecent
    rw [length_append, length_singleton] at hrecent
    rw [h.pos_eq]
    by_cases hj : j = text.length
    · subst hj
      rw [getElem?_concat_length] at hb
      cases hb
      exact Function.update_self _ _ _
    have hlt : j < text.length := by
      obtain ⟨hbound, -⟩ := List.getElem?_eq_some_iff.mp hb
      rw [length_append, length_singleton] at hbound
      omega
    rw [getElem?_append_left hlt] at hb
    rw [Function.update_of_ne (mod_ne_of_lt hlt (by omega))]
    exact h.letter j b hb (by omega)

theorem Recent.back {window : Nat → α} (h : Recent size window pos text) (hpos : 0 < distance)
    (hback : distance ≤ text.length) (hsize : distance ≤ size) :
    text[text.length - distance]? = some (window ((text.length - distance) % size)) := by
  have hlt : text.length - distance < text.length := by omega
  rw [getElem?_eq_getElem hlt]
  exact congrArg some (h.letter _ _ (getElem?_eq_getElem hlt) (by omega)).symm

end BackReferences
