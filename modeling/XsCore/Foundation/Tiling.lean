import Mathlib.Data.List.Basic

/-! # Runs of adjacent extents

Each element of a list occupies `len x` addresses from `pos x` on.  `Tiles` says that the elements
lie side by side from `lo` to `hi`, without gap and without overlap.
-/

namespace Tiling

open List

universe u

variable {α : Type u}

def Tiles (pos len : α → Nat) : Nat → List α → Nat → Prop
  | lo, [], hi => lo = hi
  | lo, x :: xs, hi => pos x = lo ∧ Tiles pos len (lo + len x) xs hi

variable {pos len : α → Nat} {lo hi : Nat} {xs ys : List α} {x y : α}

theorem tiles_append :
    Tiles pos len lo (xs ++ ys) hi ↔ ∃ mid, Tiles pos len lo xs mid ∧ Tiles pos len mid ys hi := by
  induction xs generalizing lo with
  | nil =>
    constructor
    · intro h
      exact ⟨lo, rfl, h⟩
    · rintro ⟨mid, rfl, h⟩
      exact h
  | cons x xs ih =>
    constructor
    · rintro ⟨hx, hrest⟩
      obtain ⟨mid, hxs, hys⟩ := ih.mp hrest
      exact ⟨mid, ⟨hx, hxs⟩, hys⟩
    · rintro ⟨mid, ⟨hx, hxs⟩, hys⟩
      exact ⟨hx, ih.mpr ⟨mid, hxs, hys⟩⟩

section

variable (h : Tiles pos len lo xs hi)
include h

theorem Tiles.le : lo ≤ hi := by
  induction xs generalizing lo with
  | nil => exact Nat.le_of_eq h
  | cons x xs ih =>
    have := ih h.2
    omega

theorem Tiles.bounds (hx : x ∈ xs) : lo ≤ pos x ∧ pos x + len x ≤ hi := by
  induction xs generalizing lo with
  | nil => exact absurd hx not_mem_nil
  | cons y ys ih =>
    rcases mem_cons.mp hx with rfl | hx
    · have := h.2.le
      have := h.1
      omega
    · have := ih h.2 hx
      omega

theorem Tiles.first (hx : xs.head? = some x) : pos x = lo := by
  cases xs with
  | nil => cases hx
  | cons y ys =>
    cases hx
    exact h.1

theorem Tiles.last (hx : xs.getLast? = some x) : pos x + len x = hi := by
  induction xs generalizing lo with
  | nil => cases hx
  | cons y ys ih =>
    cases ys with
    | nil =>
      have hy : y = x := by simpa using hx
      have hend : lo + len y = hi := h.2
      rw [← hy, h.1, hend]
    | cons z zs => exact ih h.2 (by rwa [getLast?_cons_cons] at hx)

theorem Tiles.ordered : xs.Pairwise fun x y => pos x + len x ≤ pos y := by
  induction xs generalizing lo with
  | nil => exact .nil
  | cons x xs ih =>
    refine .cons (fun y hy => ?_) (ih h.2)
    have := (h.2.bounds hy).1
    have := h.1
    omega

theorem Tiles.eq_of_overlap (hx : x ∈ xs) (hy : y ∈ xs) {a : Nat}
    (hxa : pos x ≤ a ∧ a < pos x + len x) (hya : pos y ≤ a ∧ a < pos y + len y) : x = y := by
  induction xs generalizing lo with
  | nil => exact absurd hx not_mem_nil
  | cons z zs ih =>
    rcases mem_cons.mp hx with rfl | hx'
    · rcases mem_cons.mp hy with rfl | hy'
      · rfl
      have := h.2.bounds hy'
      have := h.1
      omega
    · rcases mem_cons.mp hy with rfl | hy'
      · have := h.2.bounds hx'
        have := h.1
        omega
      · exact ih h.2 hx' hy'

theorem Tiles.covers {a : Nat} (hlo : lo ≤ a) (hhi : a < hi) :
    ∃ x ∈ xs, pos x ≤ a ∧ a < pos x + len x := by
  induction xs generalizing lo with
  | nil =>
    have : lo = hi := h
    omega
  | cons x xs ih =>
    have hpos := h.1
    by_cases hin : a < lo + len x
    · exact ⟨x, mem_cons_self, by omega⟩
    · obtain ⟨y, hy, hya⟩ := ih h.2 (by omega)
      exact ⟨y, mem_cons_of_mem _ hy, hya⟩

end

/-- A stretch of a run is replaced by another that fills the same place. -/
theorem Tiles.replace {before olds news after : List α}
    (h : Tiles pos len lo (before ++ (olds ++ after)) hi)
    (hnews : ∀ start stop, Tiles pos len start olds stop → Tiles pos len start news stop) :
    Tiles pos len lo (before ++ (news ++ after)) hi := by
  obtain ⟨start, hbefore, hrest⟩ := tiles_append.mp h
  obtain ⟨stop, holds, hafter⟩ := tiles_append.mp hrest
  exact tiles_append.mpr ⟨start, hbefore, tiles_append.mpr ⟨stop, hnews _ _ holds, hafter⟩⟩

end Tiling
