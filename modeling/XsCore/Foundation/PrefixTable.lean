import Mathlib.Computability.Language

/-! # Matching by rows

A row over a word says of each prefix whether it belongs to a language.  From the row of `L` come
the rows of `L` followed by one letter of a class, and of `L` followed by any run of letters of a
class; a concatenation of such languages is decided one row after the other.
-/

namespace PrefixTable

open List

universe u

variable {α : Type u}

def letters (p : α → Bool) : Language α := {w | ∃ c, p c = true ∧ w = [c]}

def runs (p : α → Bool) : Language α := {w | ∀ c ∈ w, p c = true}

theorem runs_mul_runs (p : α → Bool) : runs p * runs p = runs p := by
  ext w
  rw [Language.mem_mul]
  constructor
  · rintro ⟨u, hu, v, hv, rfl⟩ c hc
    rcases mem_append.mp hc with hc | hc
    · exact hu c hc
    · exact hv c hc
  · intro hw
    exact ⟨[], fun c hc => absurd hc not_mem_nil, w, hw, nil_append w⟩

/-- `row i` says whether the first `i` letters of `s` are a word of `L`. -/
def Decides (s : List α) (row : Nat → Bool) (L : Language α) : Prop :=
  ∀ i, i ≤ s.length → (row i = true ↔ s.take i ∈ L)

def start (i : Nat) : Bool := i == 0

def letterRow (p : α → Bool) (s : List α) (row : Nat → Bool) : Nat → Bool
  | 0 => false
  | i + 1 => row i && s[i]?.any p

def runRow (p : α → Bool) (s : List α) (row : Nat → Bool) : Nat → Bool
  | 0 => row 0
  | i + 1 => row (i + 1) || (runRow p s row i && s[i]?.any p)

section Rows

variable {s : List α} {row : Nat → Bool} {L : Language α} {p : α → Bool}

theorem Decides.congr {row' : Nat → Bool} (h : Decides s row L)
    (heq : ∀ i ≤ s.length, row' i = row i) : Decides s row' L := by
  intro i hi
  rw [heq i hi]
  exact h i hi

theorem start_decides : Decides s start 1 := by
  intro i hi
  rw [start, beq_iff_eq, Language.mem_one, take_eq_nil_iff]
  constructor
  · exact .inl
  · rintro (rfl | rfl)
    · rfl
    · exact Nat.le_zero.mp hi

theorem take_succ_of_lt {i : Nat} (h : i < s.length) : s.take (i + 1) = s.take i ++ [s[i]] := by
  rw [take_add_one, List.getElem?_eq_getElem h, Option.toList_some]

theorem Decides.letter (h : Decides s row L) : Decides s (letterRow p s row) (L * letters p) := by
  intro i hi
  rw [Language.mem_mul]
  rcases i with _ | i
  · constructor
    · intro hfalse
      exact absurd hfalse Bool.false_ne_true
    · rintro ⟨u, _, v, ⟨c, _, rfl⟩, hsplit⟩
      simp at hsplit
  have hlt : i < s.length := hi
  rw [letterRow, Bool.and_eq_true, h i hlt.le, take_succ_of_lt hlt,
    List.getElem?_eq_getElem hlt, Option.any_some]
  constructor
  · rintro ⟨hfirst, hletter⟩
    exact ⟨_, hfirst, [s[i]], ⟨_, hletter, rfl⟩, rfl⟩
  · rintro ⟨u, hu, v, ⟨c, hc, rfl⟩, hsplit⟩
    have hparts := append_inj' hsplit rfl
    rw [← hparts.1, ← singleton_inj.mp hparts.2]
    exact ⟨hu, hc⟩

theorem Decides.run (h : Decides s row L) : Decides s (runRow p s row) (L * runs p) := by
  intro i
  induction i with
  | zero =>
    intro hi
    rw [runRow, h 0 hi, Language.mem_mul]
    constructor
    · intro hnil
      exact ⟨_, hnil, [], fun c hc => absurd hc not_mem_nil, append_nil _⟩
    · rintro ⟨u, hu, v, _, hsplit⟩
      rw [take_zero] at hsplit ⊢
      rw [(append_eq_nil_iff.mp hsplit).1] at hu
      exact hu
  | succ i ih =>
    intro hi
    have hlt : i < s.length := hi
    rw [runRow, Bool.or_eq_true, Bool.and_eq_true, h _ hi, ih hlt.le, take_succ_of_lt hlt,
      List.getElem?_eq_getElem hlt, Option.any_some, Language.mem_mul, Language.mem_mul]
    constructor
    · rintro (hwhole | ⟨⟨u, hu, v, hv, hsplit⟩, hletter⟩)
      · exact ⟨_, hwhole, [], fun c hc => absurd hc not_mem_nil, append_nil _⟩
      · refine ⟨u, hu, v ++ [s[i]], ?_, ?_⟩
        · intro c hc
          rcases mem_append.mp hc with hc | hc
          · exact hv c hc
          · rw [mem_singleton.mp hc]
            exact hletter
        · rw [← append_assoc, hsplit]
    · rintro ⟨u, hu, v, hv, hsplit⟩
      -- the run is empty, or its last letter is the last of the prefix
      rcases eq_nil_or_concat v with rfl | ⟨v, c, rfl⟩
      · rw [append_nil] at hsplit
        rw [← hsplit]
        exact .inl hu
      rw [concat_eq_append, ← append_assoc] at hsplit
      have hparts := append_inj' hsplit rfl
      rw [concat_eq_append] at hv
      refine .inr ⟨⟨u, hu, v, fun d hd => hv d (mem_append_left _ hd), hparts.1⟩, ?_⟩
      rw [← singleton_inj.mp hparts.2]
      exact hv c (mem_append_right _ (mem_singleton_self c))

end Rows

end PrefixTable
