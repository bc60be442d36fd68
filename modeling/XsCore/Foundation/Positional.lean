import Mathlib.Data.Nat.Digits.Defs

/-!
# Accumulating a number digit by digit

A reader of numbers keeps an accumulator, multiplies it by the radix and adds the next digit, most
significant digit first.  `accumulate` is that fold.  `saturate` is the fold of a reader that has
room for numbers up to `top` only, and remembers that it ran out of room.
-/

namespace Positional

def accumulate (radix value : Nat) (digits : List Nat) : Nat :=
  digits.foldl (fun v d => v * radix + d) value

theorem accumulate_ofDigits (radix : Nat) (digits : List Nat) :
    accumulate radix 0 digits = Nat.ofDigits radix digits.reverse := by
  rw [Nat.ofDigits_eq_foldr, List.foldr_reverse]
  unfold accumulate
  congr 1
  funext v d
  rw [Nat.add_comm, Nat.mul_comm]
  rfl

variable {radix value : Nat}

theorem le_accumulate (hradix : 0 < radix) (digits : List Nat) :
    value ≤ accumulate radix value digits := by
  induction digits generalizing value with
  | nil => exact le_rfl
  | cons d digits ih =>
    have hstep : value ≤ value * radix + d := by
      have := Nat.le_mul_of_pos_right value hradix
      omega
    exact hstep.trans ih

/-- One digit of a reader with room up to `top`. -/
def saturateStep (top radix : Nat) (s : Nat × Bool) (d : Nat) : Nat × Bool :=
  if (top - d) / radix < s.1 then (top, true)
  else if s.2 then s else (s.1 * radix + d, false)

def saturate (top radix : Nat) (s : Nat × Bool) (digits : List Nat) : Nat × Bool :=
  digits.foldl (saturateStep top radix) s

variable {top : Nat}

theorem saturate_full (hradix : 2 ≤ radix) (htop : 0 < top) (digits : List Nat) :
    saturate top radix (top, true) digits = (top, true) := by
  induction digits with
  | nil => rfl
  | cons d digits ih =>
    have hless : (top - d) / radix < top :=
      Nat.lt_of_le_of_lt (Nat.div_le_div_right (Nat.sub_le top d)) (Nat.div_lt_self htop hradix)
    have hstep : saturateStep top radix (top, true) d = (top, true) := if_pos hless
    show saturate top radix (saturateStep top radix (top, true) d) digits = _
    rw [hstep, ih]

/-- A reader with room up to `top` has the exact number, or knows that there was no room. -/
theorem saturate_eq (hradix : 2 ≤ radix) (htop : radix ≤ top) {digits : List Nat}
    (hdigits : ∀ d ∈ digits, d < radix) (hvalue : value ≤ top) :
    saturate top radix (value, false) digits =
      if accumulate radix value digits ≤ top then (accumulate radix value digits, false)
      else (top, true) := by
  induction digits generalizing value with
  | nil => exact (if_pos hvalue).symm
  | cons d digits ih =>
    have hd : d ≤ top := by
      have := hdigits d List.mem_cons_self
      omega
    have hfits : value ≤ (top - d) / radix ↔ value * radix + d ≤ top := by
      rw [Nat.le_div_iff_mul_le (by omega)]
      omega
    show saturate top radix (saturateStep top radix (value, false) d) digits =
      if accumulate radix (value * radix + d) digits ≤ top then _ else _
    by_cases hnext : value * radix + d ≤ top
    · have hstep : saturateStep top radix (value, false) d = (value * radix + d, false) :=
        if_neg (by simpa using hfits.mpr hnext)
      rw [hstep]
      exact ih (fun d hd => hdigits d (List.mem_cons_of_mem _ hd)) hnext
    · have hstep : saturateStep top radix (value, false) d = (top, true) :=
        if_pos (by simpa using mt hfits.mp hnext)
      have hmore : value * radix + d ≤ accumulate radix (value * radix + d) digits :=
        le_accumulate (by omega) digits
      rw [hstep, saturate_full hradix (by omega), if_neg (by omega)]

end Positional
