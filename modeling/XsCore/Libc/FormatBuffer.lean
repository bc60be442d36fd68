import XsCore.Foundation.Bytes
import XsCore.Libc.Format
import XsCore.Libc.Strtol

/-! # The buffer of formatted output

`vsnprintf` with the memory it writes to, and `vasprintf`, which measures the text with an empty
buffer first.  What is measured is an `int`: of a text of more than 4 GiB it may be the rest.
-/

namespace XsCore.Libc

open Bytes Function List

variable {args : FormatArguments} {str size : Nat}

/-! ## The code -/

/-- The buffer while it is filled. -/
structure Sink where
  memory : Nat → UInt8
  bufPtr : Nat
  rem : Nat
  written : Nat

def Sink.outChar (s : Sink) (c : UInt8) : Sink :=
  if 1 < s.rem then ⟨update s.memory s.bufPtr c, s.bufPtr + 1, s.rem - 1, s.written + 1⟩
  else { s with written := s.written + 1 }

/-- `vsnprintf` once the characters of the text are known; there is no buffer at address 0. -/
def vsnprintfText (memory : Nat → UInt8) (str size : Nat) (text : List UInt8) :
    (Nat → UInt8) × Int :=
  let s := text.foldl Sink.outChar ⟨memory, str, size, 0⟩
  (if 0 < size ∧ str ≠ 0 then
    if 0 < s.rem then update s.memory s.bufPtr 0 else update s.memory (str + size - 1) 0
  else s.memory, int32 s.written)

/-- The memory after the call, with the string and its length unless it returns -1. -/
def vasprintfText (malloc : Nat → Nat) (memory : Nat → UInt8) (text : List UInt8) :
    (Nat → UInt8) × Except (Option Errno) (Nat × Int) :=
  let (memory, length) := vsnprintfText memory 0 0 text
  -- `(size_t)length == SIZE_MAX` holds of -1 only
  if length < 0 then (memory, .error none)
  else
    let buffer := malloc (length.toNat + 1)
    if buffer = 0 then (memory, .error (some .noMemory))
    else
      let (memory, rendered) := vsnprintfText memory buffer (length.toNat + 1) text
      if rendered < 0 then (memory, .error none) else (memory, .ok (buffer, rendered))

def vasprintf (args : FormatArguments) (malloc : Nat → Nat) (memory : Nat → UInt8) (strp : Nat)
    (format : Option (List UInt8)) : Option ((Nat → UInt8) × Except (Option Errno) (Nat × Int)) :=
  match format with
  | none => some (memory, .error (some .invalid))
  | some format =>
    if strp = 0 then some (memory, .error (some .invalid))
    else (formatted args format ⟨0, 0⟩).map (vasprintfText malloc memory)

/-! ## What is stored -/

theorem store_nil (memory : Nat → UInt8) (address : Nat) : store memory address [] = memory :=
  funext fun _ => store_outside (by simp; omega)

theorem store_concat (memory : Nat → UInt8) (address : Nat) (bytes : List UInt8) (c : UInt8) :
    store memory address (bytes ++ [c]) =
      update (store memory address bytes) (address + bytes.length) c := by
  funext a
  rw [update_apply]
  split_ifs with ha
  · simp [store, ha]
  by_cases hin : address ≤ a ∧ a < address + bytes.length
  · rw [store, if_pos (by simp; omega), store, if_pos hin, getD, getD,
      getElem?_append_left (by omega)]
  · rw [store_outside (by simp; omega), store_outside (by omega)]

theorem foldl_outChar (memory : Nat → UInt8) (str size : Nat) (text : List UInt8) :
    text.foldl Sink.outChar ⟨memory, str, size, 0⟩ =
      ⟨store memory str (text.take (size - 1)), str + min (size - 1) text.length,
        size - min (size - 1) text.length, text.length⟩ := by
  induction text using List.reverseRecOn with
  | nil => simp [store_nil]
  | append_singleton text c ih =>
    rw [foldl_append, ih, foldl_cons, foldl_nil, Sink.outChar]
    dsimp only
    split_ifs with hroom
    · have hlen : text.length < size - 1 := by omega
      rw [take_of_length_le (by omega), take_of_length_le (by simp; omega), store_concat]
      simp only [length_append, length_singleton, Sink.mk.injEq, and_true]
      rw [Nat.min_eq_right (by omega), Nat.min_eq_right (by omega)]
      exact ⟨rfl, rfl, by omega⟩
    · rw [take_append_of_le_length (by omega)]
      simp only [length_append, length_singleton, Sink.mk.injEq, true_and, and_true]
      omega

/-- The bytes of a buffer of `size` bytes that holds as much of the text as fits. -/
def truncated (size : Nat) (text : List UInt8) : List UInt8 :=
  if size = 0 then [] else text.take (size - 1) ++ [0]

theorem vsnprintfText_eq (hstr : str ≠ 0 ∨ size = 0) (memory : Nat → UInt8) (text : List UInt8) :
    vsnprintfText memory str size text =
      (store memory str (truncated size text), int32 text.length) := by
  unfold vsnprintfText truncated
  rw [foldl_outChar]
  dsimp only
  rcases Nat.eq_zero_or_pos size with rfl | hpos
  · simp
  · rw [if_pos ⟨hpos, hstr.resolve_right (by omega)⟩, if_pos (by omega), if_neg (by omega),
      store_concat, length_take]

/-- The bytes that `vsnprintf` leaves are those stored in the buffer. -/
theorem vsnprintf_stored (hstr : str ≠ 0) (memory : Nat → UInt8) (size : Nat)
    (format : List UInt8) :
    (vsnprintf args size (some format)).map (fun out => (store memory str out.1, out.2)) =
      (formatted args format ⟨0, 0⟩).map (vsnprintfText memory str size) := by
  rw [vsnprintf, Option.map_map]
  refine congrArg (Option.map · _) (funext fun text => ?_)
  rw [vsnprintfText_eq (.inl hstr), truncated]
  rfl

theorem vasprintfText_eq (malloc : Nat → Nat) (memory : Nat → UInt8) (text : List UInt8) :
    vasprintfText malloc memory text =
      let buffer := malloc ((int32 text.length).toNat + 1)
      if int32 text.length < 0 then (memory, .error none)
      else if buffer = 0 then (memory, .error (some .noMemory))
      else (store memory buffer (truncated ((int32 text.length).toNat + 1) text),
        .ok (buffer, int32 text.length)) := by
  have hmeasured : vsnprintfText memory 0 0 text = (memory, int32 text.length) := by
    rw [vsnprintfText_eq (.inr rfl), truncated, if_pos rfl, store_nil]
  have hrendered : ∀ buffer, ¬ buffer = 0 → ∀ size, vsnprintfText memory buffer size text = _ :=
    fun _ hbuffer _ => vsnprintfText_eq (.inl hbuffer) memory text
  rw [vasprintfText, hmeasured]
  generalize int32 text.length = length at *
  dsimp only
  split_ifs with hneg hbuffer hagain
  · rfl
  · rfl
  · rw [hrendered _ hbuffer] at hagain
    exact absurd hagain hneg
  · rw [hrendered _ hbuffer]

/-- The text is stored as far as it fits, the length does not depend on the buffer, and a string
that `vasprintf` returns is the whole text. -/
def FormatsBounded (args : FormatArguments) (format : List UInt8) : Prop :=
  ∀ text, formatted args format ⟨0, 0⟩ = some text →
    (∀ memory str size, str ≠ 0 → vsnprintfText memory str size text =
      (store memory str (truncated size text), (vsnprintfText memory 0 0 text).2)) ∧
    ∀ malloc memory memory' strp buffer length,
      vasprintf args malloc memory strp (some format) = some (memory', .ok (buffer, length)) →
      memory' = store memory buffer (text ++ [0]) ∧ length = text.length

theorem formats_bounded_iff (args : FormatArguments) (format : List UInt8) :
    FormatsBounded args format ↔ ∀ text, formatted args format ⟨0, 0⟩ = some text →
      0 ≤ int32 text.length → text.length < 2 ^ 31 := by
  refine forall₂_congr fun text htext => ?_
  simp only [vasprintf, htext, Option.map_some, vasprintfText_eq]
  constructor
  · rintro ⟨-, hwhole⟩ hlength
    have hbuffer : ¬ (1 : Nat) = 0 := by decide
    have hreturned := (hwhole (fun _ => 1) 0 _ 1 1 (int32 text.length) (by
      rw [if_neg hbuffer, if_neg (by omega), if_neg hbuffer])).2
    unfold int32 at hreturned
    omega
  · intro hshort
    constructor
    · intro memory str size hstr
      rw [vsnprintfText_eq (.inl hstr), vsnprintfText_eq (.inr rfl)]
    · intro malloc memory memory' strp buffer length hreturned
      split_ifs at hreturned with hstrp hneg hbuffer
      all_goals cases hreturned
      have hlt := hshort (by omega)
      rw [int32_eq (by omega) (by omega)]
      simp [truncated]

/-- Every argument is a one. -/
def ones : FormatArguments := ⟨true, fun _ => 1, fun _ => 0, fun _ => [], fun _ _ _ _ _ _ _ => []⟩

/-- What follows the percent sign of `%2147483647d`. -/
def widestField : List UInt8 := [50, 49, 52, 55, 52, 56, 51, 54, 52, 55, 100]

def widestText : List UInt8 := replicate 2147483646 32 ++ [49]

theorem outNum_one {width : Int} (hlow : 1 < width) (hhigh : width < 2 ^ 31) :
    outNum 1 true 10 false width (-1) false 32 false false false =
      replicate (width.toNat - 1) 32 ++ [49] := by
  have hpad : (int32 (width - 1)).toNat = width.toNat - 1 := by
    rw [int32_eq (by omega) (by omega)]
    omega
  change numPadded [] [49] 0 width (-1) false 32 = _
  simp [numPadded, copies, int32_eq, hlow, hpad]

theorem formatted_widest (rest : List UInt8) (va : VaList) :
    formatted ones (37 :: widestField ++ rest) va =
      (formatted ones rest { va with words := va.words + 1 }).map (widestText ++ ·) := by
  have hwidth (flags : FormatFlags) : takeWidth ones va flags (widestField ++ rest) =
      (2147483647, flags, va, 100 :: rest) := by
    have hnumber : takeNumber 0 (widestField ++ rest) = (2147483647, 100 :: rest) := by
      simp [widestField, takeNumber, int32]
    have htaken : takeWidth ones va flags (widestField ++ rest) =
        ((takeNumber 0 (widestField ++ rest)).1, flags, va,
          (takeNumber 0 (widestField ++ rest)).2) := rfl
    rw [htaken, hnumber]
  have hconvert : convert ones va (widestField ++ rest) =
      some (outNum 1 true 10 false 2147483647 (-1) false 32 false false false, rest,
        { va with words := va.words + 1 }) := by
    rw [convert, show takeFlags (widestField ++ rest) _ = (_, widestField ++ rest) from rfl]
    dsimp only
    rw [hwidth]
    rfl
  rw [outNum_one (by decide) (by decide)] at hconvert
  exact formatted_directive (by decide) hconvert

/-- `%2147483647d%2147483647d%5d`. -/
def wideFields : List UInt8 := 37 :: widestField ++ (37 :: widestField ++ [37, 53, 100])

theorem formatted_wideFields :
    formatted ones wideFields ⟨0, 0⟩ = some (widestText ++ (widestText ++ [32, 32, 32, 32, 49])) := by
  have hlast : formatted ones [37, 53, 100] ⟨2, 0⟩ = some [32, 32, 32, 32, 49] := by decide
  have hsecond : formatted ones (37 :: widestField ++ [37, 53, 100]) ⟨1, 0⟩ =
      (formatted ones [37, 53, 100] ⟨2, 0⟩).map (widestText ++ ·) := formatted_widest _ _
  have hfirst : formatted ones wideFields ⟨0, 0⟩ =
      (formatted ones (37 :: widestField ++ [37, 53, 100]) ⟨1, 0⟩).map (widestText ++ ·) :=
    formatted_widest _ _
  rw [hfirst, hsecond, hlast, Option.map_some, Option.map_some]

theorem length_wideFields :
    (widestText ++ (widestText ++ [32, 32, 32, 32, 49])).length = 2 ^ 32 + 3 := by
  have hone : widestText.length = 2147483647 := by
    rw [widestText, length_append, length_replicate, length_singleton]
  rw [length_append, length_append, hone]
  simp

/-- The text has 4 GiB and three characters; `vasprintf` returns the first three. -/
theorem wide_fields_cut : (∀ text, formatted ones wideFields ⟨0, 0⟩ = some text →
      text.length = 2 ^ 32 + 3) ∧
    vasprintf ones (fun _ => 1) (fun _ => 0) 1 (some wideFields) =
      some (store (fun _ => 0) 1 [32, 32, 32, 0], .ok (1, 3)) := by
  have hstart : (widestText ++ (widestText ++ [32, 32, 32, 32, 49])).take 3 = [32, 32, 32] := by
    rw [widestText, append_assoc, take_append_of_le_length (by rw [length_replicate]; omega),
      take_replicate]
    rfl
  constructor
  · intro text htext
    rw [formatted_wideFields, Option.some_inj] at htext
    rw [← htext, length_wideFields]
  rw [vasprintf, formatted_wideFields, if_neg (by decide), Option.map_some, vasprintfText_eq,
    length_wideFields, show int32 ((2 ^ 32 + 3 : Nat) : Int) = 3 by decide]
  dsimp only
  rw [if_neg (by decide), if_neg (by decide), truncated, if_neg (by decide),
    show Int.toNat 3 + 1 - 1 = 3 from rfl, hstart]
  rfl

end XsCore.Libc
