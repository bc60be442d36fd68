import Mathlib.Data.List.TakeWhile
import XsCore.Foundation.Positional
import XsCore.Libc.Strtol

/-! # The scan for a number

The reader that `strtoll` and `strtoull` share skips space, takes a sign, settles the base and reads
digits.  What it passes is the longest prefix of the text that is a number.
-/

namespace XsCore.Libc

open List

variable {negative : Bool} {value : Nat} {lo hi : Int}

/-! ## Digits -/

variable {c : UInt8} {text : List UInt8}

theorem asciiDigitValue_lt_of_isDigit {radix : Nat} (h : isDigit radix c) :
    ∃ d, asciiDigitValue c = some d ∧ d < radix := by
  unfold isDigit at h
  simpa [Option.any_eq_true] using h

theorem digitValues_lt {radix : Nat} {digits : List UInt8} (h : ∀ c ∈ digits, isDigit radix c) :
    ∀ d ∈ digits.filterMap asciiDigitValue, d < radix := by
  intro d hd
  obtain ⟨c, hc, hvalue⟩ := mem_filterMap.mp hd
  obtain ⟨d', hd', hlt⟩ := asciiDigitValue_lt_of_isDigit (h c hc)
  rw [hd'] at hvalue
  cases hvalue
  exact hlt

theorem isDigit_cases (base : Nat) (c : UInt8) :
    (∃ d, asciiDigitValue c = some d ∧ d < base ∧ isDigit base c) ∨
      ¬ isDigit base c ∧ ∀ d, asciiDigitValue c = some d → base ≤ d := by
  by_cases hdigit : isDigit base c
  · obtain ⟨d, hd, hlt⟩ := asciiDigitValue_lt_of_isDigit hdigit
    exact .inl ⟨d, hd, hlt, hdigit⟩
  · exact .inr ⟨hdigit, fun d hd => by simpa [isDigit, hd] using hdigit⟩

theorem digitLoop_eq (base value : Nat) (overflow : Bool) (text : List UInt8) :
    digitLoop base value overflow text =
      let out := Positional.saturate ullongMax base (value, overflow)
        ((text.takeWhile (isDigit base)).filterMap asciiDigitValue)
      (out.1, out.2, text.dropWhile (isDigit base)) := by
  induction text generalizing value overflow with
  | nil => rfl
  | cons c text ih =>
    unfold digitLoop
    rcases isDigit_cases base c with ⟨digit, hc, hlt, hdigit⟩ | ⟨hstop, hbig⟩
    · rw [takeWhile_cons_of_pos hdigit, dropWhile_cons_of_pos hdigit, filterMap_cons_some hc, hc]
      show (if base ≤ digit then _ else _) = _
      rw [if_neg (by omega)]
      unfold Positional.saturate
      rw [foldl_cons]
      unfold Positional.saturateStep
      split
      · exact ih _ _
      cases overflow <;> exact ih _ _
    · rw [takeWhile_cons_of_neg hstop, dropWhile_cons_of_neg hstop]
      cases hc : asciiDigitValue c with
      | none => rfl
      | some digit => exact if_pos (hbig digit hc)

theorem wrapLong_step (v base d : Nat) :
    wrapLong (wrapLong v * base + d) = wrapLong ((v * base + d : Nat) : Int) := by
  unfold wrapLong
  rw [← Int.bmod_add_bmod, Int.bmod_mul_bmod, Int.bmod_add_bmod]
  rfl

/-- The loop of `strtol` reads the same digits and keeps their number in a register. -/
theorem signedLoop_eq (base value : Nat) (text : List UInt8) :
    signedLoop base (wrapLong value) text =
      (wrapLong (Positional.accumulate base value
          ((text.takeWhile (isDigit base)).filterMap asciiDigitValue) : Nat),
        text.dropWhile (isDigit base)) := by
  induction text generalizing value with
  | nil => rfl
  | cons c text ih =>
    unfold signedLoop
    rcases isDigit_cases base c with ⟨digit, hc, hlt, hdigit⟩ | ⟨hstop, hbig⟩
    · rw [takeWhile_cons_of_pos hdigit, dropWhile_cons_of_pos hdigit, filterMap_cons_some hc, hc]
      show (if base ≤ digit then _ else _) = _
      rw [if_neg (by omega), wrapLong_step]
      exact ih _
    · rw [takeWhile_cons_of_neg hstop, dropWhile_cons_of_neg hstop]
      cases hc : asciiDigitValue c with
      | none => rfl
      | some digit => exact if_pos (hbig digit hc)

/-! ## The scan finds the longest number -/

def body (text : List UInt8) : List UInt8 := (takeSign (text.dropWhile isSpace)).2

def minus (text : List UInt8) : Bool := (takeSign (text.dropWhile isSpace)).1

def radix (base : Nat) (text : List UInt8) : Nat := (chooseBase base (body text)).1

def start (base : Nat) (text : List UInt8) : List UInt8 := (chooseBase base (body text)).2

def digits (base : Nat) (text : List UInt8) : List UInt8 :=
  (start base text).takeWhile (isDigit (radix base text))

def rest (base : Nat) (text : List UInt8) : List UInt8 :=
  (start base text).dropWhile (isDigit (radix base text))

theorem isDigit_not_space {r : Nat} (h : isDigit r c) : isSpace c = false ∧ c ≠ 45 ∧ c ≠ 43 := by
  have hnone : ∀ x ∈ ([32, 9, 10, 13, 11, 12, 45, 43] : List UInt8), asciiDigitValue x = none := by
    decide +kernel
  obtain ⟨d, hd, -⟩ := asciiDigitValue_lt_of_isDigit h
  have hout : c ∉ ([32, 9, 10, 13, 11, 12, 45, 43] : List UInt8) := by
    intro hc
    rw [hnone c hc] at hd
    cases hd
  simpa [isSpace, and_assoc] using hout

theorem takeSign_bytes (sign : Sign) (hminus : c ≠ 45) (hplus : c ≠ 43) (text : List UInt8) :
    takeSign (sign.bytes ++ c :: text) = (sign.negative, c :: text) := by
  cases sign with
  | absent => simp [Sign.bytes, Sign.negative, takeSign, hminus, hplus]
  | plus | minus => simp [Sign.bytes, Sign.negative, takeSign]

theorem takeSign_spec (text : List UInt8) :
    ∃ sign : Sign, text = sign.bytes ++ (takeSign text).2 ∧ sign.negative = (takeSign text).1 := by
  rcases text with _ | ⟨c, text⟩
  · exact ⟨.absent, rfl, rfl⟩
  by_cases hminus : c = 45
  · subst hminus
    exact ⟨.minus, rfl, rfl⟩
  by_cases hplus : c = 43
  · subst hplus
    exact ⟨.plus, rfl, rfl⟩
  have hplain : takeSign (c :: text) = (false, c :: text) := by simp [takeSign, hminus, hplus]
  exact ⟨.absent, by rw [hplain]; rfl, by rw [hplain]; rfl⟩

theorem Marked.head {base r : Nat} {mark ds : List UInt8} (h : Marked base mark r ds)
    (hne : ds ≠ []) (hds : ∀ c ∈ ds, isDigit r c) :
    ∃ c text, mark ++ ds = c :: text ∧ isSpace c = false ∧ c ≠ 45 ∧ c ≠ 43 := by
  have hfirst : ∃ c text, ds = c :: text ∧ isSpace c = false ∧ c ≠ 45 ∧ c ≠ 43 := by
    obtain ⟨c, text, rfl⟩ := exists_cons_of_ne_nil hne
    exact ⟨c, text, rfl, isDigit_not_space (hds c mem_cons_self)⟩
  cases h with
  | hex x _ _ => exact ⟨48, x :: ds, rfl, by decide⟩
  | _ => exact hfirst

theorem scan_lead {lead : List UInt8} (hlead : ∀ c ∈ lead, isSpace c) (sign : Sign)
    {base r : Nat} {mark ds : List UInt8} (hmark : Marked base mark r ds) (hne : ds ≠ [])
    (hds : ∀ c ∈ ds, isDigit r c) (more : List UInt8) :
    takeSign ((lead ++ (sign.bytes ++ (mark ++ (ds ++ more)))).dropWhile isSpace) =
      (sign.negative, mark ++ (ds ++ more)) := by
  obtain ⟨c, text, hcons, hspace, hminus, hplus⟩ := hmark.head hne hds
  rw [← append_assoc mark, hcons, cons_append, dropWhile_append_of_pos hlead]
  have hstop : (sign.bytes ++ c :: (text ++ more)).dropWhile isSpace =
      sign.bytes ++ c :: (text ++ more) := by
    cases sign with
    | absent => exact dropWhile_cons_of_neg (by simp [hspace])
    | plus | minus => exact dropWhile_cons_of_neg (by decide)
  rw [hstop]
  exact takeSign_bytes sign hminus hplus _

theorem run_le {r : Nat} {ds : List UInt8} (hds : ∀ c ∈ ds, isDigit r c) (more : List UInt8) :
    ((ds ++ more).dropWhile (isDigit r)).length ≤ more.length ∧
      (((ds ++ more).dropWhile (isDigit r)).length = more.length →
        (ds ++ more).takeWhile (isDigit r) = ds) := by
  rw [dropWhile_append_of_pos hds, takeWhile_append_of_pos hds]
  have hsplit := congrArg length (takeWhile_append_dropWhile (p := isDigit r) (l := more))
  rw [length_append] at hsplit
  refine ⟨by omega, fun heq => ?_⟩
  have hnil : more.takeWhile (isDigit r) = [] := eq_nil_of_length_eq_zero (by omega)
  rw [hnil, append_nil]

theorem mark_not_digit {r : Nat} (hr : r ≤ 16) {x : UInt8} (hx : x = 120 ∨ x = 88) :
    isDigit r x = false := by
  have hvalue : asciiDigitValue x = some 33 := by rcases hx with rfl | rfl <;> rfl
  unfold isDigit
  rw [hvalue]
  simpa using hr.trans (by decide)

theorem hexFollows_spec (h : hexFollows text) :
    ∃ x c more, text = 48 :: x :: c :: more ∧ (x = 120 ∨ x = 88) ∧ isDigit 16 c := by
  match text with
  | [] => cases h
  | [_] => cases h
  | [_, _] => simp [hexFollows] at h
  | z :: x :: c :: more =>
    simp only [hexFollows, hexMark, drop_succ_cons, drop_zero, head?_cons,
      Option.any_some, Bool.and_eq_true, Bool.or_eq_true, decide_eq_true_eq] at h
    obtain ⟨⟨rfl, hx⟩, hc⟩ := h
    exact ⟨x, c, more, rfl, hx, hc⟩

theorem hex_longer {r : Nat} (hr : r ≤ 16) {ds more : List UInt8} (hne : ds ≠ [])
    (hds : ∀ c ∈ ds, isDigit r c) (hhex : hexFollows (ds ++ more)) :
    (((ds ++ more).drop 2).dropWhile (isDigit 16)).length < more.length := by
  obtain ⟨x, c, tail, htext, hx, -⟩ := hexFollows_spec hhex
  obtain ⟨z, ds', rfl⟩ := exists_cons_of_ne_nil hne
  rcases ds' with _ | ⟨x', ds'⟩
  · have hmore : more = x :: c :: tail := (cons.inj htext).2
    have hshort := length_dropWhile_le (isDigit 16) (c :: tail)
    rw [htext, hmore]
    show ((c :: tail).dropWhile (isDigit 16)).length < (c :: tail).length + 1
    omega
  have hx' : x' = x := (cons.inj (cons.inj htext).2).1
  have hdigit := hds x' (by simp)
  rw [hx', mark_not_digit hr hx] at hdigit
  cases hdigit

/-- `ds` are digits where the scan looks for digits in radix `r`, and `more` follows them: the scan
reads something, leaves no more than `more`, and when it leaves that much it has read `ds`. -/
structure Reaches (chosen : Nat × List UInt8) (r : Nat) (ds more : List UInt8) : Prop where
  reads : chosen.2.takeWhile (isDigit chosen.1) ≠ []
  le : (chosen.2.dropWhile (isDigit chosen.1)).length ≤ more.length
  same : (chosen.2.dropWhile (isDigit chosen.1)).length = more.length →
    chosen.1 = r ∧ chosen.2.takeWhile (isDigit chosen.1) = ds

section Reaches

variable {base r : Nat} {mark ds more : List UInt8}

theorem Reaches.run (hne : ds ≠ []) (hds : ∀ c ∈ ds, isDigit r c) :
    Reaches (r, ds ++ more) r ds more where
  reads := by
    rw [takeWhile_append_of_pos hds]
    simp [hne]
  le := (run_le hds more).1
  same heq := ⟨rfl, (run_le hds more).2 heq⟩

theorem Reaches.hex (hr : r ≤ 16) (hne : ds ≠ []) (hds : ∀ c ∈ ds, isDigit r c)
    (hhex : hexFollows (ds ++ more)) : Reaches (16, (ds ++ more).drop 2) r ds more where
  reads := by
    obtain ⟨x, c, tail, htext, -, hc⟩ := hexFollows_spec hhex
    rw [htext]
    show (c :: tail).takeWhile (isDigit 16) ≠ []
    rw [takeWhile_cons_of_pos hc]
    exact cons_ne_nil _ _
  le := (hex_longer hr hne hds hhex).le
  same heq := absurd heq (hex_longer hr hne hds hhex).ne

/-- The digits the scan reads reach at least as far as those of any number at that place. -/
theorem Marked.reaches (hmark : Marked base mark r ds) (hne : ds ≠ [])
    (hds : ∀ c ∈ ds, isDigit r c) :
    Reaches (chooseBase base (mark ++ (ds ++ more))) r ds more := by
  cases hmark with
  | given hbase =>
    show Reaches (chooseBase base (ds ++ more)) base ds more
    unfold chooseBase
    split_ifs with hhex
    · exact .hex (by omega) hne hds hhex.2
    · exact .run hne hds
  | hex x hbase hx =>
    have hhex : hexFollows (48 :: x :: (ds ++ more)) := by
      obtain ⟨c, tail, rfl⟩ := exists_cons_of_ne_nil hne
      simp [hexFollows, hexMark, hx, hds c mem_cons_self]
    unfold chooseBase
    rw [if_pos ⟨hbase, hhex⟩]
    exact .run hne hds
  | octal hbase hhead =>
    show Reaches (chooseBase base (ds ++ more)) 8 ds more
    unfold chooseBase
    by_cases hhex : hexFollows (ds ++ more)
    · rw [if_pos ⟨.inl hbase, hhex⟩]
      exact .hex (by omega) hne hds hhex
    have hzero : (ds ++ more).head? = some 48 := by
      rw [head?_append, hhead]
      rfl
    rw [if_neg (fun h => hhex h.2), if_pos hbase, if_pos hzero]
    exact .run hne hds
  | decimal hbase hhead =>
    have hzero : (ds ++ more).head? ≠ some 48 := by
      obtain ⟨c, tail, rfl⟩ := exists_cons_of_ne_nil hne
      exact hhead
    have hhex : ¬ hexFollows (ds ++ more) := by
      intro hhex
      obtain ⟨x, c, tail, htext, -⟩ := hexFollows_spec hhex
      rw [htext] at hzero
      exact hzero rfl
    show Reaches (chooseBase base (ds ++ more)) 10 ds more
    unfold chooseBase
    rw [if_neg (fun h => hhex h.2), if_pos hbase, if_neg hzero]
    exact .run hne hds

end Reaches

/-- No number at the start of the text reaches further than the scan. -/
theorem Numeral.reaches {base : Nat} {bytes : List UInt8} (h : Numeral base bytes negative value)
    (more : List UInt8) : minus (bytes ++ more) = negative ∧ ∃ r ds, value = digitsValue r ds ∧
      Reaches (chooseBase base (body (bytes ++ more))) r ds more := by
  cases h with
  | mk lead sign hlead hmark hne hds =>
    rename_i mark ds r
    have hscan := scan_lead hlead sign hmark hne hds more
    have hminus : minus (lead ++ (sign.bytes ++ (mark ++ ds)) ++ more) = sign.negative := by
      unfold minus
      simp [hscan]
    have hbody : body (lead ++ (sign.bytes ++ (mark ++ ds)) ++ more) = mark ++ (ds ++ more) := by
      unfold body
      simp [hscan]
    refine ⟨hminus, r, ds, rfl, ?_⟩
    rw [hbody]
    exact hmark.reaches hne hds

theorem head?_takeWhile_of_ne_nil {p : UInt8 → Bool} (hne : text.takeWhile p ≠ []) :
    (text.takeWhile p).head? = text.head? := by
  rcases text with _ | ⟨c, text⟩
  · rfl
  cases hc : p c with
  | false => exact absurd (takeWhile_cons_of_neg (by simp [hc])) hne
  | true =>
    rw [takeWhile_cons_of_pos hc]
    rfl

theorem chooseBase_marked (base : Nat) (text : List UInt8)
    (hne : (chooseBase base text).2.takeWhile (isDigit (chooseBase base text).1) ≠ []) :
    ∃ mark, text = mark ++ (chooseBase base text).2 ∧
      Marked base mark (chooseBase base text).1
        ((chooseBase base text).2.takeWhile (isDigit (chooseBase base text).1)) := by
  unfold chooseBase at hne ⊢
  by_cases hhex : (base = 0 ∨ base = 16) ∧ hexFollows text
  · rw [if_pos hhex]
    obtain ⟨x, c, more, rfl, hx, -⟩ := hexFollows_spec hhex.2
    exact ⟨[48, x], rfl, .hex x hhex.1 hx⟩
  rw [if_neg hhex] at hne ⊢
  by_cases hbase : base = 0
  · rw [if_pos hbase] at hne ⊢
    have hhead := head?_takeWhile_of_ne_nil hne
    refine ⟨[], rfl, ?_⟩
    split_ifs at hhead ⊢ with hzero
    · exact .octal hbase (hhead.trans hzero)
    · exact .decimal hbase (hhead ▸ hzero)
  · rw [if_neg hbase]
    exact ⟨[], rfl, .given hbase⟩

theorem scan_decomposes (base : Nat) (text : List UInt8) (hne : digits base text ≠ []) :
    ∃ bytes, text = bytes ++ rest base text ∧
      Numeral base bytes (minus text) (digitsValue (radix base text) (digits base text)) := by
  obtain ⟨sign, hsign, hnegative⟩ := takeSign_spec (text.dropWhile isSpace)
  obtain ⟨mark, hmark, hmarked⟩ := chooseBase_marked base (body text) hne
  have hsplit : start base text = digits base text ++ rest base text :=
    takeWhile_append_dropWhile.symm
  refine ⟨text.takeWhile isSpace ++ (sign.bytes ++ (mark ++ digits base text)), ?_, ?_⟩
  · have hbody : body text = mark ++ (digits base text ++ rest base text) := by
      rw [← hsplit]
      exact hmark
    calc text = text.takeWhile isSpace ++ text.dropWhile isSpace :=
          takeWhile_append_dropWhile.symm
      _ = text.takeWhile isSpace ++ (sign.bytes ++ body text) := congrArg _ hsign
      _ = _ := by rw [hbody]; simp only [append_assoc]
  · have hnegative' : minus text = sign.negative := hnegative.symm
    rw [hnegative']
    exact .mk (text.takeWhile isSpace) sign (fun c hc => mem_takeWhile_imp hc) hmarked hne
      (fun c hc => mem_takeWhile_imp hc)

theorem body_suffix (text : List UInt8) : body text <:+ text := by
  obtain ⟨sign, hsign, -⟩ := takeSign_spec (text.dropWhile isSpace)
  have hbody : body text <:+ text.dropWhile isSpace := ⟨sign.bytes, hsign.symm⟩
  exact hbody.trans (dropWhile_suffix _)

theorem chooseBase_suffix (base : Nat) (text : List UInt8) : (chooseBase base text).2 <:+ text := by
  unfold chooseBase
  split_ifs
  · exact drop_suffix 2 text
  · exact suffix_rfl
  · exact suffix_rfl
  · exact suffix_rfl

theorem start_suffix (base : Nat) (text : List UInt8) : start base text <:+ text :=
  (chooseBase_suffix base (body text)).trans (body_suffix text)

theorem rest_suffix (base : Nat) (text : List UInt8) : rest base text <:+ text :=
  (dropWhile_suffix _).trans (start_suffix base text)

theorem scan_longest (base : Nat) (text : List UInt8) (hne : digits base text ≠ []) :
    Longest base text (text.length - (rest base text).length) (minus text)
      (digitsValue (radix base text) (digits base text)) := by
  obtain ⟨bytes, htext, hnumeral⟩ := scan_decomposes base text hne
  have hlength := congrArg length htext
  rw [length_append] at hlength
  constructor
  · omega
  · have htake : text.take (text.length - (rest base text).length) = bytes := by
      have hn : text.length - (rest base text).length = bytes.length := by omega
      rw [hn]
      nth_rewrite 1 [htext]
      exact take_left
    rw [htake]
    exact hnumeral
  · intro m hm negative value hnum
    obtain ⟨-, r, ds, -, hreach⟩ := hnum.reaches (text.drop m)
    rw [take_append_drop] at hreach
    have hle : (rest base text).length ≤ (text.drop m).length := hreach.le
    rw [length_drop] at hle
    omega

theorem scan_noNumeral (base : Nat) (text : List UInt8) (hnil : digits base text = []) :
    NoNumeral base text := by
  intro m _ negative value hnum
  obtain ⟨-, r, ds, -, hreach⟩ := hnum.reaches (text.drop m)
  rw [take_append_drop] at hreach
  exact hreach.reads hnil

theorem Longest.unique {base : Nat} {n : Nat} (h : Longest base text n negative value) :
    digits base text ≠ [] ∧ n = text.length - (rest base text).length ∧ negative = minus text ∧
      value = digitsValue (radix base text) (digits base text) := by
  obtain ⟨hminus, r, ds, hvalue, hreach⟩ := h.numeral.reaches (text.drop n)
  rw [take_append_drop] at hminus hreach
  have hne : digits base text ≠ [] := hreach.reads
  have hlongest := scan_longest base text hne
  have hle := hlongest.longest n h.inside _ _ h.numeral
  have hge := h.longest _ hlongest.inside _ _ hlongest.numeral
  have hn : n = text.length - (rest base text).length := Nat.le_antisymm hle hge
  have hrest : (rest base text).length = (text.drop n).length := by
    have hshort := (rest_suffix base text).length_le
    rw [length_drop]
    omega
  obtain ⟨hradix, hdigits⟩ := hreach.same hrest
  refine ⟨hne, hn, hminus.symm, ?_⟩
  rw [hvalue, ← hradix, ← hdigits]
  rfl

def magnitude (base : Nat) (text : List UInt8) : Nat :=
  digitsValue (radix base text) (digits base text)

def stop (base : Nat) (text : List UInt8) : Nat :=
  if digits base text = [] then 0 else text.length - (rest base text).length

theorem magnitude_nil {base : Nat} (hnil : digits base text = []) : magnitude base text = 0 := by
  unfold magnitude
  rw [hnil]
  rfl

/-- The outcome a conversion should have, computed from the scan. -/
def ideal (lo hi : Int) (base : Nat) (text : List UInt8) : Outcome :=
  let value := signed (minus text) (magnitude base text)
  ⟨max lo (min hi value), stop base text, if lo ≤ value ∧ value ≤ hi then none else some .range⟩

theorem ideal_nil (hlo : lo ≤ 0) (hhi : 0 ≤ hi) {base : Nat} (hnil : digits base text = []) :
    ideal lo hi base text = ⟨0, 0, none⟩ := by
  have hzero : signed (minus text) (magnitude base text) = 0 := by
    rw [magnitude_nil hnil]
    cases minus text <;> rfl
  unfold ideal stop
  dsimp only
  rw [hzero, if_pos hnil, if_pos ⟨hlo, hhi⟩, min_eq_right hhi, max_eq_right hlo]

theorem converts_iff (hlo : lo ≤ 0) (hhi : 0 ≤ hi) (base : Nat) (text : List UInt8) (out : Outcome) :
    Converts lo hi base text out ↔ out = ideal lo hi base text := by
  constructor
  · rintro (hlongest | hnone)
    · obtain ⟨hne, rfl, rfl, rfl⟩ := hlongest.unique
      unfold ideal stop
      rw [if_neg hne]
      rfl
    · have hnil : digits base text = [] := by
        by_contra hne
        have hlongest := scan_longest base text hne
        exact hnone _ hlongest.inside _ _ hlongest.numeral
      exact (ideal_nil hlo hhi hnil).symm
  · rintro rfl
    by_cases hnil : digits base text = []
    · rw [ideal_nil hlo hhi hnil]
      exact .nothing (scan_noNumeral base text hnil)
    unfold ideal stop
    rw [if_neg hnil]
    exact .number (scan_longest base text hnil)

end XsCore.Libc
