import XsCore.Libc.NumeralScan

/-! # Conversions of text to integers

`strtoll` is right on every text.  `strtoull` wraps negative numbers around.  `strtol` does not know
two of the space characters, skips a base mark that no digit follows, moves its end pointer past
blanks and a plus sign even when no number is there, and does not notice that a number is too large.
-/

namespace XsCore.Libc

open List

/-! ## The functions that share a reader -/

theorem digitsValue_accumulate (r : Nat) (ds : List UInt8) :
    Positional.accumulate r 0 (ds.filterMap asciiDigitValue) = digitsValue r ds :=
  Positional.accumulate_ofDigits _ _

variable {text : List UInt8} {base : Nat}

theorem dropWhile_length_eq {r : Nat} :
    (text.dropWhile (isDigit r)).length = text.length ↔ text.takeWhile (isDigit r) = [] := by
  have hsplit := congrArg List.length (takeWhile_append_dropWhile (p := isDigit r) (l := text))
  rw [length_append] at hsplit
  rw [← length_eq_zero_iff]
  omega

section

variable (hbase : base = 0 ∨ 2 ≤ base ∧ base ≤ 36)
include hbase

theorem radix_bounds (text : List UInt8) : 2 ≤ radix base text ∧ radix base text ≤ 36 := by
  unfold radix chooseBase
  split_ifs <;> omega

/-- `parse_unsigned_integer` reports the number up to the largest it can hold. -/
theorem parseUnsignedInteger_eq (text : List UInt8) : parseUnsignedInteger text base =
      ⟨if magnitude base text ≤ ullongMax then magnitude base text else ullongMax, minus text,
        decide (ullongMax < magnitude base text), stop base text, none⟩ := by
  obtain ⟨hradix, hradix'⟩ := radix_bounds hbase text
  have htop : radix base text ≤ ullongMax := hradix'.trans (by decide)
  have hsaturate : Positional.saturate ullongMax (radix base text) (0, false)
      ((digits base text).filterMap asciiDigitValue) =
      if magnitude base text ≤ ullongMax then (magnitude base text, false)
      else (ullongMax, true) := by
    have hdigits := digitValues_lt fun c (hc : c ∈ digits base text) => mem_takeWhile_imp hc
    rw [Positional.saturate_eq hradix htop hdigits (Nat.zero_le _), digitsValue_accumulate]
    rfl
  have hloop : digitLoop (radix base text) 0 false (start base text) =
      (if magnitude base text ≤ ullongMax then magnitude base text else ullongMax,
        decide (ullongMax < magnitude base text), rest base text) := by
    rw [digitLoop_eq, ← digits, hsaturate]
    split_ifs
    · rw [decide_eq_false (by omega)]
      rfl
    · rw [decide_eq_true (by omega)]
      rfl
  unfold parseUnsignedInteger
  dsimp only
  rw [if_neg (by omega), ← minus, ← body, ← radix, ← start, hloop]
  have hread : (rest base text).length = (start base text).length ↔ digits base text = [] :=
    dropWhile_length_eq
  unfold stop
  by_cases hnil : digits base text = []
  · rw [if_pos (hread.mpr hnil), if_pos hnil, magnitude_nil hnil]
    rfl
  · rw [if_neg (mt hread.mp hnil), if_neg hnil]

theorem strtoll_eq (text : List UInt8) :
    strtoll text base = ideal (-2 ^ 63) llongMax base text := by
  unfold strtoll
  rw [parseUnsignedInteger_eq hbase]
  unfold ideal signed
  generalize magnitude base text = m
  have htop : ullongMax = 2 ^ 64 - 1 := rfl
  have hlong : llongMax = 2 ^ 63 - 1 := rfl
  cases minus text with
  | false =>
    simp only [Bool.false_eq_true, if_false, decide_eq_true_eq]
    by_cases hfits : m ≤ llongMax
    · have hsmall : m ≤ ullongMax := by omega
      rw [if_pos hsmall, if_neg (by omega), if_pos (by omega)]
      congr 1
      omega
    · rw [if_pos (by split_ifs <;> omega), if_neg (by omega)]
      congr 1
      omega
  | true =>
    simp only [if_true, decide_eq_true_eq]
    by_cases hfits : m ≤ llongMax + 1
    · have hsmall : m ≤ ullongMax := by omega
      rw [if_pos hsmall, if_neg (by omega), if_pos (by omega)]
      congr 1
      omega
    · rw [if_pos (by split_ifs <;> omega), if_neg (by omega)]
      congr 1
      omega

/-- `strtoull` is right except on negative numbers, which it wraps around. -/
theorem strtoull_eq_iff (text : List UInt8) : strtoull text base = ideal 0 ullongMax base text ↔
      (minus text → magnitude base text = 0) := by
  unfold strtoull
  rw [parseUnsignedInteger_eq hbase]
  unfold ideal signed
  generalize magnitude base text = m
  have htop : ullongMax = 2 ^ 64 - 1 := rfl
  cases minus text with
  | false =>
    simp only [Bool.false_eq_true, if_false, decide_eq_true_eq, false_imp_iff, iff_true]
    by_cases hfits : m ≤ ullongMax
    · rw [if_neg (by omega), if_pos hfits, if_pos (by omega)]
      congr 1
      omega
    · rw [if_pos (by omega), if_neg (by omega)]
      congr 1
      omega
  | true =>
    simp only [if_true, decide_eq_true_eq, true_imp_iff]
    by_cases hzero : m = 0
    · subst hzero
      simp
    refine ⟨fun heq => ?_, fun h => absurd h hzero⟩
    by_cases hfits : m ≤ ullongMax
    · -- the wrapped number is reported without an error
      rw [if_neg (by omega), if_pos hfits, Outcome.mk.injEq, if_neg (by omega)] at heq
      cases heq.2.2
    · rw [if_pos (by omega), Outcome.mk.injEq] at heq
      omega

end

/-! ## `strtol` -/

def longBody (text : List UInt8) : List UInt8 := (takeSign (text.dropWhile isBlank)).2

def longMinus (text : List UInt8) : Bool := (takeSign (text.dropWhile isBlank)).1

theorem wrapLong_signed (negative : Bool) (v : Nat) :
    wrapLong (if negative then -wrapLong v else wrapLong v) = wrapLong (signed negative v) := by
  unfold wrapLong signed
  cases negative with
  | false => rw [if_neg Bool.false_ne_true, if_neg Bool.false_ne_true, Int.bmod_bmod]
  | true =>
    have hneg := Int.bmod_mul_bmod (x := (v : Int)) (y := -1) (n := 2 ^ 64)
    rw [Int.mul_neg_one, Int.mul_neg_one] at hneg
    rw [if_pos rfl, if_pos rfl, hneg]

theorem wrapLong_of_le {negative : Bool} {v : Nat} (h : v ≤ llongMax) :
    wrapLong (signed negative v) = signed negative v := by
  have hlong : llongMax = 2 ^ 63 - 1 := rfl
  unfold wrapLong
  apply Int.bmod_eq_of_le
  all_goals cases negative <;> simp only [signed, if_true, if_false, Bool.false_eq_true] <;> omega

theorem strtol_eq (text : List UInt8) (base : Nat) :
    let chosen := chooseLongBase base (longBody text)
    let read := chosen.2.takeWhile (isDigit chosen.1)
    strtol text base = ⟨wrapLong (signed (longMinus text) (digitsValue chosen.1 read)),
      if read = [] then
        if longMinus text then text.length - chosen.2.length - 1 else text.length - chosen.2.length
      else text.length - (chosen.2.dropWhile (isDigit chosen.1)).length, none⟩ := by
  intro chosen read
  have hloop : signedLoop chosen.1 0 chosen.2 =
      (wrapLong (digitsValue chosen.1 read : Nat), chosen.2.dropWhile (isDigit chosen.1)) := by
    rw [← digitsValue_accumulate]
    exact signedLoop_eq chosen.1 0 chosen.2
  have hread : (chosen.2.dropWhile (isDigit chosen.1)).length = chosen.2.length ↔ read = [] :=
    dropWhile_length_eq
  unfold strtol
  dsimp only
  rw [← longMinus, ← longBody, hloop]
  rw [wrapLong_signed, ← if_congr hread rfl rfl]

structure BareMark (base : Nat) (text : List UInt8) : Prop where
  base : base = 0 ∨ base = 16
  mark : hexMark (body text) = true
  bare : hexFollows (body text) = false

/-- The inputs that all four functions convert as they should: a number that is in the range of
`long` and not negative, behind blanks that `strtol` knows, without a bare base mark unless a minus
sign stands before it; or no number, with neither a blank nor a plus sign at the start. -/
def Ordinary (base : Nat) (text : List UInt8) : Prop :=
  (∃ n negative value, Longest base text n negative value ∧ value ≤ llongMax ∧
    (negative = true → value = 0) ∧ (∀ c ∈ text.takeWhile isSpace, isBlank c = true) ∧
    (BareMark base text → negative = true)) ∨
  NoNumeral base text ∧ ∀ c, text.head? = some c → isBlank c = false ∧ c ≠ 43

theorem isSpace_of_isBlank {c : UInt8} (h : isBlank c) : isSpace c := by
  unfold isSpace
  unfold isBlank at h
  rw [h]
  rfl

/-- The two functions skip the same space unless a vertical tab or a form feed is there. -/
theorem dropWhile_isBlank (h : ∀ c ∈ text.takeWhile isSpace, isBlank c) :
    text.dropWhile isBlank = text.dropWhile isSpace := by
  induction text with
  | nil => rfl
  | cons c text ih =>
    cases hspace : isSpace c with
    | true =>
      rw [takeWhile_cons_of_pos hspace] at h
      have hblank := h c mem_cons_self
      rw [dropWhile_cons_of_pos hblank, dropWhile_cons_of_pos hspace]
      exact ih fun c hc => h c (mem_cons_of_mem _ hc)
    | false =>
      have hblank : ¬ isBlank c := by
        intro hblank
        rw [isSpace_of_isBlank hblank] at hspace
        cases hspace
      rw [dropWhile_cons_of_neg hblank, dropWhile_cons_of_neg (by simp [hspace])]

/-- Otherwise `strtol` stops at the first of them. -/
theorem exists_other_space (h : ¬ ∀ c ∈ text.takeWhile isSpace, isBlank c) :
    ∃ c more, text.dropWhile isBlank = c :: more ∧ isSpace c ∧
      text.dropWhile isSpace = more.dropWhile isSpace := by
  induction text with
  | nil => exact absurd nofun h
  | cons c text ih =>
    rcases hspace : isSpace c with _ | _
    · rw [takeWhile_cons_of_neg (by simp [hspace])] at h
      exact absurd nofun h
    by_cases hblank : isBlank c
    · rw [takeWhile_cons_of_pos hspace] at h
      rw [dropWhile_cons_of_pos hblank, dropWhile_cons_of_pos hspace]
      exact ih fun hall => h (forall_mem_cons.mpr ⟨hblank, hall⟩)
    · exact ⟨c, text, dropWhile_cons_of_neg hblank, hspace, dropWhile_cons_of_pos hspace⟩

theorem chooseLongBase_eq (h : ¬ BareMark base text) :
    chooseLongBase base (body text) = chooseBase base (body text) := by
  have hmark : base = 0 ∨ base = 16 → hexMark (body text) = hexFollows (body text) := by
    intro hbase
    cases hhex : hexFollows (body text) with
    | true =>
      unfold hexFollows at hhex
      exact (Bool.and_eq_true_iff.mp hhex).1
    | false =>
      by_contra hmark
      exact h ⟨hbase, by simpa using hmark, hhex⟩
  unfold chooseLongBase chooseBase
  split
  next hzero =>
    rw [hmark (.inl hzero)]
    simp only [hzero, true_or, true_and]
    split_ifs <;> rfl
  next hzero =>
    by_cases hsixteen : base = 16
    · rw [hmark (.inr hsixteen)]
      simp [hsixteen]
    · rw [if_neg (fun h => hsixteen h.1), if_neg (·.1.elim hzero hsixteen)]

theorem takeWhile_nil_of_head {p : UInt8 → Bool} (h : text.head?.any p = false) :
    text.takeWhile p = [] := by
  cases text with
  | nil => rfl
  | cons c text =>
    have hc : p c = false := h
    exact takeWhile_cons_of_neg (by simp [hc])

theorem BareMark.digits (h : BareMark base text) :
    ∃ x more, body text = 48 :: x :: more ∧ digits base text = [48] ∧ rest base text = x :: more ∧
      chooseLongBase base (body text) = (16, more) ∧ more.takeWhile (isDigit 16) = [] := by
  obtain ⟨x, more, hbody, hx⟩ : ∃ x more, body text = 48 :: x :: more ∧ (x = 120 ∨ x = 88) := by
    have hmark := h.mark
    match htext : body text with
    | [] => rw [htext] at hmark; cases hmark
    | [_] => rw [htext] at hmark; cases hmark
    | z :: x :: more =>
      rw [htext] at hmark
      simp only [hexMark, Bool.and_eq_true, Bool.or_eq_true, decide_eq_true_eq] at hmark
      exact ⟨x, more, by rw [hmark.1], hmark.2⟩
  have hbare : more.takeWhile (isDigit 16) = [] := by
    apply takeWhile_nil_of_head
    have hnot := h.bare
    unfold hexFollows at hnot
    rw [h.mark, Bool.true_and, hbody] at hnot
    exact hnot
  obtain ⟨r, hr, hr', hchoose⟩ :
      ∃ r, 0 < r ∧ r ≤ 16 ∧ chooseBase base (body text) = (r, body text) := by
    unfold chooseBase
    rw [if_neg (by simp [h.bare])]
    rcases h.base with hzero | hsixteen
    · rw [if_pos hzero, hbody]
      exact ⟨8, by omega, by omega, rfl⟩
    · rw [if_neg (by omega)]
      exact ⟨base, by omega, by omega, rfl⟩
  have hzero : isDigit r 48 := by
    have hvalue : asciiDigitValue 48 = some 0 := rfl
    unfold isDigit
    rw [hvalue]
    simpa using hr
  have hletter : ¬ isDigit r x := by simp [mark_not_digit hr' hx]
  have hlong : chooseLongBase base (body text) = (16, more) := by
    unfold chooseLongBase
    rw [h.mark, hbody]
    rcases h.base with hzero | hsixteen
    · simp [hzero]
    · simp [hsixteen]
  refine ⟨x, more, hbody, ?_, ?_, hlong, hbare⟩
  · unfold Libc.digits radix start
    rw [hchoose, hbody, takeWhile_cons_of_pos hzero, takeWhile_cons_of_neg hletter]
  · unfold rest radix start
    rw [hchoose, hbody, dropWhile_cons_of_pos hzero, dropWhile_cons_of_neg hletter]

/-- Behind blanks that `strtol` knows the two scans see the same sign and the same text. -/
theorem long_scan (hlead : ∀ c ∈ text.takeWhile isSpace, isBlank c) :
    longBody text = body text ∧ longMinus text = minus text := by
  unfold longBody body longMinus minus
  rw [dropWhile_isBlank hlead]
  exact ⟨rfl, rfl⟩

/-- On a number in the range of `long` behind blanks it knows, `strtol` and `strtoll` agree. -/
theorem strtol_number (hne : digits base text ≠ [])
    (hlead : ∀ c ∈ text.takeWhile isSpace, isBlank c)
    (hmark : BareMark base text → minus text) (hrange : magnitude base text ≤ llongMax) :
    strtol text base = ⟨signed (minus text) (magnitude base text), stop base text, none⟩ := by
  obtain ⟨hbody, hminus⟩ := long_scan hlead
  have hlong := strtol_eq text base
  rw [hbody, hminus] at hlong
  unfold stop
  rw [if_neg hne, hlong]
  by_cases hbare : BareMark base text
  · obtain ⟨x, more, -, hdigits, hrest, hchoose, hnone⟩ := hbare.digits
    have hzero : magnitude base text = 0 := by
      unfold magnitude
      rw [hdigits]
      rfl
    rw [hchoose, hmark hbare, hzero, hrest]
    rw [hnone]
    have hvalue : wrapLong (signed true (digitsValue 16 [])) = signed true 0 := by decide
    rw [hvalue, if_pos rfl, if_pos rfl, length_cons, Nat.sub_sub]
  · rw [chooseLongBase_eq hbare]
    show (⟨wrapLong (signed (minus text) (magnitude base text)),
      if digits base text = [] then _ else text.length - (rest base text).length, none⟩ :
        Outcome) = _
    rw [if_neg hne, wrapLong_of_le hrange]

theorem wrapLong_zero (negative : Bool) (radix : Nat) :
    wrapLong (signed negative (digitsValue radix [])) = 0 :=
  (wrapLong_of_le (Nat.zero_le _)).trans (by cases negative <;> rfl)

theorem strtol_no_digits (hstart : (chooseLongBase base (longBody text)).2 = longBody text)
    (hread : (longBody text).takeWhile (isDigit (chooseLongBase base (longBody text)).1) = [])
    (hlength : text.length = (longBody text).length + if longMinus text then 1 else 0) :
    strtol text base = ⟨0, 0, none⟩ := by
  rw [strtol_eq, hstart, hread]
  rw [wrapLong_zero, if_pos rfl]
  cases hminus : longMinus text <;> simp [hlength, hminus]

theorem start_eq_body (hnil : digits base text = []) :
    (chooseBase base (body text)).2 = body text := by
  have hhex : ¬ ((base = 0 ∨ base = 16) ∧ hexFollows (body text)) := by
    intro hhex
    obtain ⟨x, c, more, htext, -, hc⟩ := hexFollows_spec hhex.2
    unfold digits radix start chooseBase at hnil
    rw [if_pos hhex, htext] at hnil
    have hread : (c :: more).takeWhile (isDigit 16) = [] := hnil
    rw [takeWhile_cons_of_pos hc] at hread
    cases hread
  unfold chooseBase
  rw [if_neg hhex]
  split_ifs <;> rfl

theorem chooseLongBase_of_head {c : UInt8} (hc : c ≠ 48) :
    (chooseLongBase base (c :: text)).2 = c :: text := by
  have hmark : hexMark (c :: text) = false := by
    cases text with
    | nil => rfl
    | cons x text => simp [hexMark, hc]
  unfold chooseLongBase
  rw [hmark]
  split_ifs <;> simp_all

/-- A space that `strtol` does not know stops it. -/
theorem strtol_at_space (base : Nat) {c : UInt8} {more : List UInt8}
    (hskip : text.dropWhile isBlank = c :: more) (hspace : isSpace c) :
    strtol text base = ⟨0, text.length - (c :: more).length, none⟩ := by
  have hother : c ≠ 45 ∧ c ≠ 43 ∧ c ≠ 48 := by refine ⟨?_, ?_, ?_⟩ <;> (rintro rfl; cases hspace)
  have hdigit : ∀ r, ¬ isDigit r c := by
    intro r hdigit
    rw [(isDigit_not_space hdigit).1] at hspace
    cases hspace
  have hsign : takeSign (text.dropWhile isBlank) = (false, c :: more) := by
    rw [hskip]
    simp [takeSign, hother.1, hother.2.1]
  rw [strtol_eq, longBody, longMinus, hsign]
  rw [chooseLongBase_of_head hother.2.2, takeWhile_cons_of_neg (hdigit _), if_pos rfl]
  rw [wrapLong_zero, if_neg Bool.false_ne_true]

theorem strtol_nothing (hnil : digits base text = [])
    (hhead : ∀ c, text.head? = some c → isBlank c = false ∧ c ≠ 43) :
    strtol text base = ⟨0, 0, none⟩ := by
  cases text with
  | nil =>
    apply strtol_no_digits
    · show (chooseLongBase base []).2 = []
      unfold chooseLongBase
      split_ifs <;> simp_all [hexMark]
    · rfl
    · rfl
  | cons c more =>
    obtain ⟨hblank, hplus⟩ := hhead c rfl
    have hskip : (c :: more).dropWhile isBlank = c :: more :=
      dropWhile_cons_of_neg (by simp [hblank])
    rcases hspace : isSpace c with _ | _
    swap
    · simpa using strtol_at_space base hskip hspace
    have hsame : (c :: more).dropWhile isSpace = c :: more :=
      dropWhile_cons_of_neg (by simp [hspace])
    have hbody : longBody (c :: more) = body (c :: more) := by
      unfold longBody body
      rw [hskip, hsame]
    have hbare : ¬ BareMark base (c :: more) := by
      intro hbare
      obtain ⟨_, _, _, hdigits, _⟩ := hbare.digits
      rw [hnil] at hdigits
      cases hdigits
    apply strtol_no_digits
    · rw [hbody, chooseLongBase_eq hbare]
      exact start_eq_body hnil
    · rw [hbody, chooseLongBase_eq hbare]
      unfold digits start radix at hnil
      rwa [start_eq_body hnil] at hnil
    · unfold longBody longMinus
      rw [hskip]
      by_cases hminus : c = 45
      · simp [takeSign, hminus]
      · simp [takeSign, hminus, hplus]

theorem longBody_length (text : List UInt8) :
    (text.dropWhile isBlank).length ≤ (longBody text).length + 1 ∧
      (longBody text).length + (if longMinus text then 1 else 0) ≤
        (text.dropWhile isBlank).length := by
  obtain ⟨sign, hsign, hnegative⟩ := takeSign_spec (text.dropWhile isBlank)
  have hlength := congrArg List.length hsign
  rw [length_append] at hlength
  unfold longBody longMinus
  rw [← hnegative]
  cases sign <;> simp [Sign.bytes, Sign.negative] at hlength ⊢ <;> omega

theorem chooseLongBase_suffix (base : Nat) (text : List UInt8) :
    (chooseLongBase base text).2 <:+ text := by
  unfold chooseLongBase
  split_ifs
  all_goals first
    | exact drop_suffix 2 text
    | exact suffix_rfl

theorem strtol_stop_ge (text : List UInt8) (base : Nat) :
    text.length - (text.dropWhile isBlank).length ≤ (strtol text base).stop ∧
      (longMinus text = false →
        text.length - (longBody text).length ≤ (strtol text base).stop) := by
  have hbody := (longBody_length text).2
  have hstart := (chooseLongBase_suffix base (longBody text)).length_le
  have hrest := (dropWhile_suffix (isDigit (chooseLongBase base (longBody text)).1)
    (l := (chooseLongBase base (longBody text)).2)).length_le
  rw [strtol_eq]
  dsimp only
  rcases hminus : longMinus text with _ | _
  · rw [hminus, if_neg Bool.false_ne_true] at hbody
    rw [if_neg Bool.false_ne_true]
    split_ifs <;> omega
  rw [hminus, if_pos rfl] at hbody
  rw [if_pos rfl]
  refine ⟨?_, fun h => nomatch h⟩
  split_ifs <;> omega

theorem strtol_other_space (hne : digits base text ≠ [])
    (hlead : ¬ ∀ c ∈ text.takeWhile isSpace, isBlank c) :
    (strtol text base).stop < stop base text := by
  obtain ⟨c, more, hskip, hspace, hrest⟩ := exists_other_space hlead
  have hstop := congrArg Outcome.stop (strtol_at_space base hskip hspace)
  dsimp only at hstop
  -- the number starts behind this space
  have hlong := (dropWhile_suffix isBlank (l := text)).length_le
  have hshort := (dropWhile_suffix isSpace (l := more)).length_le
  have hread : (rest base text).length < (start base text).length := by
    have hsplit : start base text = digits base text ++ rest base text :=
      takeWhile_append_dropWhile.symm
    have hpos := length_pos_iff.mpr hne
    rw [hsplit, length_append]
    omega
  have hstart : (start base text).length ≤ (text.dropWhile isSpace).length := by
    obtain ⟨sign, hsign, -⟩ := takeSign_spec (text.dropWhile isSpace)
    have hbody : body text <:+ text.dropWhile isSpace := ⟨sign.bytes, hsign.symm⟩
    exact ((chooseBase_suffix base (body text)).trans hbody).length_le
  unfold stop
  rw [if_neg hne, hstop]
  rw [hskip, length_cons] at hlong
  rw [hrest] at hstart
  rw [length_cons]
  omega

theorem strtol_bare_mark (hbare : BareMark base text)
    (hlead : ∀ c ∈ text.takeWhile isSpace, isBlank c) (hplain : minus text = false) :
    (strtol text base).stop ≠ stop base text := by
  obtain ⟨x, more, htext, hdigits, hrest, hchoose, hnone⟩ := hbare.digits
  obtain ⟨hbody, hminus⟩ := long_scan hlead
  have hlength := (body_suffix text).length_le
  rw [htext, length_cons, length_cons] at hlength
  rw [strtol_eq, hbody, hminus, hplain, hchoose]
  unfold stop
  rw [hdigits, hrest, if_neg (cons_ne_nil _ _), length_cons]
  dsimp only
  rw [hnone, if_pos rfl, if_neg Bool.false_ne_true]
  omega

theorem strtol_passes (base : Nat) {c : UInt8} (more : List UInt8)
    (hc : isBlank c ∨ c = 43) : (strtol (c :: more) base).stop ≠ 0 := by
  obtain ⟨hblanks, hsign⟩ := strtol_stop_ge (c :: more) base
  rcases hc with hblank | hplus
  · rw [dropWhile_cons_of_pos hblank, length_cons] at hblanks
    have hshort := (dropWhile_suffix isBlank (l := more)).length_le
    omega
  subst hplus
  have hpast := hsign rfl
  have hbody : longBody (43 :: more) = more := rfl
  rw [hbody, length_cons] at hpast
  omega

/-- The ordinary inputs, said of what the scan finds. -/
theorem ordinary_iff (base : Nat) (text : List UInt8) : Ordinary base text ↔
      (digits base text ≠ [] ∧ magnitude base text ≤ llongMax ∧
        (minus text → magnitude base text = 0) ∧
        (∀ c ∈ text.takeWhile isSpace, isBlank c) ∧
        (BareMark base text → minus text)) ∨
      digits base text = [] ∧ ∀ c, text.head? = some c → isBlank c = false ∧ c ≠ 43 := by
  constructor
  · rintro (⟨n, negative, value, hlongest, hrest⟩ | ⟨hnone, hhead⟩)
    · obtain ⟨hne, -, rfl, rfl⟩ := hlongest.unique
      exact .inl ⟨hne, hrest⟩
    · refine .inr ⟨?_, hhead⟩
      by_contra hne
      have hlongest := scan_longest base text hne
      exact hnone _ hlongest.inside _ _ hlongest.numeral
  · rintro (⟨hne, hrest⟩ | ⟨hnil, hhead⟩)
    · exact .inl ⟨_, _, _, scan_longest base text hne, hrest⟩
    · exact .inr ⟨scan_noNumeral base text hnil, hhead⟩

theorem llong_range : (-2 ^ 63 : Int) ≤ 0 ∧ (0 : Int) ≤ llongMax ∧ (0 : Int) ≤ ullongMax := by
  decide

theorem Ordinary.strtol_eq (h : Ordinary base text) :
    strtol text base = ideal (-2 ^ 63) llongMax base text := by
  have hlong : llongMax = 2 ^ 63 - 1 := rfl
  rcases (ordinary_iff base text).mp h with ⟨hne, hrange, hunsigned, hlead, hmark⟩ | ⟨hnil, hhead⟩
  · rw [strtol_number hne hlead hmark hrange]
    have hbounds : -2 ^ 63 ≤ signed (minus text) (magnitude base text) ∧
        signed (minus text) (magnitude base text) ≤ llongMax := by
      unfold signed
      split_ifs <;> omega
    unfold ideal
    dsimp only
    rw [if_pos hbounds, min_eq_right hbounds.2, max_eq_right hbounds.1]
  · rw [strtol_nothing hnil hhead, ideal_nil llong_range.1 llong_range.2.1 hnil]

theorem ordinary_of_strtol (hunsigned : minus text → magnitude base text = 0)
    (h : strtol text base = ideal (-2 ^ 63) llongMax base text) : Ordinary base text := by
  have hstop : (strtol text base).stop = stop base text := by rw [h]; rfl
  have herrno : (ideal (-2 ^ 63) llongMax base text).errno = none := by rw [← h]; rfl
  rw [ordinary_iff]
  by_cases hnil : digits base text = []
  · refine .inr ⟨hnil, fun c hc => ?_⟩
    have hzero : stop base text = 0 := if_pos hnil
    obtain ⟨more, rfl⟩ : ∃ more, text = c :: more := by
      cases text with
      | nil => cases hc
      | cons c' more =>
        cases hc
        exact ⟨more, rfl⟩
    by_contra hbad
    refine strtol_passes base more ?_ (hstop.trans hzero)
    by_cases hblank : isBlank c
    · exact .inl hblank
    · exact .inr (by simpa [hblank] using hbad)
  · have hlead : ∀ c ∈ text.takeWhile isSpace, isBlank c := by
      by_contra hother
      exact absurd hstop (strtol_other_space hnil hother).ne
    refine .inl ⟨hnil, ?_, hunsigned, hlead, fun hbare => ?_⟩
    · unfold ideal at herrno
      dsimp only at herrno
      split_ifs at herrno with hbounds
      cases hminus : minus text with
      | false =>
        rw [hminus] at hbounds
        have hle : ((magnitude base text : Nat) : Int) ≤ llongMax := hbounds.2
        omega
      | true =>
        rw [hunsigned hminus]
        exact Nat.zero_le _
    · by_contra hplain
      exact strtol_bare_mark hbare hlead (by simpa using hplain) hstop

theorem Ordinary.strtoul_eq (h : Ordinary base text) :
    strtoul text base = ideal 0 ullongMax base text := by
  have hlong : llongMax = 2 ^ 63 - 1 := rfl
  have htop : ullongMax = 2 ^ 64 - 1 := rfl
  have hvalue : 0 ≤ signed (minus text) (magnitude base text) ∧
      signed (minus text) (magnitude base text) ≤ llongMax := by
    rcases (ordinary_iff base text).mp h with ⟨-, hrange, hunsigned, -⟩ | ⟨hnil, -⟩
    · unfold signed
      cases hminus : minus text with
      | false => simpa using hrange
      | true => simp [hunsigned hminus]
    · rw [magnitude_nil hnil]
      cases minus text <;> decide
  unfold strtoul
  rw [h.strtol_eq]
  unfold ideal
  dsimp only
  rw [if_pos (by omega), if_pos (by omega)]
  congr 1
  omega

/-- The four functions convert the text as they should, and the two signed ones agree, exactly on
the ordinary inputs. -/
theorem integer_parsing (text : List UInt8) (base : Nat) (hbase : base = 0 ∨ 2 ≤ base ∧ base ≤ 36) :
    (Converts (-2 ^ 63) llongMax base text (strtol text base) ∧
      Converts 0 ullongMax base text (strtoul text base) ∧
      Converts (-2 ^ 63) llongMax base text (strtoll text base) ∧
      Converts 0 ullongMax base text (strtoull text base) ∧
      strtol text base = strtoll text base) ↔ Ordinary base text := by
  obtain ⟨hmin, hmax, hunsigned⟩ := llong_range
  rw [converts_iff hmin hmax, converts_iff le_rfl hunsigned, converts_iff hmin hmax,
    converts_iff le_rfl hunsigned, strtoull_eq_iff hbase, strtoll_eq hbase]
  constructor
  · rintro ⟨hstrtol, -, -, hsign, -⟩
    exact ordinary_of_strtol hsign hstrtol
  · intro h
    have hsign : minus text → magnitude base text = 0 := by
      rcases (ordinary_iff base text).mp h with ⟨-, -, hsign, -⟩ | ⟨hnil, -⟩
      · exact hsign
      · exact fun _ => magnitude_nil hnil
    exact ⟨h.strtol_eq, h.strtoul_eq, rfl, hsign, h.strtol_eq⟩

/-- A blank, a plus sign and `42`. -/
theorem integer_parsing_forty_two : Converts (-2 ^ 63) llongMax 0 [32, 43, 52, 50] ⟨42, 4, none⟩ ∧
      Converts 0 ullongMax 0 [32, 43, 52, 50] ⟨42, 4, none⟩ := by
  have hordinary : Ordinary 0 [32, 43, 52, 50] := by
    rw [ordinary_iff]
    have hmark : hexMark (body [32, 43, 52, 50]) ≠ true := by decide +kernel
    have hscan : digits 0 [32, 43, 52, 50] ≠ [] ∧ magnitude 0 [32, 43, 52, 50] ≤ llongMax ∧
        (minus [32, 43, 52, 50] → magnitude 0 [32, 43, 52, 50] = 0) ∧
        ∀ c ∈ [32, 43, 52, 50].takeWhile isSpace, isBlank c := by
      decide +kernel
    exact .inl ⟨hscan.1, hscan.2.1, hscan.2.2.1, hscan.2.2.2, fun h => absurd h.mark hmark⟩
  obtain ⟨hlong, hunsigned, -⟩ := (integer_parsing [32, 43, 52, 50] 0 (.inl rfl)).mpr hordinary
  exact ⟨hlong, hunsigned⟩

/-- `0x` with nothing behind it, and the least number above the range of `long`. -/
theorem strtol_strtoll_differ : (strtol [48, 120] 16).stop = 2 ∧ (strtoll [48, 120] 16).stop = 1 ∧
      let large : List UInt8 := [57, 50, 50, 51, 51, 55, 50, 48, 51, 54, 56, 53, 52, 55, 55, 53, 56,
        48, 56]
      strtol large 10 = ⟨-2 ^ 63, 19, none⟩ ∧ strtoll large 10 = ⟨2 ^ 63 - 1, 19, some .range⟩ := by
  decide +kernel

end XsCore.Libc
