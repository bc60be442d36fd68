import XsCore.Libc.Format

/-! # Integer conversions as the C standard has them

A directive is a list of flags in any order, a width, a precision, a length modifier and a
conversion.  `standardText` is the text that the standard prescribes for it.
-/

namespace XsCore.Libc

open List

variable (digit : Fin 10) (digits : List (Fin 10)) (p : FieldPrecision)
variable {tail : List UInt8} {val : Nat}

/-! ## Directives -/

inductive FormatFlag where
  | minus
  | plus
  | space
  | hash
  | zero
  deriving DecidableEq

open FormatFlag

/-- A width starts with a digit that is not zero; a zero would be a flag. -/
inductive FieldWidth where
  | absent
  | star
  | literal (first : Fin 10) (digits : List (Fin 10)) (h : first ≠ 0)

inductive FieldPrecision where
  | absent
  | star
  | literal (digits : List (Fin 10))

inductive LengthModifier where
  | none
  | h
  | hh
  | l
  | ll
  | z
  deriving DecidableEq

inductive IntegerConversion where
  | d
  | i
  | u
  | o
  | x
  | upperX
  deriving DecidableEq

open IntegerConversion

structure Directive where
  flags : List FormatFlag
  width : FieldWidth
  precision : FieldPrecision
  length : LengthModifier
  conversion : IntegerConversion

open Directive

def FormatFlag.char : FormatFlag → UInt8
  | .minus => 45
  | .plus => 43
  | .space => 32
  | .hash => 35
  | .zero => 48

@[simp] theorem FormatFlag.char_minus : minus.char = 45 := rfl

@[simp] theorem FormatFlag.char_plus : plus.char = 43 := rfl

@[simp] theorem FormatFlag.char_space : space.char = 32 := rfl

@[simp] theorem FormatFlag.char_hash : hash.char = 35 := rfl

@[simp] theorem FormatFlag.char_zero : zero.char = 48 := rfl

def digitChar (digit : Fin 10) : UInt8 := UInt8.ofNat (48 + digit)

def FieldWidth.text : FieldWidth → List UInt8
  | .absent => []
  | .star => [42]
  | .literal first digits _ => (first :: digits).map digitChar

def FieldPrecision.text : FieldPrecision → List UInt8
  | .absent => []
  | .star => [46, 42]
  | .literal digits => 46 :: digits.map digitChar

def LengthModifier.text : LengthModifier → List UInt8
  | .none => []
  | .h => [104]
  | .hh => [104, 104]
  | .l => [108]
  | .ll => [108, 108]
  | .z => [122]

def IntegerConversion.char : IntegerConversion → UInt8
  | .d => 100
  | .i => 105
  | .u => 117
  | .o => 111
  | .x => 120
  | .upperX => 88

def Directive.body (d : Directive) : List UInt8 :=
  d.flags.map (·.char) ++ (d.width.text ++ (d.precision.text ++
    (d.length.text ++ [d.conversion.char])))

def Directive.text (d : Directive) : List UInt8 := 37 :: d.body

/-! ## What the standard prescribes -/

def decimalFrom : Nat → List (Fin 10) → Nat
  | n, [] => n
  | n, digit :: digits => decimalFrom (n * 10 + digit.val) digits

def decimalValue (digits : List (Fin 10)) : Nat := decimalFrom 0 digits

def FieldWidth.value (word : BitVec 64) : FieldWidth → Int
  | .absent => 0
  | .star => vaInt word
  | .literal first digits _ => decimalValue (first :: digits)

def FieldWidth.words : FieldWidth → Nat
  | .star => 1
  | _ => 0

def FieldPrecision.words : FieldPrecision → Nat
  | .star => 1
  | _ => 0

/-- The precision; a negative argument is as if there were none. -/
def FieldPrecision.value (word : BitVec 64) : FieldPrecision → Option Nat
  | .absent => none
  | .star => if vaInt word < 0 then none else some (vaInt word).toNat
  | .literal digits => some (decimalValue digits)

def IntegerConversion.isSigned : IntegerConversion → Bool
  | .d | .i => true
  | .u | .o | .x | .upperX => false

def IntegerConversion.base : IntegerConversion → Nat
  | .d | .i | .u => 10
  | .o => 8
  | .x | .upperX => 16

def LengthModifier.bits (wide : Bool) : LengthModifier → Nat
  | .none => 32
  | .h => 16
  | .hh => 8
  | .l | .z => if wide then 64 else 32
  | .ll => 64

/-- At least as many digits as the precision asks for, by default one; the alternate form of an
octal number starts with a zero. -/
def standardDigits (c : IntegerConversion) (hash : Bool) (precision : Option Nat) (n : Nat) :
    List UInt8 :=
  let digits := (Nat.digits c.base n).reverse.map (hexDigit (c == .upperX))
  let digits := replicate (precision.getD 1 - digits.length) 48 ++ digits
  if c = .o ∧ hash ∧ digits.head? ≠ some 48 then 48 :: digits else digits

/-- The sign of a signed conversion, or the prefix of a nonzero hexadecimal number in its alternate
form. -/
def standardLead (c : IntegerConversion) (flags : List FormatFlag) (value : Int) : List UInt8 :=
  if c.isSigned then
    if value < 0 then [45] else if .plus ∈ flags then [43] else if .space ∈ flags then [32] else []
  else if .hash ∈ flags ∧ value ≠ 0 then
    match c with
    | .x => [48, 120]
    | .upperX => [48, 88]
    | _ => []
  else []

def standardText (flags : List FormatFlag) (c : IntegerConversion) (width : Int)
    (precision : Option Nat) (value : Int) : List UInt8 :=
  let lead := standardLead c flags value
  let digits := standardDigits c (.hash ∈ flags) precision value.natAbs
  let room := width.natAbs - (lead.length + digits.length)
  if .minus ∈ flags ∨ width < 0 then lead ++ digits ++ replicate room 32
  else if .zero ∈ flags ∧ precision = none then lead ++ replicate room 48 ++ digits
  else replicate room 32 ++ lead ++ digits

section Prescribed

variable (args : FormatArguments) (va : VaList) (d : Directive)

def Directive.widthValue : Int := d.width.value (args.word va.words)

def Directive.precisionValue : Option Nat :=
  d.precision.value (args.word (va.words + d.width.words))

def Directive.place : Nat := va.words + d.width.words + d.precision.words

/-- The argument takes two words: a `long long` where words have 32 bits. -/
def Directive.isPair : Bool := d.length = .ll && !args.wide

def Directive.argument : Nat :=
  if d.isPair args then
    let low := d.place va + args.skipped (d.place va)
    (args.slot low).toNat + 2 ^ 32 * (args.slot (low + 1)).toNat
  else (args.slot (d.place va)).toNat

/-- `value` is of the type that the length modifier names, and it is what the caller passed; a type
narrower than `int` is passed as `int`. -/
structure Directive.Passes (value : Int) : Prop where
  typed : if d.conversion.isSigned then
      -2 ^ (d.length.bits args.wide - 1) ≤ value ∧ value < 2 ^ (d.length.bits args.wide - 1)
    else 0 ≤ value ∧ value < 2 ^ d.length.bits args.wide
  passed : (d.argument args va : Int) % 2 ^ max (d.length.bits args.wide) 32 =
    value % 2 ^ max (d.length.bits args.wide) 32

def Directive.prescribed (value : Int) : List UInt8 :=
  standardText d.flags d.conversion (d.widthValue args va) (d.precisionValue args va) value

def Directive.after : VaList :=
  { va with words :=
      if d.isPair args then d.place va + args.skipped (d.place va) + 2 else d.place va + 1 }

def FormatArguments.followedBy (later : Nat → BitVec 64) : FormatArguments :=
  { args with word := fun n => if n < va.words then args.word n else later n }

/-- The directive is formatted to the text of the standard and uses up its own arguments, whatever
arguments and format follow. -/
def Directive.AsPrescribed (value : Int) : Prop :=
  ∀ later rest, formatted (args.followedBy (d.after args va) later) (d.text ++ rest) va =
    (formatted (args.followedBy (d.after args va) later) rest (d.after args va)).map
      (d.prescribed args va value ++ ·)

end Prescribed

/-! ## Reading a directive -/

theorem length_text_head (m : LengthModifier) (c : IntegerConversion) (rest : List UInt8) :
    ∃ a t, m.text ++ c.char :: rest = a :: t ∧ 88 ≤ a := by
  cases m <;> cases c <;> exact ⟨_, _, rfl, by decide⟩

theorem precision_text_head (htail : ∃ a t, tail = a :: t ∧ 88 ≤ a) :
    ∃ a t, p.text ++ tail = a :: t ∧ (a = 46 ∨ 88 ≤ a) := by
  obtain ⟨a, t, rfl, ha⟩ := htail
  cases p with
  | absent => exact ⟨a, t, rfl, .inr ha⟩
  | star | literal digits => exact ⟨46, _, rfl, .inl rfl⟩

theorem digitChar_bounds : 48 ≤ digitChar digit ∧ digitChar digit ≤ 57 := by
  revert digit
  decide

theorem digitChar_toNat : (digitChar digit).toNat - 48 = digit := by
  revert digit
  decide

theorem width_text_head (w : FieldWidth) (htail : ∃ a t, tail = a :: t ∧ (a = 46 ∨ 88 ≤ a)) :
    ∃ a t, w.text ++ tail = a :: t ∧ (a = 42 ∨ a = 46 ∨ 49 ≤ a) := by
  obtain ⟨a, t, rfl, ha⟩ := htail
  cases w with
  | absent => exact ⟨a, t, rfl, by grind⟩
  | star => exact ⟨42, _, rfl, .inl rfl⟩
  | literal first digits h =>
    refine ⟨digitChar first, _, rfl, .inr (.inr ?_)⟩
    revert first
    decide

theorem le_decimalFrom (n : Nat) : n ≤ decimalFrom n digits := by
  induction digits generalizing n with
  | nil => exact Nat.le_refl n
  | cons digit digits ih =>
    have hnext := ih (n * 10 + digit.val)
    rw [decimalFrom]
    omega

variable {t : List UInt8} {a : UInt8} {word : BitVec 64}

theorem takeNumber_digits (ha : ¬(48 ≤ a ∧ a ≤ 57)) (n : Nat) (h : decimalFrom n digits < 2 ^ 31) :
    takeNumber n (digits.map digitChar ++ a :: t) = ((decimalFrom n digits : Int), a :: t) := by
  induction digits generalizing n with
  | nil => rw [map_nil, nil_append, takeNumber, if_neg ha, decimalFrom]
  | cons digit digits ih =>
    have hle := le_decimalFrom digits (n * 10 + digit.val)
    rw [decimalFrom] at h ⊢
    rw [map_cons, cons_append, takeNumber, if_pos (digitChar_bounds digit),
      digitChar_toNat, int32_eq (by omega) (by omega)]
    exact ih _ h

theorem takeFlags_text (flags : List FormatFlag)
    (ha : a = 42 ∨ a = 46 ∨ 49 ≤ a) (acc : FormatFlags) :
    takeFlags (flags.map (·.char) ++ a :: t) acc =
      (⟨acc.leftAlign || decide (.minus ∈ flags), acc.showSign || decide (.plus ∈ flags),
        acc.spaceSign || decide (.space ∈ flags), acc.altForm || decide (.hash ∈ flags),
        if .zero ∈ flags then 48 else acc.padChar⟩, a :: t) := by
  induction flags generalizing acc with
  | nil =>
    rw [map_nil, nil_append, takeFlags, if_neg (by grind), if_neg (by grind),
      if_neg (by grind), if_neg (by grind), if_neg (by grind)]
    simp
  | cons flag flags ih =>
    rw [map_cons, cons_append, takeFlags]
    cases flag <;> simp [ih]

def LengthModifier.size : LengthModifier → ArgumentSize
  | .none | .h | .hh => .int
  | .l => .long
  | .ll => .longLong
  | .z => .sizeT

theorem takeLength_text (m : LengthModifier) (c : IntegerConversion) (rest : List UInt8) :
    takeLength (m.text ++ c.char :: rest) = (m.size, c.char :: rest) := by
  cases m <;> cases c <;> rfl

def FieldPrecision.coded (word : BitVec 64) : FieldPrecision → Int
  | .absent => -1
  | .star => vaInt word
  | .literal digits => decimalValue digits

theorem takePrecision_text (args : FormatArguments) (va : VaList) (p : FieldPrecision) (ha : 88 ≤ a)
    (h : p.coded (args.word va.words) < 2 ^ 31) : takePrecision args va (p.text ++ a :: t) =
      (p.coded (args.word va.words), { va with words := va.words + p.words }, a :: t) := by
  cases p with
  | absent =>
    simp only [FieldPrecision.text, nil_append, takePrecision, if_neg (show ¬a = 46 by grind)]
    rfl
  | star => rfl
  | literal digits =>
    have hread := takeNumber_digits digits (a := a) (t := t) (by grind) 0
      (by rw [FieldPrecision.coded, decimalValue] at h; omega)
    -- the first byte after the dot is a digit or the letter that follows; neither is a star
    have hhead : ∃ b u, digits.map digitChar ++ a :: t = b :: u ∧ b ≠ 42 := by
      cases digits with
      | nil => exact ⟨a, t, rfl, by grind⟩
      | cons digit digits =>
        have hbounds := digitChar_bounds digit
        exact ⟨_, _, rfl, by grind⟩
    obtain ⟨b, u, hsplit, hb⟩ := hhead
    rw [FieldPrecision.text, cons_append, hsplit]
    rw [hsplit] at hread
    simp only [takePrecision, if_true, if_neg hb]
    rw [show (0 : Int) = ((0 : Nat) : Int) from rfl, hread]
    rfl

theorem takeWidth_text (args : FormatArguments) (va : VaList) (flags : FormatFlags)
    (w : FieldWidth) (ha : a = 46 ∨ 88 ≤ a) (h : (w.value (args.word va.words)).natAbs < 2 ^ 31) :
    takeWidth args va flags (w.text ++ a :: t) =
      (((w.value (args.word va.words)).natAbs : Int),
        { flags with leftAlign := flags.leftAlign || decide (w.value (args.word va.words) < 0) },
        { va with words := va.words + w.words }, a :: t) := by
  cases w with
  | absent =>
    rw [FieldWidth.text, nil_append, takeWidth, if_neg (by grind)]
    simp only [takeNumber, if_neg (show ¬(48 ≤ a ∧ a ≤ 57) by grind), FieldWidth.value]
    simp [FieldWidth.words]
  | star =>
    rw [FieldWidth.value] at h
    simp only [FieldWidth.text, FieldWidth.value, FieldWidth.words, cons_append,
      nil_append, takeWidth, if_true]
    split
    · rename_i hneg
      rw [int32_eq (by omega) (by omega)]
      simp only [hneg, decide_true, Bool.or_true]
      congr 1
      omega
    · rename_i hneg
      simp only [hneg, decide_false, Bool.or_false]
      congr 1
      omega
  | literal first digits hfirst =>
    rw [FieldWidth.value, decimalValue] at h
    have hread := takeNumber_digits (first :: digits) (a := a) (t := t) (by grind) 0 (by omega)
    have hbounds := digitChar_bounds first
    rw [FieldWidth.text, map_cons, cons_append, takeWidth, if_neg (by grind)]
    rw [map_cons, cons_append] at hread
    rw [show (0 : Int) = ((0 : Nat) : Int) from rfl, hread]
    have hpos : ¬((decimalFrom 0 (first :: digits) : Int) < 0) := by omega
    simp [FieldWidth.value, FieldWidth.words, decimalValue, hpos]

def Directive.codedPrecision (d : Directive) (args : FormatArguments) (va : VaList) : Int :=
  d.precision.coded (args.word (va.words + d.width.words))

def Directive.converted (d : Directive) (args : FormatArguments) (va : VaList) :=
  convertSpec args { va with words := va.words + d.width.words + d.precision.words }
    { leftAlign := decide (.minus ∈ d.flags) || decide (d.widthValue args va < 0)
      showSign := decide (.plus ∈ d.flags)
      spaceSign := decide (.space ∈ d.flags)
      altForm := decide (.hash ∈ d.flags)
      padChar := if .minus ∈ d.flags then 32 else if .zero ∈ d.flags then 48 else 32 }
    (d.widthValue args va).natAbs (d.codedPrecision args va) d.length.size d.conversion.char

theorem Directive.body_append (d : Directive) (rest : List UInt8) :
    d.body ++ rest = d.flags.map (·.char) ++ (d.width.text ++ (d.precision.text ++
      (d.length.text ++ d.conversion.char :: rest))) := by
  simp [body]

/-- What a directive does once it is read. -/
theorem convert_body (args : FormatArguments) (va : VaList) (d : Directive) (rest : List UInt8)
    (hwidth : (d.widthValue args va).natAbs < 2 ^ 31) (hprec : d.codedPrecision args va < 2 ^ 31) :
    convert args va (d.body ++ rest) =
      some ((d.converted args va).1, rest, (d.converted args va).2) := by
  have htail := length_text_head d.length d.conversion rest
  have hdot := precision_text_head d.precision htail
  have hhead := width_text_head d.width hdot
  have hbody := d.body_append rest
  have hlength := takeLength_text d.length d.conversion rest
  obtain ⟨a, t, htail, ha⟩ := htail
  rw [htail] at hlength
  rw [htail] at hbody hdot hhead
  obtain ⟨b, u, hdot, hb⟩ := hdot
  have hprecision := takePrecision_text args { va with words := va.words + d.width.words }
    d.precision (t := t) ha hprec
  rw [hdot] at hprecision hbody hhead
  obtain ⟨c, v, hhead, hc⟩ := hhead
  rw [hhead] at hbody
  have hread := fun flags => takeWidth_text args va flags d.width (t := u) hb hwidth
  rw [hhead] at hread
  rw [hbody, convert, takeFlags_text d.flags hc, converted, codedPrecision]
  by_cases hminus : minus ∈ d.flags
  · simp only [hminus, decide_true, if_true, Bool.true_or, Bool.false_or, hread, hprecision,
      hlength, widthValue]
  dsimp only
  rw [if_neg (by simpa using hminus), hread]
  rw [hprecision]
  rw [hlength, if_neg hminus]
  rw [Bool.false_or, Bool.false_or, Bool.false_or, Bool.false_or]
  rfl

/-! ## Writing a number -/

variable {base : Nat}

theorem digitLoopOut_eq (hbase : 2 ≤ base) (uppercase : Bool) {fuel : Nat} (h : val < 2 ^ fuel) :
    digitLoopOut base uppercase fuel val = (Nat.digits base val).map (hexDigit uppercase) := by
  induction fuel generalizing val with
  | zero =>
    have hzero : val = 0 := by omega
    rw [hzero, digitLoopOut, Nat.digits_zero, map_nil]
  | succ fuel ih =>
    rw [digitLoopOut]
    split
    · rename_i hpos
      have hsmaller : val / base ≤ val / 2 := Nat.div_le_div_left hbase (by decide)
      rw [Nat.digits_def' hbase hpos, map_cons, ih (by omega)]
    · have hzero : val = 0 := by omega
      rw [hzero, Nat.digits_zero, map_nil]

def precisionOf (prec : Int) : Option Nat := if prec < 0 then none else some prec.toNat

theorem FieldPrecision.value_eq (word : BitVec 64) : p.value word = precisionOf (p.coded word) := by
  cases p with
  | absent | star => rfl
  | literal digits =>
    rw [FieldPrecision.value, FieldPrecision.coded, precisionOf, if_neg (by omega), Int.toNat_natCast]

variable {prec : Int}

theorem numZeros_eq (hprec : prec < 2 ^ 31) (n : Nat) :
    numZeros prec n = ((prec.toNat - n : Nat) : Int) := by
  unfold numZeros
  split
  · rw [int32_eq (by omega) (by omega)]
    omega
  · omega

theorem numDigits_eq (hbase : 2 ≤ base) (uppercase : Bool) (hprec : prec < 2 ^ 31)
    (hval : val < 2 ^ 64) : copies (numZeros prec (numDigits base uppercase prec val).length) 48 ++
        (numDigits base uppercase prec val).reverse =
      replicate ((precisionOf prec).getD 1 - (Nat.digits base val).length) 48 ++
        (Nat.digits base val).reverse.map (hexDigit uppercase) := by
  rw [numZeros_eq hprec, copies, Int.toNat_natCast]
  unfold numDigits precisionOf
  split
  · rename_i hzero
    rw [hzero, Nat.digits_zero, reverse_nil, map_nil, append_nil, length_nil, Nat.sub_zero]
    by_cases hone : prec = 0
    · rw [hone]
      rfl
    rw [if_pos hone, reverse_singleton, length_singleton, ← replicate_succ']
    congr 1
    split
    · rw [Option.getD_none]
      omega
    · rw [Option.getD_some]
      omega
  · rename_i hne
    have hlen : 0 < (Nat.digits base val).length :=
      length_pos_iff.mpr (Nat.digits_ne_nil_iff_ne_zero.mpr hne)
    rw [digitLoopOut_eq hbase uppercase hval, length_map, map_reverse]
    congr 2
    split
    · rw [Option.getD_none]
      omega
    · rw [Option.getD_some]

theorem numDigits_length_pos (hbase : 2 ≤ base) (uppercase : Bool) (prec : Int)
    (hval : val < 2 ^ 64) (hpos : 0 < val) : 0 < (numDigits base uppercase prec val).length := by
  rw [numDigits, if_neg hpos.ne', digitLoopOut_eq hbase uppercase hval, length_map, length_pos_iff]
  exact Nat.digits_ne_nil_iff_ne_zero.mpr hpos.ne'

variable {digits : List UInt8}

theorem numPadded_eq {number : List UInt8} {zeros : Int} (lead : List UInt8) (width prec : Int)
    (left zero : Bool) (padChar : UInt8) (hnumber : copies zeros 48 ++ digits.reverse = number)
    (hzeros : 0 ≤ zeros) (hpad : left = false → (padChar = 48 ↔ zero)) (hwidth : 0 ≤ width)
    (hfits : (max width.toNat (lead.length + number.length) : Nat) < 2 ^ 31) :
    numPadded lead digits zeros width prec left padChar =
      if left then
        lead ++ number ++ replicate (width.toNat - (lead.length + number.length)) 32
      else if zero ∧ precisionOf prec = none then
        lead ++ replicate (width.toNat - (lead.length + number.length)) 48 ++ number
      else replicate (width.toNat - (lead.length + number.length)) 32 ++ lead ++ number := by
  have hlength : zeros + digits.length = (number.length : Int) := by
    rw [← hnumber, length_append, copies, length_replicate, length_reverse]
    omega
  have htotal : int32 (lead.length + zeros + digits.length) =
      (lead.length + number.length : Nat) := by
    rw [int32_eq (by omega) (by omega)]
    omega
  have hroom : (if width > ((lead.length + number.length : Nat) : Int) then
      int32 (width - (lead.length + number.length : Nat)) else 0).toNat =
      width.toNat - (lead.length + number.length) := by
    split
    · rw [int32_eq (by omega) (by omega)]
      omega
    · omega
  have hprecision : precisionOf prec = none ↔ prec < 0 := by
    unfold precisionOf
    split <;> simp_all
  unfold numPadded
  dsimp only
  rw [htotal]
  unfold copies at hnumber ⊢
  rw [hroom]
  rcases left with _ | _
  swap
  · simp [← hnumber]
  have hzero : (padChar == 48 && !false && decide (prec < 0)) ↔
      zero ∧ precisionOf prec = none := by
    rw [hprecision, ← hpad rfl]
    simp
  simp only [hzero, Bool.false_eq_true, if_false]
  split_ifs <;> simp only [append_nil, append_assoc, ← hnumber]

/-! ## Reading the argument -/

variable {value : Int}

section Arguments

variable {args : FormatArguments} {va : VaList} {d : Directive} {value : Int}

theorem argument_eq (hpair : d.isPair args = false) :
    d.argument args va = (args.slot (d.place va)).toNat := by
  rw [argument, hpair, if_neg Bool.false_ne_true]

theorem slot_lt (h : args.wide = false) (n : Nat) : (args.slot n).toNat < 2 ^ 32 := by
  rw [FormatArguments.slot, h, if_neg Bool.false_ne_true, BitVec.toNat_setWidth]
  exact (Nat.mod_le _ _).trans_lt (BitVec.isLt _)

/-- Either 32 bits are read, and the type passed has no more, or it has 64 and they are read. -/
theorem bits_cases (hpair : d.isPair args = false) :
    ((d.length.size.isInt || !args.wide) = true ∧ d.length.bits args.wide ≤ 32) ∨
      ((d.length.size.isInt || !args.wide) = false ∧ d.length.bits args.wide = 64) := by
  unfold isPair at hpair
  cases hlength : d.length <;> cases hwide : args.wide <;>
    first | decide | (rw [hlength, hwide] at hpair; cases hpair)

theorem vaInt_eq {word : BitVec 64} (h : (word.toNat : Int) % 2 ^ 32 = value % 2 ^ 32)
    (hlow : -2 ^ 31 ≤ value) (hhigh : value < 2 ^ 31) : vaInt word = value := by
  rw [vaInt, BitVec.toInt_eq_toNat_cond, BitVec.toNat_setWidth]
  split <;> omega

theorem vaLong_eq {word : BitVec 64} (h : (word.toNat : Int) % 2 ^ 64 = value % 2 ^ 64)
    (hlow : -2 ^ 63 ≤ value) (hhigh : value < 2 ^ 63) : vaLong word = value := by
  rw [vaLong, BitVec.toInt_eq_toNat_cond]
  split <;> omega

theorem signedArgument_eq (h : d.Passes args va value) (hsigned : d.conversion.isSigned)
    (hpair : d.isPair args = false) :
    signedArgument args.wide d.length.size (args.slot (d.place va)) = (value % 2 ^ 64).toNat ∧
      -2 ^ 63 ≤ value ∧ value < 2 ^ 63 := by
  obtain ⟨htyped, hpassed⟩ := h
  rw [if_pos hsigned] at htyped
  rw [argument_eq hpair] at hpassed
  unfold signedArgument
  rcases bits_cases hpair with ⟨hint, hbits⟩ | ⟨hint, hbits⟩
  · have hpow : (2 : Int) ^ (d.length.bits args.wide - 1) ≤ 2 ^ 31 :=
      pow_le_pow_right₀ (by decide) (by omega)
    rw [Nat.max_eq_right hbits] at hpassed
    rw [hint, if_pos rfl, vaInt_eq hpassed (by omega) (by omega)]
    exact ⟨rfl, by omega, by omega⟩
  · rw [hbits] at htyped hpassed
    rw [hint, if_neg Bool.false_ne_true, vaLong_eq hpassed htyped.1 htyped.2]
    exact ⟨rfl, htyped⟩

theorem unsignedArgument_eq (h : d.Passes args va value) (hsigned : d.conversion.isSigned = false)
    (hpair : d.isPair args = false) :
    unsignedArgument d.length.size (args.slot (d.place va)) = value.toNat ∧
      0 ≤ value ∧ value < 2 ^ 64 := by
  obtain ⟨htyped, hpassed⟩ := h
  rw [hsigned, if_neg Bool.false_ne_true] at htyped
  rw [argument_eq hpair] at hpassed
  unfold unsignedArgument vaUnsigned vaUnsignedLong
  rcases bits_cases hpair with ⟨hint, hbits⟩ | ⟨hint, hbits⟩
  · have hpow : (2 : Int) ^ d.length.bits args.wide ≤ 2 ^ 32 :=
      pow_le_pow_right₀ (by decide) hbits
    rw [Nat.max_eq_right hbits] at hpassed
    rw [BitVec.toNat_setWidth]
    cases hsize : d.length.size.isInt with
    | true =>
      rw [if_pos rfl]
      omega
    | false =>
      have hwide : args.wide = false := by simpa [hsize] using hint
      have hnarrow := slot_lt hwide (d.place va)
      rw [if_neg Bool.false_ne_true]
      omega
  · rw [hbits] at htyped hpassed
    rw [Bool.or_eq_false_iff] at hint
    change _ % 2 ^ 64 = _ % 2 ^ 64 at hpassed
    rw [hint.1, if_neg Bool.false_ne_true]
    omega

section FollowedBy

variable {va' : VaList} (later : Nat → BitVec 64)

theorem word_followedBy {n : Nat} (h : n < va'.words) :
    (args.followedBy va' later).word n = args.word n := if_pos h

theorem slot_followedBy {n : Nat} (h : n < va'.words) :
    (args.followedBy va' later).slot n = args.slot n := by
  rw [FormatArguments.slot, word_followedBy later h]
  rfl

theorem place_lt_after (args : FormatArguments) (va : VaList) (d : Directive) :
    d.place va < (d.after args va).words := by
  unfold Directive.after
  split <;> dsimp only <;> omega

theorem widthValue_followedBy (h : d.place va ≤ va'.words) :
    d.widthValue (args.followedBy va' later) va = d.widthValue args va := by
  unfold place at h
  unfold widthValue
  cases hwidth : d.width with
  | absent | literal => rfl
  | star =>
    rw [hwidth] at h
    simp only [FieldWidth.words] at h
    rw [word_followedBy later (by omega)]

theorem precisionValue_followedBy (h : d.place va ≤ va'.words) :
    d.precisionValue (args.followedBy va' later) va = d.precisionValue args va := by
  unfold place at h
  unfold precisionValue
  cases hprecision : d.precision with
  | absent | literal => rfl
  | star =>
    rw [hprecision] at h
    simp only [FieldPrecision.words] at h
    rw [word_followedBy later (by omega)]

theorem prescribed_followedBy (h : d.place va ≤ va'.words) :
    d.prescribed (args.followedBy va' later) va value = d.prescribed args va value := by
  rw [prescribed, widthValue_followedBy later h, precisionValue_followedBy later h, prescribed]

/-- The arguments that follow are not those of the directive. -/
theorem passes_followedBy (h : d.Passes args va value) (hpair : d.isPair args = false) :
    d.Passes (args.followedBy (d.after args va) later) va value := by
  refine ⟨h.typed, ?_⟩
  have hpair' : d.isPair (args.followedBy (d.after args va) later) = false := hpair
  rw [argument_eq hpair', slot_followedBy later (place_lt_after args va d), ← argument_eq hpair]
  exact h.passed

end FollowedBy

end Arguments

/-! ## The two texts -/

theorem standardText_length (flags : List FormatFlag) (c : IntegerConversion) (width : Int)
    (precision : Option Nat) (value : Int) : (standardText flags c width precision value).length =
      max width.natAbs ((standardLead c flags value).length +
        (standardDigits c (.hash ∈ flags) precision value.natAbs).length) := by
  unfold standardText
  split_ifs <;> simp only [length_append, length_replicate] <;> omega

/-- Only the alternate form of an octal number has a digit more than the precision asks for. -/
theorem standardDigits_eq {c : IntegerConversion} (h : c ≠ .o) (hash : Bool)
    (precision : Option Nat) (n : Nat) : standardDigits c hash precision n =
      replicate (precision.getD 1 - (Nat.digits c.base n).length) 48 ++
        (Nat.digits c.base n).reverse.map (hexDigit (c == .upperX)) := by
  unfold standardDigits
  rw [if_neg (fun hall => h hall.1), length_map, length_reverse]

section Texts

variable {flags : List FormatFlag} {c : IntegerConversion} {width prec value : Int}

theorem numPadded_standard (hc : c ≠ .o) (hprec : prec < 2 ^ 31)
    (hlength : (standardText flags c width (precisionOf prec) value).length < 2 ^ 31)
    (hvalue : value.natAbs < 2 ^ 64)
    (hdigits : digits = numDigits c.base (c == .upperX) prec value.natAbs) :
    numPadded (standardLead c flags value) digits (numZeros prec digits.length) width.natAbs prec
      (decide (.minus ∈ flags) || decide (width < 0))
      (if .minus ∈ flags then 32 else if .zero ∈ flags then 48 else 32) =
      standardText flags c width (precisionOf prec) value := by
  have hbase : 2 ≤ c.base := by cases c <;> decide
  have hnumber := numDigits_eq hbase (c == .upperX) hprec hvalue
  rw [← standardDigits_eq hc (decide (.hash ∈ flags)), ← hdigits] at hnumber
  rw [standardText_length] at hlength
  have hpadded := numPadded_eq (standardLead c flags value) width.natAbs prec
    (decide (.minus ∈ flags) || decide (width < 0)) (decide (.zero ∈ flags))
    (if .minus ∈ flags then 32 else if .zero ∈ flags then 48 else 32) hnumber
    (by rw [numZeros_eq hprec]; omega) ?_ (by omega) (by omega)
  · rw [hpadded, standardText]
    simp only [Bool.or_eq_true, decide_eq_true_eq, Int.toNat_natCast]
  · intro hleft
    rw [Bool.or_eq_false_iff, decide_eq_false_iff_not] at hleft
    rw [if_neg hleft.1]
    split <;> simp_all

theorem outNum_signed (hc : c.isSigned) (hprec : prec < 2 ^ 31)
    (hlength : (standardText flags c width (precisionOf prec) value).length < 2 ^ 31)
    (hvalue : -2 ^ 63 ≤ value ∧ value < 2 ^ 63) :
    outNum (value % 2 ^ 64).toNat true 10 false width.natAbs prec
      (decide (.minus ∈ flags) || decide (width < 0))
      (if .minus ∈ flags then 32 else if .zero ∈ flags then 48 else 32)
      (decide (.plus ∈ flags)) (decide (.space ∈ flags)) (decide (.hash ∈ flags)) =
      standardText flags c width (precisionOf prec) value := by
  have hbase : c.base = 10 := by cases c <;> first | rfl | cases hc
  have hcase : (c == .upperX) = false := by cases c <;> first | rfl | cases hc
  have hoctal : c ≠ .o := by rintro rfl; cases hc
  have hnegative : (true && decide (2 ^ 63 ≤ (value % 2 ^ 64).toNat)) = decide (value < 0) := by
    rw [Bool.true_and, decide_eq_decide]
    omega
  have hmagnitude : (if decide (value < 0) then
      (2 ^ 64 - (value % 2 ^ 64).toNat) % 2 ^ 64 else (value % 2 ^ 64).toNat) = value.natAbs := by
    split <;> simp_all <;> omega
  unfold outNum
  dsimp only
  rw [hnegative, hmagnitude, ← numPadded_standard hoctal hprec hlength (by omega) rfl, hbase, hcase]
  congr 1
  unfold numLead standardLead
  rw [if_pos hc]
  simp

/-- The hexadecimal prefix: the code asks for a digit, the standard for a number that is not
zero. -/
theorem outNum_unsigned (hc : c.isSigned = false) (hoctal : c ≠ .o) (hprec : prec < 2 ^ 31)
    (hlength : (standardText flags c width (precisionOf prec) value).length < 2 ^ 31)
    (hvalue : 0 ≤ value ∧ value < 2 ^ 64)
    (hzero : .hash ∈ flags → c.base = 16 → value = 0 → prec = 0) :
    outNum value.toNat false c.base (c == .upperX) width.natAbs prec
      (decide (.minus ∈ flags) || decide (width < 0))
      (if .minus ∈ flags then 32 else if .zero ∈ flags then 48 else 32)
      false false (decide (.hash ∈ flags) && decide (c ≠ .u)) =
      standardText flags c width (precisionOf prec) value := by
  have hmagnitude : value.toNat = value.natAbs := by omega
  unfold outNum
  dsimp only
  rw [Bool.false_and, if_neg Bool.false_ne_true, hmagnitude,
    ← numPadded_standard hoctal hprec hlength (by omega) rfl]
  congr 1
  unfold numLead standardLead
  rw [hc, if_neg Bool.false_ne_true, if_neg Bool.false_ne_true, if_neg Bool.false_ne_true,
    if_neg Bool.false_ne_true, nil_append]
  by_cases hhash : hash ∈ flags
  · by_cases hnonzero : value = 0
    · have hempty (h : c.base = 16) :
          numDigits c.base (c == .upperX) prec value.natAbs = [] := by
        rw [hnonzero, numDigits, if_pos Int.natAbs_zero,
          if_neg (fun h' => h' (hzero hhash h hnonzero))]
      cases c <;> simp_all [base, isSigned]
    · have hsome : 0 < (numDigits c.base (c == .upperX) prec value.natAbs).length :=
        numDigits_length_pos (by cases c <;> decide) _ _ (by omega) (by omega)
      cases c <;>
        simp_all [base, isSigned]
  · simp [hhash]

variable {precision : Option Nat} {a : UInt8}

theorem mem_standardText (h : a ∈ standardText flags c width precision value) :
    a = 32 ∨ a = 48 ∨ a ∈ standardLead c flags value ∨
      a ∈ standardDigits c (.hash ∈ flags) precision value.natAbs := by
  unfold standardText at h
  split_ifs at h <;> simp only [mem_append, mem_replicate] at h <;> tauto

theorem mem_standardDigits {hash : Bool} {n : Nat} (h : a ∈ standardDigits c hash precision n) :
    a = 48 ∨ ∃ digit ∈ Nat.digits c.base n, a = hexDigit (c == .upperX) digit := by
  have hplain (h : a ∈ replicate (precision.getD 1 - ((Nat.digits c.base n).reverse.map
      (hexDigit (c == .upperX))).length) 48 ++
      (Nat.digits c.base n).reverse.map (hexDigit (c == .upperX))) :
      a = 48 ∨ ∃ digit ∈ Nat.digits c.base n, a = hexDigit (c == .upperX) digit := by
    rw [mem_append, mem_map] at h
    rcases h with h | ⟨digit, hdigit, rfl⟩
    · exact .inl (eq_of_mem_replicate h)
    · exact .inr ⟨digit, mem_reverse.mp hdigit, rfl⟩
  unfold standardDigits at h
  dsimp only at h
  split at h
  · rcases mem_cons.mp h with h | h
    · exact .inl h
    · exact hplain h
  · exact hplain h

theorem not_mem_octal : (111 : UInt8) ∉ standardText flags .o width precision value := by
  intro h
  rcases mem_standardText h with h | h | h | h
  · exact absurd h (by decide)
  · exact absurd h (by decide)
  · have hlead : standardLead .o flags value = [] := by
      simp [standardLead, isSigned]
    rw [hlead] at h
    exact absurd h not_mem_nil
  rcases mem_standardDigits h with h | ⟨digit, hdigit, h⟩
  · exact absurd h (by decide)
  have hlt : digit < 8 := Nat.digits_lt_base (by decide) hdigit
  have hother : ∀ digit < 8, (111 : UInt8) ≠ hexDigit (o == .upperX) digit := by
    decide
  exact hother digit hlt h

theorem mem_standardText_zero (hc : c.isSigned = false)
    (h : a ∈ standardText flags c width precision 0) : a = 32 ∨ a = 48 := by
  rcases mem_standardText h with h | h | h | h
  · exact .inl h
  · exact .inr h
  · unfold standardLead at h
    rw [hc, if_neg Bool.false_ne_true, if_neg (·.2 rfl)] at h
    exact absurd h not_mem_nil
  rcases mem_standardDigits h with h | ⟨digit, hdigit, _⟩
  · exact .inr h
  · rw [Int.natAbs_zero, Nat.digits_zero] at hdigit
    exact absurd hdigit not_mem_nil

theorem mem_outNum_zero (uppercase left : Bool) (width : Int) (padChar : UInt8) (hprec : prec ≠ 0) :
    (if uppercase then 88 else 120 : UInt8) ∈
      outNum 0 false 16 uppercase width prec left padChar false false true := by
  have hdigits : numDigits 16 uppercase prec 0 = [48] := by rw [numDigits, if_pos rfl, if_pos hprec]
  have hlead (zeros : Int) : numLead false false false true uppercase 16 zeros 1 =
      [48, if uppercase then 88 else 120] := rfl
  unfold outNum numPadded
  simp only [Bool.false_and, Bool.false_eq_true, if_false, hdigits, length_singleton,
    Nat.cast_one, hlead]
  split_ifs <;> simp

end Texts

theorem le_standardDigits_length (c : IntegerConversion) (hash : Bool) (p n : Nat) :
    p ≤ (standardDigits c hash (some p) n).length := by
  unfold standardDigits
  dsimp only
  split_ifs <;>
    simp only [length_cons, length_append, length_replicate, Option.getD_some] <;>
    omega

theorem body_head (d : Directive) (rest : List UInt8) :
    ∃ a t, d.body ++ rest = a :: t ∧ a ≠ 37 := by
  have hhead := width_text_head d.width
    (precision_text_head d.precision (length_text_head d.length d.conversion rest))
  have hbody := d.body_append rest
  cases hflags : d.flags with
  | nil =>
    obtain ⟨a, t, hhead, ha⟩ := hhead
    rw [hbody, hflags, map_nil, nil_append, hhead]
    exact ⟨a, t, rfl, by grind⟩
  | cons flag flags =>
    rw [hbody, hflags]
    refine ⟨flag.char, _, rfl, ?_⟩
    cases flag <;> decide

theorem formatted_body (args : FormatArguments) (va : VaList) (d : Directive) (value : Int)
    (hlength : (d.prescribed args va value).length < 2 ^ 31) : d.codedPrecision args va < 2 ^ 31 ∧
    ∀ rest, formatted args (d.text ++ rest) va =
      (formatted args rest (d.converted args va).2).map ((d.converted args va).1 ++ ·) := by
  rw [prescribed, standardText_length] at hlength
  have hprec : d.codedPrecision args va < 2 ^ 31 := by
    by_cases hneg : d.codedPrecision args va < 0
    · omega
    have hvalue : d.precisionValue args va =
        some (d.codedPrecision args va).toNat := by
      rw [precisionValue, FieldPrecision.value_eq, ← codedPrecision, precisionOf, if_neg hneg]
    rw [hvalue] at hlength
    have hdigits := le_standardDigits_length d.conversion (.hash ∈ d.flags)
      (d.codedPrecision args va).toNat value.natAbs
    omega
  refine ⟨hprec, fun rest => ?_⟩
  have hconvert := convert_body args va d rest (by omega) hprec
  obtain ⟨a, t, hbody, ha⟩ := body_head d rest
  rw [hbody] at hconvert
  rw [text, cons_append, hbody, formatted_directive ha hconvert]

section Conversions

variable (args : FormatArguments) (va : VaList) (flags : FormatFlags) (width prec : Int)
  (size : ArgumentSize) {c : IntegerConversion}

theorem convertSpec_signed (hc : c.isSigned) : convertSpec args va flags width prec size c.char =
      (outNum (signedArgument args.wide size (args.slot va.words)) true 10 false width prec
        flags.leftAlign flags.padChar flags.showSign flags.spaceSign flags.altForm,
        { va with words := va.words + 1 }) := by
  cases c with
  | d | i => rfl
  | u | o | x | upperX => cases hc

theorem convertSpec_unsigned (hc : c.isSigned = false) (hoctal : c ≠ .o) :
    convertSpec args va flags width prec size c.char =
      (outNum (unsignedArgument size (args.slot va.words)) false c.base (c == .upperX) width prec
        flags.leftAlign flags.padChar false false (flags.altForm && decide (c ≠ .u)),
        { va with words := va.words + 1 }) := by
  cases c with
  | d | i => cases hc
  | o => exact absurd rfl hoctal
  | u =>
    rw [show decide (u ≠ .u) = false from rfl, Bool.and_false]
    rfl
  | x | upperX =>
    rw [decide_eq_true (by decide), Bool.and_true]
    rfl

/-- There is no octal conversion: its letter is written, and no argument is used up. -/
theorem convertSpec_octal : convertSpec args va flags width prec size o.char = ([111], va) := rfl

end Conversions

section Main

variable {args : FormatArguments} {va : VaList} {d : Directive} {value : Int}

theorem prescribed_eq (args : FormatArguments) (va : VaList) (d : Directive) (value : Int) :
    d.prescribed args va value = standardText d.flags d.conversion (d.widthValue args va)
      (precisionOf (d.codedPrecision args va)) value := by
  rw [prescribed, precisionValue, FieldPrecision.value_eq, codedPrecision]

/-- An unsigned number is written as prescribed, except for the prefix of a zero. -/
theorem outNum_prescribed_iff (hpasses : d.Passes args va value)
    (hlength : (d.prescribed args va value).length < 2 ^ 31) (hc : d.conversion.isSigned = false)
    (hoctal : d.conversion ≠ .o) (hpair : d.isPair args = false)
    (hprec : d.codedPrecision args va < 2 ^ 31) :
    outNum (unsignedArgument d.length.size (args.slot (d.place va))) false d.conversion.base
      (d.conversion == .upperX) (d.widthValue args va).natAbs
      (d.codedPrecision args va)
      (decide (.minus ∈ d.flags) || decide (d.widthValue args va < 0))
      (if .minus ∈ d.flags then 32 else if .zero ∈ d.flags then 48 else 32) false false
      (decide (.hash ∈ d.flags) && decide (d.conversion ≠ .u)) = d.prescribed args va value ↔
    ¬(.hash ∈ d.flags ∧ d.conversion.base = 16 ∧ value = 0 ∧
      d.precisionValue args va ≠ some 0) := by
  obtain ⟨hread, hvalue⟩ := unsignedArgument_eq hpasses hc hpair
  rw [prescribed_eq] at hlength ⊢
  rw [hread, precisionValue, FieldPrecision.value_eq, ← codedPrecision]
  generalize d.codedPrecision args va = prec at *
  have hzero : precisionOf prec ≠ some 0 ↔ prec ≠ 0 := by
    unfold precisionOf
    split <;> simp <;> omega
  rw [hzero]
  constructor
  · rintro htext ⟨hhash, hbase, hvalue, hprec⟩
    -- the prefix has a letter, and the standard's zero has none
    have hmem := mem_outNum_zero (d.conversion == .upperX)
      (decide (.minus ∈ d.flags) || decide (d.widthValue args va < 0)) (d.widthValue args va).natAbs
      (if .minus ∈ d.flags then 32 else if .zero ∈ d.flags then 48 else 32) hprec
    have hhex : d.conversion ≠ .u := by
      intro heq
      rw [heq] at hbase
      exact absurd hbase (by decide)
    rw [hvalue, hbase, decide_eq_true hhash, decide_eq_true hhex] at htext
    change outNum 0 false 16 _ _ _ _ _ false false true = _ at htext
    rw [htext] at hmem
    have hblank := mem_standardText_zero hc hmem
    split at hblank <;> exact absurd hblank (by decide)
  · intro hgood
    apply outNum_unsigned hc hoctal hprec hlength hvalue
    intro hhash hbase hvalue
    by_contra hprec
    exact hgood ⟨hhash, hbase, hvalue, hprec⟩

theorem converted_after (hoctal : d.conversion ≠ .o) (args : FormatArguments) (va : VaList) :
    (d.converted args va).2 = { va with words := d.place va + 1 } := by
  unfold converted
  cases hc : d.conversion with
  | o => exact absurd hc hoctal
  | d | i | u | x | upperX => rfl

/-- What the code writes for a directive with its argument in one word. -/
theorem converted_eq_iff (hpasses : d.Passes args va value)
    (hlength : (d.prescribed args va value).length < 2 ^ 31) (hoctal : d.conversion ≠ .o)
    (hpair : d.isPair args = false) (hprec : d.codedPrecision args va < 2 ^ 31) :
    (d.converted args va).1 = d.prescribed args va value ↔
      ¬(.hash ∈ d.flags ∧ d.conversion.base = 16 ∧ value = 0 ∧
        d.precisionValue args va ≠ some 0) := by
  rw [converted]
  cases hc : d.conversion.isSigned with
  | true =>
    obtain ⟨hread, hvalue⟩ := signedArgument_eq hpasses hc hpair
    have hbase : d.conversion.base ≠ 16 := by
      cases heq : d.conversion <;> rw [heq] at hc <;> first | decide | cases hc
    rw [convertSpec_signed _ _ _ _ _ _ hc]
    refine iff_of_true ?_ fun h => hbase h.2.1
    change outNum (signedArgument args.wide d.length.size (args.slot (d.place va)))
      true 10 false _ _ _ _ _ _ _ = _
    rw [prescribed_eq] at hlength ⊢
    rw [hread]
    exact outNum_signed hc hprec hlength hvalue
  | false =>
    rw [convertSpec_unsigned _ _ _ _ _ _ hc hoctal]
    exact outNum_prescribed_iff hpasses hlength hc hoctal hpair hprec

def plainUnsigned : Directive := ⟨[], .absent, .absent, .none, .u⟩

/-- What `%u` writes for a word. -/
def unsignedText (word : BitVec 64) : List UInt8 :=
  outNum (unsignedArgument .int word) false 10 false 0 (-1) false 32 false false false

theorem formatted_nil (args : FormatArguments) (va : VaList) : formatted args [] va = some [] := rfl

theorem formatted_unsigned (args : FormatArguments) (va : VaList) :
    formatted args plainUnsigned.text va = some (unsignedText (args.slot va.words)) := by
  have hconvert := convert_body args va plainUnsigned []
    (show (0 : Int).natAbs < 2 ^ 31 by decide) (show (-1 : Int) < 2 ^ 31 by decide)
  rw [converted, convertSpec_unsigned _ _ _ _ _ _ rfl (by decide), append_nil] at hconvert
  rw [text, show plainUnsigned.body = [117] from rfl] at *
  rw [formatted_directive (by decide) hconvert, formatted_nil, Option.map_some, append_nil]
  rfl

/-- The code takes one word of the two, so the next directive reads the other. -/
theorem not_asPrescribed_of_pair (hlength : (d.prescribed args va value).length < 2 ^ 31)
    (hoctal : d.conversion ≠ .o) (hpair : d.isPair args) : ¬d.AsPrescribed args va value := by
  intro hall
  have hplace : (d.after args va).words = d.place va + args.skipped (d.place va) + 2 := if_pos hpair
  -- whatever word comes next, the next directive writes the second word of the two
  have hnext (later : Nat → BitVec 64) :
      unsignedText ((args.followedBy (d.after args va) later).slot (d.after args va).words) =
        unsignedText (args.slot (d.place va + 1)) := by
    have hformat := (formatted_body (args.followedBy (d.after args va) later) va d value
      (by rwa [prescribed_followedBy later (place_lt_after args va d).le])).2
    rw [converted_after hoctal] at hformat
    have hend := (hformat []).symm.trans (hall later [])
    have htext : (d.converted (args.followedBy (d.after args va) later) va).1 =
        d.prescribed args va value := by simpa [formatted, formatLoop] using hend
    have hu := (hformat plainUnsigned.text).symm.trans (hall later plainUnsigned.text)
    rw [htext, formatted_unsigned, formatted_unsigned, Option.map_some, Option.map_some,
      Option.some_inj, append_cancel_left_eq] at hu
    rw [← hu, slot_followedBy later (show d.place va + 1 < _ by omega)]
  have hslot (word : BitVec 64) (hword : (word.setWidth 32).setWidth 64 = word) :
      (args.followedBy (d.after args va) fun _ => word).slot (d.after args va).words = word := by
    rw [FormatArguments.slot, FormatArguments.followedBy]
    dsimp only
    rw [if_neg (lt_irrefl _), hword, ite_self]
  have hsame := (hnext fun _ => 0).trans (hnext fun _ => 1).symm
  rw [hslot 0 rfl, hslot 1 rfl] at hsame
  exact absurd hsame (by decide)

/-- A directive is formatted as the standard prescribes, and uses up exactly its own arguments,
unless it is octal, or hexadecimal in the alternate form with the value zero and a digit to write,
or its argument is a `long long` where `long` has 32 bits. -/
theorem formatted_prescribed_iff (hpasses : d.Passes args va value)
    (hlength : (d.prescribed args va value).length < 2 ^ 31) :
    d.AsPrescribed args va value ↔
    d.conversion ≠ .o ∧ (d.length = .ll → args.wide = true) ∧
      ¬(.hash ∈ d.flags ∧ d.conversion.base = 16 ∧ value = 0 ∧
        d.precisionValue args va ≠ some 0) := by
  have hlong : (d.length = .ll → args.wide = true) ↔ d.isPair args = false := by simp [isPair]
  rw [hlong]
  by_cases hoctal : d.conversion = .o
  · refine iff_of_false (fun hall => ?_) (·.1 hoctal)
    have hend := hall args.word []
    rw [(formatted_body _ va d value
      (by rwa [prescribed_followedBy _ (place_lt_after args va d).le])).2, converted, hoctal,
      convertSpec_octal] at hend
    have hletter : [111] = d.prescribed args va value := by simpa [formatted, formatLoop] using hend
    rw [prescribed, hoctal] at hletter
    exact not_mem_octal (hletter ▸ mem_singleton_self 111)
  rw [and_iff_right hoctal]
  cases hpair : d.isPair args with
  | true => exact iff_of_false (not_asPrescribed_of_pair hlength hoctal hpair) (by simp)
  | false =>
    rw [and_iff_right rfl]
    have hstep (later : Nat → BitVec 64) :=
      let args' := args.followedBy (d.after args va) later
      formatted_body args' va d value
        (by rwa [prescribed_followedBy later (place_lt_after args va d).le])
    have hafter : d.after args va = { va with words := d.place va + 1 } := by
      rw [Directive.after, hpair, if_neg Bool.false_ne_true]
    have htext (later : Nat → BitVec 64) :
        (d.converted (args.followedBy (d.after args va) later) va).1 = d.prescribed args va value ↔
        ¬(.hash ∈ d.flags ∧ d.conversion.base = 16 ∧ value = 0 ∧
          d.precisionValue args va ≠ some 0) := by
      have hplace := (place_lt_after args va d).le
      have hiff := converted_eq_iff (passes_followedBy later hpasses hpair)
        (by rwa [prescribed_followedBy later hplace]) hoctal hpair (hstep later).1
      rwa [prescribed_followedBy later hplace, precisionValue_followedBy later hplace] at hiff
    constructor
    · intro hall
      refine (htext args.word).mp ?_
      have hend := hall args.word []
      rw [(hstep args.word).2] at hend
      simpa [formatted, formatLoop] using hend
    · intro hgood later rest
      rw [(hstep later).2, converted_after hoctal, (htext later).mpr hgood, hafter]

end Main

def eightFive : FormatArguments where
  wide := true
  skipped _ := 0
  word n := if n = 0 then 8 else 5
  string _ := []
  float _ _ _ _ _ _ _ := []

def plainOctal : Directive := ⟨[], .absent, .absent, .none, .o⟩

def signedFive : Directive := ⟨[.plus, .zero], .literal 5 [] (by decide), .absent, .none, .d⟩

/-- `%o%d` of 8 and 5 gives `o8`. -/
theorem formatted_octal : plainOctal.Passes eightFive ⟨0, 0⟩ 8 ∧
    plainOctal.prescribed eightFive ⟨0, 0⟩ 8 = [49, 48] ∧
    formatted eightFive (plainOctal.text ++ [37, 100]) ⟨0, 0⟩ = some [111, 56] :=
  ⟨⟨by decide, by decide⟩, by decide, by decide⟩

theorem formatted_signedFive : signedFive.Passes eightFive ⟨0, 0⟩ 8 ∧
    signedFive.AsPrescribed eightFive ⟨0, 0⟩ 8 := by
  have hpasses : signedFive.Passes eightFive ⟨0, 0⟩ 8 := ⟨by decide, by decide⟩
  refine ⟨hpasses, (formatted_prescribed_iff hpasses (by decide)).mpr ?_⟩
  exact ⟨by decide, fun _ => rfl, fun h => absurd h.1 (by decide)⟩

end XsCore.Libc
