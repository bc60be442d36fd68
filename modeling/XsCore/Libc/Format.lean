import Mathlib.Data.Nat.Digits.Lemmas

/-! # Formatted output

`vsnprintf` of `userspace/libc/src/stdio.c` with its helpers `out_num` and `out_str`.  The helpers
hand their characters to `out_char` one by one; here they return the list of them, and `outChar`
stores it.  An `int` that overflows wraps around.

Integer and pointer arguments are read from words in order, which have 64 bits where `long` has.
The text of a floating-point argument is a parameter, and so is the string at an address.
-/

namespace XsCore.Libc

open List

variable {format text rest : List UInt8}

def int32 (x : Int) : Int := (x + 2 ^ 31) % 2 ^ 32 - 2 ^ 31

/-! ## The arguments -/

/-- What the caller passed: the words, the string at an address, and the text that
`format_float_value` makes of a floating-point argument, which is empty if there is none. -/
structure FormatArguments where
  /-- `long` has 64 bits, not 32. -/
  wide : Bool
  word : Nat → BitVec 64
  /-- The words left out before a `long long` that takes two, to align it. -/
  skipped : Nat → Nat
  string : BitVec 64 → List UInt8
  float : Nat → Bool → UInt8 → Int → Bool → Bool → Bool → List UInt8

/-- A word as the port has it. -/
def FormatArguments.slot (args : FormatArguments) (n : Nat) : BitVec 64 :=
  if args.wide then args.word n else ((args.word n).setWidth 32).setWidth 64

structure VaList where
  words : Nat
  floats : Nat

def vaInt (word : BitVec 64) : Int := (word.setWidth 32).toInt

def vaUnsigned (word : BitVec 64) : Nat := (word.setWidth 32).toNat

def vaLong (word : BitVec 64) : Int := word.toInt

def vaUnsignedLong (word : BitVec 64) : Nat := word.toNat

/-! ## The code -/

def hexDigit (uppercase : Bool) (digit : Nat) : UInt8 :=
  if digit < 10 then UInt8.ofNat (48 + digit)
  else if uppercase then UInt8.ofNat (55 + digit) else UInt8.ofNat (87 + digit)

def digitLoopOut (base : Nat) (uppercase : Bool) : Nat → Nat → List UInt8
  | 0, _ => []
  | fuel + 1, val =>
    if 0 < val then hexDigit uppercase (val % base) :: digitLoopOut base uppercase fuel (val / base)
    else []

def copies (n : Int) (c : UInt8) : List UInt8 := List.replicate n.toNat c

def numDigits (base : Nat) (uppercase : Bool) (prec : Int) (val : Nat) : List UInt8 :=
  if val = 0 then (if prec ≠ 0 then [48] else []) else digitLoopOut base uppercase 64 val

def numZeros (prec numLen : Int) : Int := if prec > numLen then int32 (prec - numLen) else 0

def numLead (negative showSign spaceSign altForm uppercase : Bool) (base : Nat)
    (zeros numLen : Int) : List UInt8 :=
  (if negative then [45] else if showSign then [43] else if spaceSign then [32] else []) ++
  (if altForm && base == 16 && decide (0 < numLen) then [48, if uppercase then 88 else 120]
    else if altForm && base == 8 && zeros == 0 && decide (0 < numLen) then [48] else [])

def numPadded (lead digits : List UInt8) (zeros width prec : Int) (leftAlign : Bool)
    (padChar : UInt8) : List UInt8 :=
  let totalLen := int32 (lead.length + zeros + digits.length)
  let pad := if width > totalLen then int32 (width - totalLen) else 0
  (if padChar == 48 && !leftAlign && decide (prec < 0) then lead ++ copies pad 48
    else (if leftAlign then [] else copies pad 32) ++ lead) ++
  copies zeros 48 ++ digits.reverse ++ (if leftAlign then copies pad 32 else [])

def outNum (val : Nat) (isSigned : Bool) (base : Nat) (uppercase : Bool) (width prec : Int)
    (leftAlign : Bool) (padChar : UInt8) (showSign spaceSign altForm : Bool) : List UInt8 :=
  let negative := isSigned && decide (2 ^ 63 ≤ val)
  let val := if negative then (2 ^ 64 - val) % 2 ^ 64 else val
  let digits := numDigits base uppercase prec val
  let zeros := numZeros prec digits.length
  let lead := numLead negative showSign spaceSign altForm uppercase base zeros digits.length
  numPadded lead digits zeros width prec leftAlign padChar

def outStr (s : List UInt8) (width prec : Int) (leftAlign : Bool) (padChar : UInt8) : List UInt8 :=
  let text := if 0 ≤ prec ∧ prec < s.length then s.take prec.toNat else s
  let len := int32 text.length
  let pad := if width > len then int32 (width - len) else 0
  (if leftAlign then [] else copies pad padChar) ++ text ++ (if leftAlign then copies pad 32 else [])

structure FormatFlags where
  leftAlign : Bool
  showSign : Bool
  spaceSign : Bool
  altForm : Bool
  padChar : UInt8

def takeFlags : List UInt8 → FormatFlags → FormatFlags × List UInt8
  | [], flags => (flags, [])
  | c :: format, flags =>
    if c = 45 then takeFlags format { flags with leftAlign := true }
    else if c = 43 then takeFlags format { flags with showSign := true }
    else if c = 32 then takeFlags format { flags with spaceSign := true }
    else if c = 35 then takeFlags format { flags with altForm := true }
    else if c = 48 then takeFlags format { flags with padChar := 48 }
    else (flags, c :: format)

def takeNumber : Int → List UInt8 → Int × List UInt8
  | n, [] => (n, [])
  | n, c :: format =>
    if 48 ≤ c ∧ c ≤ 57 then takeNumber (int32 (n * 10 + (c.toNat - 48 : Nat))) format
    else (n, c :: format)

/-- What the length modifier leaves in `is_long`, `is_long_long`, `is_size_t` and
`is_long_double`. -/
inductive ArgumentSize where
  | int
  | long
  | longLong
  | sizeT
  | longDouble
  deriving DecidableEq

def takeLength : List UInt8 → ArgumentSize × List UInt8
  | [] => (.int, [])
  | c :: format =>
    if c = 108 then
      match format with
      | [] => (.long, [])
      | d :: rest => if d = 108 then (.longLong, rest) else (.long, d :: rest)
    else if c = 122 then (.sizeT, format)
    else if c = 104 then
      match format with
      | [] => (.int, [])
      | d :: rest => if d = 104 then (.int, rest) else (.int, d :: rest)
    else if c = 76 then (.longDouble, format)
    else (.int, c :: format)

def ArgumentSize.isInt : ArgumentSize → Bool
  | .int | .longDouble => true
  | .long | .longLong | .sizeT => false

def signedArgument (wide : Bool) (size : ArgumentSize) (word : BitVec 64) : Nat :=
  ((if size.isInt || !wide then vaInt word else vaLong word) % 2 ^ 64).toNat

def unsignedArgument (size : ArgumentSize) (word : BitVec 64) : Nat :=
  if size.isInt then vaUnsigned word else vaUnsignedLong word

def nullText : List UInt8 := [40, 110, 117, 108, 108, 41]

def nilText : List UInt8 := [40, 110, 105, 108, 41]

def infText : List UInt8 := [105, 110, 102]

section Conversions

variable (args : FormatArguments)

/-- The conversion itself: what it writes, and which arguments are used up after it. -/
def convertSpec (va : VaList) (flags : FormatFlags) (width prec : Int) (size : ArgumentSize)
    (spec : UInt8) : List UInt8 × VaList :=
  let word := args.slot va.words
  let next := { va with words := va.words + 1 }
  let unsigned := fun base uppercase altForm =>
    outNum (unsignedArgument size word) false base uppercase width prec flags.leftAlign
      flags.padChar false false altForm
  if spec = 99 then ([UInt8.ofNat (word.toNat % 256)], next)
  else if spec = 115 then
    (outStr (if word = 0 then nullText else args.string word) width prec flags.leftAlign
      flags.padChar, next)
  else if spec = 100 ∨ spec = 105 then
    (outNum (signedArgument args.wide size word) true 10 false width prec flags.leftAlign
      flags.padChar flags.showSign flags.spaceSign flags.altForm, next)
  else if spec = 117 then (unsigned 10 false false, next)
  else if spec = 120 then (unsigned 16 false flags.altForm, next)
  else if spec = 88 then (unsigned 16 true flags.altForm, next)
  else if spec = 112 then
    (if word = 0 then outStr nilText width prec flags.leftAlign 32
      else outNum word.toNat false 16 false width prec flags.leftAlign flags.padChar false false
        true, next)
  else if spec = 98 then
    (outNum (vaUnsigned word) false 2 false width prec flags.leftAlign flags.padChar false false
      false, next)
  else if spec = 102 ∨ spec = 70 ∨ spec = 101 ∨ spec = 69 ∨ spec = 103 ∨ spec = 71 then
    let formatted := args.float va.floats (size == .longDouble) spec prec flags.showSign
      flags.spaceSign flags.altForm
    (outStr (if formatted = [] then infText else formatted) width (-1) flags.leftAlign
      flags.padChar, { va with floats := va.floats + 1 })
  else ([spec], va)

def takeWidth (va : VaList) (flags : FormatFlags) :
    List UInt8 → Int × FormatFlags × VaList × List UInt8
  | [] => (0, flags, va, [])
  | c :: format =>
    if c = 42 then
      let width := vaInt (args.word va.words)
      let va := { va with words := va.words + 1 }
      if width < 0 then (int32 (-width), { flags with leftAlign := true }, va, format)
      else (width, flags, va, format)
    else
      let (width, format) := takeNumber 0 (c :: format)
      (width, flags, va, format)

def takePrecision (va : VaList) : List UInt8 → Int × VaList × List UInt8
  | [] => (-1, va, [])
  | c :: format =>
    if c = 46 then
      match format with
      | [] => (0, va, [])
      | d :: rest =>
        if d = 42 then (vaInt (args.word va.words), { va with words := va.words + 1 }, rest)
        else
          let (prec, format) := takeNumber 0 (d :: rest)
          (prec, va, format)
    else (-1, va, c :: format)

/-- A directive after its percent sign: what it writes, what follows it in the format, and which
arguments are used up.  If the format ends inside of it, the code reads on behind the format. -/
def convert (va : VaList) (format : List UInt8) : Option (List UInt8 × List UInt8 × VaList) :=
  let (flags, format) := takeFlags format ⟨false, false, false, false, 32⟩
  let flags := if flags.leftAlign then { flags with padChar := 32 } else flags
  let (width, flags, va, format) := takeWidth args va flags format
  let (prec, va, format) := takePrecision args va format
  let (size, format) := takeLength format
  match format with
  | [] => none
  | spec :: rest =>
    let (text, va) := convertSpec args va flags width prec size spec
    some (text, rest, va)

def formatLoop : Nat → List UInt8 → VaList → Option (List UInt8)
  | 0, _, _ => some []
  | _ + 1, [], _ => some []
  | fuel + 1, c :: format, va =>
    if c = 37 then
      match format with
      | [] => some []
      | d :: rest =>
        if d = 37 then (formatLoop fuel rest va).map (37 :: ·)
        else
          match convert args va (d :: rest) with
          | none => none
          | some (text, rest, va) => (formatLoop fuel rest va).map (text ++ ·)
    else (formatLoop fuel format va).map (c :: ·)

def formatted (format : List UInt8) (va : VaList) : Option (List UInt8) :=
  formatLoop args format.length format va

/-- `vsnprintf` with a buffer of `size` bytes: the bytes it leaves there and what it returns.  The
buffer keeps as many characters as fit before a zero. -/
def vsnprintf (size : Nat) (format : Option (List UInt8)) : Option (List UInt8 × Int) :=
  match format with
  | none => some ([], 0)
  | some format =>
    (formatted args format ⟨0, 0⟩).map fun text =>
      (if size = 0 then [] else text.take (size - 1) ++ [0], int32 text.length)

end Conversions

/-! ## The rest of a format -/

theorem int32_eq {x : Int} (hlow : -2 ^ 31 ≤ x) (hhigh : x < 2 ^ 31) : int32 x = x := by
  unfold int32
  omega

theorem takeFlags_length (format : List UInt8) (flags : FormatFlags) :
    (takeFlags format flags).2.length ≤ format.length := by
  induction format generalizing flags with
  | nil => exact le_rfl
  | cons c format ih =>
    rw [takeFlags]
    split_ifs
    all_goals first
      | exact Nat.le_succ_of_le (ih _)
      | exact le_rfl

theorem takeNumber_length (n : Int) (format : List UInt8) :
    (takeNumber n format).2.length ≤ format.length := by
  fun_induction takeNumber n format with
  | case1 => exact le_rfl
  | case2 _ _ _ _ ih => exact Nat.le_succ_of_le ih
  | case3 => exact le_rfl

theorem takeWidth_length (args : FormatArguments) (va : VaList) (flags : FormatFlags)
    (format : List UInt8) : (takeWidth args va flags format).2.2.2.length ≤ format.length := by
  unfold takeWidth
  split
  · exact le_rfl
  split
  · dsimp only
    split
    all_goals exact Nat.le_succ _
  · exact takeNumber_length _ _

theorem takePrecision_length (args : FormatArguments) (va : VaList) (format : List UInt8) :
    (takePrecision args va format).2.2.length ≤ format.length := by
  unfold takePrecision
  split
  · exact le_rfl
  split
  · split
    · exact Nat.le_succ _
    split
    · simp only [length_cons]
      omega
    · exact Nat.le_succ_of_le (takeNumber_length _ _)
  · exact le_rfl

theorem takeLength_length (format : List UInt8) : (takeLength format).2.length ≤ format.length := by
  unfold takeLength
  split
  · exact le_rfl
  split_ifs
  · split
    · exact Nat.le_succ _
    split_ifs
    · simp only [length_cons]
      omega
    · exact Nat.le_succ _
  · exact Nat.le_succ _
  · split
    · exact Nat.le_succ _
    split_ifs
    · simp only [length_cons]
      omega
    · exact Nat.le_succ _
  · exact Nat.le_succ _
  · exact le_rfl

variable {args : FormatArguments} {va va' : VaList}

theorem convert_length
    (h : convert args va format = some (text, rest, va')) : rest.length < format.length := by
  unfold convert at h
  dsimp only at h
  generalize hflags : takeFlags format _ = flags at h
  generalize hwidth : takeWidth args va _ flags.2 = width at h
  generalize hprec : takePrecision args _ width.2.2.2 = prec at h
  generalize hsize : takeLength prec.2.2 = size at h
  have hflags' := takeFlags_length format ⟨false, false, false, false, 32⟩
  have hwidth' := takeWidth_length args va
    (if flags.1.leftAlign then { flags.1 with padChar := 32 } else flags.1) flags.2
  have hprec' := takePrecision_length args width.2.2.1 width.2.2.2
  have hsize' := takeLength_length prec.2.2
  rw [hflags] at hflags'
  rw [hwidth] at hwidth'
  rw [hprec] at hprec'
  rw [hsize] at hsize'
  obtain ⟨size, tail⟩ := size
  cases tail with
  | nil => cases h
  | cons spec tail =>
    cases h
    rw [length_cons] at hsize'
    omega

theorem formatLoop_fuel (args : FormatArguments) {f g : Nat} (va : VaList) (hf : format.length ≤ f)
    (hg : format.length ≤ g) : formatLoop args f format va = formatLoop args g format va := by
  induction f generalizing g format va with
  | zero =>
    rw [length_eq_zero_iff.mp (Nat.le_zero.mp hf)]
    cases g <;> rfl
  | succ f ih =>
    rcases format with _ | ⟨c, format⟩
    · cases g <;> rfl
    rw [length_cons] at hf hg
    rcases g with _ | g
    · omega
    rcases format with _ | ⟨d, rest⟩
    · simp only [formatLoop]
      split
      · rfl
      · rw [ih va (Nat.zero_le _) (Nat.zero_le _)]
    rw [length_cons] at hf hg
    simp only [formatLoop]
    split
    · split
      · rw [ih (g := g) va (by omega) (by omega)]
      split
      · rfl
      rename_i text rest' va' hconvert
      have hshorter := convert_length hconvert
      rw [length_cons] at hshorter
      rw [ih (g := g) va' (by omega) (by omega)]
    · rw [ih (g := g) va (by rw [length_cons]; omega) (by rw [length_cons]; omega)]

theorem formatted_directive {c : UInt8} (hc : c ≠ 37)
    (h : convert args va (c :: format) = some (text, rest, va')) :
    formatted args (37 :: c :: format) va = (formatted args rest va').map (text ++ ·) := by
  have hshorter := convert_length h
  rw [length_cons] at hshorter
  rw [formatted, length_cons, length_cons]
  simp only [formatLoop, if_true, if_neg hc, h]
  rw [formatted, formatLoop_fuel args va' hshorter.le le_rfl]

end XsCore.Libc
