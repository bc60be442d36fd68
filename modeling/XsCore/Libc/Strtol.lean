import Mathlib.Data.Nat.Digits.Defs

/-! # Reading integers

`strtol`, `strtoul`, `strtoll` and `strtoull` of `userspace/libc/src/malloc.c`.  The first two have
a reader of their own, the last two share `parse_unsigned_integer`.  A string is the list of its
bytes; a position in it is counted from its start.
-/

namespace XsCore.Libc

inductive Errno where
  | range
  | invalid
  | noMemory
  deriving DecidableEq

structure Outcome where
  value : Int
  stop : Nat
  errno : Option Errno
  deriving DecidableEq

/-! ## The code -/

/-- Blank, tab, newline, carriage return: what `strtol` skips. -/
def isBlank (c : UInt8) : Bool := c = 32 || c = 9 || c = 10 || c = 13

/-- What `parse_unsigned_integer` skips: also vertical tab and form feed. -/
def isSpace (c : UInt8) : Bool := c = 32 || c = 9 || c = 10 || c = 13 || c = 11 || c = 12

def asciiDigitValue (c : UInt8) : Option Nat :=
  if 48 ≤ c ∧ c ≤ 57 then some (c.toNat - 48)
  else if 97 ≤ c ∧ c ≤ 122 then some (c.toNat - 97 + 10)
  else if 65 ≤ c ∧ c ≤ 90 then some (c.toNat - 65 + 10)
  else none

def isDigit (radix : Nat) (c : UInt8) : Bool := (asciiDigitValue c).any (· < radix)

def takeSign : List UInt8 → Bool × List UInt8
  | [] => (false, [])
  | c :: text =>
    if c = 45 then (true, text) else if c = 43 then (false, text) else (false, c :: text)

def hexMark : List UInt8 → Bool
  | z :: x :: _ => z = 48 && (x = 120 || x = 88)
  | _ => false

def hexFollows (text : List UInt8) : Bool :=
  hexMark text && ((text.drop 2).head?).any (isDigit 16)

def ullongMax : Nat := 2 ^ 64 - 1

def digitLoop (base : Nat) : Nat → Bool → List UInt8 → Nat × Bool × List UInt8
  | value, overflow, [] => (value, overflow, [])
  | value, overflow, c :: text =>
    match asciiDigitValue c with
    | none => (value, overflow, c :: text)
    | some digit =>
      if base ≤ digit then (value, overflow, c :: text)
      else if (ullongMax - digit) / base < value then digitLoop base ullongMax true text
      else if overflow then digitLoop base value overflow text
      else digitLoop base (value * base + digit) overflow text

structure Parsed where
  value : Nat
  negative : Bool
  overflow : Bool
  stop : Nat
  errno : Option Errno

def chooseBase (base : Nat) (body : List UInt8) : Nat × List UInt8 :=
  if (base = 0 ∨ base = 16) ∧ hexFollows body then (16, body.drop 2)
  else if base = 0 then (if body.head? = some 48 then 8 else 10, body)
  else (base, body)

def parseUnsignedInteger (text : List UInt8) (base : Nat) : Parsed :=
  let (negative, body) := takeSign (text.dropWhile isSpace)
  if base ≠ 0 ∧ (base < 2 ∨ 36 < base) then ⟨0, negative, false, 0, some .invalid⟩
  else
    let (base, start) := chooseBase base body
    let (value, overflow, rest) := digitLoop base 0 false start
    if rest.length = start.length then ⟨0, negative, overflow, 0, none⟩
    else ⟨value, negative, overflow, text.length - rest.length, none⟩

def llongMax : Nat := 2 ^ 63 - 1

def strtoll (text : List UInt8) (base : Nat) : Outcome :=
  let parsed := parseUnsignedInteger text base
  let limit := if parsed.negative then llongMax + 1 else llongMax
  if parsed.overflow ∨ limit < parsed.value then
    ⟨if parsed.negative then -2 ^ 63 else llongMax, parsed.stop, some .range⟩
  else if parsed.negative then ⟨-parsed.value, parsed.stop, parsed.errno⟩
  else ⟨parsed.value, parsed.stop, parsed.errno⟩

def strtoull (text : List UInt8) (base : Nat) : Outcome :=
  let parsed := parseUnsignedInteger text base
  if parsed.overflow then ⟨ullongMax, parsed.stop, some .range⟩
  else if parsed.negative then ⟨-(parsed.value : Int) % 2 ^ 64, parsed.stop, parsed.errno⟩
  else ⟨parsed.value, parsed.stop, parsed.errno⟩

def wrapLong (value : Int) : Int := value.bmod (2 ^ 64)

def signedLoop (base : Nat) : Int → List UInt8 → Int × List UInt8
  | result, [] => (result, [])
  | result, c :: text =>
    match asciiDigitValue c with
    | none => (result, c :: text)
    | some digit =>
      if base ≤ digit then (result, c :: text)
      else signedLoop base (wrapLong (result * base + digit)) text

def chooseLongBase (base : Nat) (body : List UInt8) : Nat × List UInt8 :=
  if base = 0 then
    if hexMark body then (16, body.drop 2)
    else if body.head? = some 48 then (8, body) else (10, body)
  else if base = 16 ∧ hexMark body then (16, body.drop 2)
  else (base, body)

def strtol (text : List UInt8) (base : Nat) : Outcome :=
  let (negative, body) := takeSign (text.dropWhile isBlank)
  let (base, start) := chooseLongBase base body
  let (result, rest) := signedLoop base 0 start
  let stop :=
    if rest.length = start.length then
      if negative then text.length - start.length - 1 else text.length - start.length
    else text.length - rest.length
  ⟨wrapLong (if negative then -result else result), stop, none⟩

def strtoul (text : List UInt8) (base : Nat) : Outcome :=
  let out := strtol text base
  ⟨out.value % 2 ^ 64, out.stop, out.errno⟩

/-! ## What a number is -/

inductive Sign where
  | absent
  | plus
  | minus

def Sign.bytes : Sign → List UInt8
  | absent => []
  | plus => [43]
  | minus => [45]

def Sign.negative : Sign → Bool
  | minus => true
  | _ => false

/-- The bytes between sign and digits, and the radix of the digits. -/
inductive Marked (base : Nat) : List UInt8 → Nat → List UInt8 → Prop
  | given {digits} : base ≠ 0 → Marked base [] base digits
  | hex {digits} (x : UInt8) :
    base = 0 ∨ base = 16 → x = 120 ∨ x = 88 → Marked base [48, x] 16 digits
  | octal {digits} : base = 0 → digits.head? = some 48 → Marked base [] 8 digits
  | decimal {digits} : base = 0 → digits.head? ≠ some 48 → Marked base [] 10 digits

def digitsValue (radix : Nat) (digits : List UInt8) : Nat :=
  Nat.ofDigits radix (digits.filterMap asciiDigitValue).reverse

/-- `bytes` are space, a sign, a base mark and digits that denote `value`, all but the digits
optional. -/
inductive Numeral (base : Nat) : List UInt8 → Bool → Nat → Prop
  | mk (lead : List UInt8) (sign : Sign) {mark digits : List UInt8} {radix : Nat} :
    (∀ c ∈ lead, isSpace c = true) → Marked base mark radix digits → digits ≠ [] →
    (∀ c ∈ digits, isDigit radix c = true) →
    Numeral base (lead ++ (sign.bytes ++ (mark ++ digits))) sign.negative (digitsValue radix digits)

/-- The first `n` bytes of `text` are its longest prefix that is a number. -/
structure Longest (base : Nat) (text : List UInt8) (n : Nat) (negative : Bool) (value : Nat) :
    Prop where
  inside : n ≤ text.length
  numeral : Numeral base (text.take n) negative value
  longest : ∀ m ≤ text.length, ∀ negative' value',
    Numeral base (text.take m) negative' value' → m ≤ n

def NoNumeral (base : Nat) (text : List UInt8) : Prop :=
  ∀ m ≤ text.length, ∀ negative value, ¬ Numeral base (text.take m) negative value

def signed (negative : Bool) (value : Nat) : Int := if negative then -value else value

/-- What a conversion to a type with the range `lo` to `hi` should report. -/
inductive Converts (lo hi : Int) (base : Nat) (text : List UInt8) : Outcome → Prop
  | number {n negative value} : Longest base text n negative value →
    Converts lo hi base text ⟨max lo (min hi (signed negative value)), n,
      if lo ≤ signed negative value ∧ signed negative value ≤ hi then none else some .range⟩
  | nothing : NoNumeral base text → Converts lo hi base text ⟨0, 0, none⟩

end XsCore.Libc
