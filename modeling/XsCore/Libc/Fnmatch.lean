import XsCore.Foundation.PrefixTable
import XsCore.Libc.Heap

/-! # Shell patterns

`fnmatch` of `userspace/libc/src/string.c`.  A cursor into the pattern is the rest of the pattern
from there on; the byte at the end of it is the terminating zero.  A row is read only up to the
length of the string.
-/

namespace XsCore.Libc

open List

variable (text : List UInt8)
variable {last c value : UInt8} {negate : Bool}

structure CString where
  bytes : List UInt8
  noZero : 0 ∉ bytes
  fits : bytes.length < sizeMax

structure FnmatchFlags where
  pathname : Bool
  noescape : Bool
  period : Bool
  leadingDir : Bool
  casefold : Bool

/-! ## The code -/

def fnmNoMatch : Nat := 1

def fnmatchFold (value : UInt8) (flags : FnmatchFlags) : UInt8 :=
  if flags.casefold ∧ 65 ≤ value ∧ value ≤ 90 then value + 32 else value

def fnmatchComponentStart (string : List UInt8) (index : Nat) (flags : FnmatchFlags) : Bool :=
  index == 0 || (flags.pathname && string.getD (index - 1) 0 == 47)

def takeQuoted (flags : FnmatchFlags) (first : UInt8) : List UInt8 → UInt8 × List UInt8
  | [] => (first, [])
  | c :: rest => if first = 92 ∧ flags.noescape = false then (c, rest) else (first, c :: rest)

/-- A dash stands here and an end of a range follows it. -/
def rangeFollows : List UInt8 → Option (UInt8 × List UInt8)
  | dash :: last :: rest => if dash = 45 ∧ last ≠ 93 then some (last, rest) else none
  | _ => none

/-- The loop of `fnmatch_bracket`; every round reads a byte. -/
def bracketLoop (flags : FnmatchFlags) (value : UInt8) :
    Nat → List UInt8 → Bool → Bool → List UInt8 × Bool × Bool
  | 0, cursor, matched, hasElement => (cursor, matched, hasElement)
  | _ + 1, [], matched, hasElement => ([], matched, hasElement)
  | fuel + 1, c :: cursor, matched, hasElement =>
    if c = 93 then (c :: cursor, matched, hasElement)
    else
      let (first, cursor) := takeQuoted flags c cursor
      let foldedFirst := fnmatchFold first flags
      let foldedValue := fnmatchFold value flags
      match rangeFollows cursor with
      | some (last, cursor) =>
        let (last, cursor) := takeQuoted flags last cursor
        let foldedLast := fnmatchFold last flags
        if foldedFirst ≤ foldedLast ∧ foldedFirst ≤ foldedValue ∧ foldedValue ≤ foldedLast then
          bracketLoop flags value fuel cursor true true
        else bracketLoop flags value fuel cursor matched true
      | none =>
        if foldedFirst = foldedValue then bracketLoop flags value fuel cursor true true
        else bracketLoop flags value fuel cursor matched true

/-- An exclamation mark or a circumflex at the start of a bracket. -/
def takeNegation : List UInt8 → Bool × List UInt8
  | [] => (false, [])
  | c :: cursor => if c = 33 ∨ c = 94 then (true, cursor) else (false, c :: cursor)

/-- A closing bracket at the start stands for itself. -/
def takeLeading : List UInt8 → Bool × List UInt8
  | [] => (false, [])
  | c :: cursor => if c = 93 then (true, cursor) else (false, c :: cursor)

/-- `fnmatch_bracket` on what follows the opening bracket: whether `value` matches and what
follows the closing bracket.  An invalid bracket is `none`. -/
def fnmatchBracket (flags : FnmatchFlags) (value : UInt8) (cursor : List UInt8) :
    Option (Bool × List UInt8) :=
  let (negate, cursor) := takeNegation cursor
  let (leading, cursor) := takeLeading cursor
  match bracketLoop flags value cursor.length cursor (leading && value == 93) leading with
  | ([], _, _) => none
  | (c :: rest, matched, hasElement) =>
    if c ≠ 93 ∨ hasElement = false then none
    else some (if negate then !matched else matched, rest)

def starRow (flags : FnmatchFlags) (string : List UInt8) (previous : Nat → Bool) : Nat → Bool
  | 0 => previous 0
  | index + 1 =>
    let character := string.getD index 0
    let mayConsume := !(flags.pathname && character == 47) &&
      !(flags.period && character == 46 && fnmatchComponentStart string index flags)
    previous (index + 1) || (starRow flags string previous index && mayConsume)

def tokenRow (flags : FnmatchFlags) (string : List UInt8) (tokenMatches : UInt8 → Bool)
    (wildcard : Bool) (previous : Nat → Bool) : Nat → Bool
  | 0 => false
  | index + 1 =>
    let character := string.getD index 0
    let wildcardPeriod := wildcard && character == 46 && flags.period &&
      fnmatchComponentStart string index flags
    previous index && tokenMatches character && !wildcardPeriod &&
      !(flags.pathname && wildcard && character == 47)

def fnmatchLoop (flags : FnmatchFlags) (string : List UInt8) :
    Nat → List UInt8 → (Nat → Bool) → Nat → Bool
  | 0, _, previous => previous
  | _ + 1, [], previous => previous
  | fuel + 1, token :: cursor, previous =>
    if token = 42 then
      fnmatchLoop flags string fuel (cursor.dropWhile (· == 42)) (starRow flags string previous)
    else
      let bracket := if token = 91 then fnmatchBracket flags 0 cursor else none
      match bracket with
      | some (_, afterToken) =>
        let tokenMatches := fun character =>
          ((fnmatchBracket flags character cursor).map (·.1)).getD false
        fnmatchLoop flags string fuel afterToken (tokenRow flags string tokenMatches true previous)
      | none =>
        let tokenIsQuestion := token == 63
        let (token, cursor) := takeQuoted flags token cursor
        let tokenMatches := fun character => fnmatchFold token flags == fnmatchFold character flags
        fnmatchLoop flags string fuel cursor
          (tokenRow flags string tokenMatches tokenIsQuestion previous)

/-- `fnmatch`; `allocated` says whether both rows could be allocated. -/
def fnmatch (allocated : Bool) (pattern string : Option CString) (flags : FnmatchFlags) : Nat :=
  match pattern, string with
  | some pattern, some string =>
    let stringLength := string.bytes.length
    if stringLength = sizeMax then fnmNoMatch
    else if allocated then
      let previous := fnmatchLoop flags string.bytes pattern.bytes.length pattern.bytes
        (fun index => index == 0)
      if previous stringLength then 0
      else if flags.leadingDir && (range stringLength).any (fun index =>
          string.bytes.getD index 0 == 47 && previous index) then 0
      else fnmNoMatch
    else fnmNoMatch
  | _, _ => fnmNoMatch

/-! ## The language of a pattern -/

inductive BracketItem where
  | one (c : UInt8)
  | range (first last : UInt8)
  deriving DecidableEq

inductive PatternToken where
  | star
  | question
  | literal (c : UInt8)
  | bracket (negate : Bool) (items : List BracketItem)
  deriving DecidableEq

def BracketItem.lists (flags : FnmatchFlags) (c : UInt8) : BracketItem → Bool
  | .one a => fnmatchFold a flags == fnmatchFold c flags
  | .range a b => decide (fnmatchFold a flags ≤ fnmatchFold c flags) &&
      decide (fnmatchFold c flags ≤ fnmatchFold b flags)

/-- No wildcard stands for a slash in a path name. -/
def wildcardAccepts (flags : FnmatchFlags) (c : UInt8) : Bool := !(flags.pathname && c == 47)

open PrefixTable in
def PatternToken.language (flags : FnmatchFlags) : PatternToken → Language UInt8
  | .star => runs (wildcardAccepts flags)
  | .question => letters (wildcardAccepts flags)
  | .literal a => letters fun c => fnmatchFold a flags == fnmatchFold c flags
  | .bracket negate items =>
    letters fun c => (items.any (·.lists flags c) != negate) && wildcardAccepts flags c

/-- The elements of a bracket, up to the bracket that closes it or the end of the text. -/
def readItems (flags : FnmatchFlags) : Nat → List UInt8 → List BracketItem × List UInt8
  | 0, text => ([], text)
  | _ + 1, [] => ([], [])
  | fuel + 1, c :: text =>
    if c = 93 then ([], c :: text)
    else
      let (first, text) := takeQuoted flags c text
      match rangeFollows text with
      | some (last, text) =>
        let (last, text) := takeQuoted flags last text
        let (items, rest) := readItems flags fuel text
        (.range first last :: items, rest)
      | none =>
        let (items, rest) := readItems flags fuel text
        (.one first :: items, rest)

/-- A bracket is valid if it has an element and is closed. -/
def readBracket (flags : FnmatchFlags) (text : List UInt8) :
    Option (Bool × List BracketItem × List UInt8) :=
  let (negate, text) := takeNegation text
  let (leading, text) := takeLeading text
  let (items, text) := readItems flags text.length text
  let items := if leading then .one 93 :: items else items
  match text with
  | [] => none
  | c :: rest => if c ≠ 93 ∨ items = [] then none else some (negate, items, rest)

def readTokens (flags : FnmatchFlags) : Nat → List UInt8 → List PatternToken
  | 0, _ => []
  | _ + 1, [] => []
  | fuel + 1, c :: text =>
    if c = 42 then .star :: readTokens flags fuel text
    else if c = 63 then .question :: readTokens flags fuel text
    else
      match if c = 91 then readBracket flags text else none with
      | some (negate, items, rest) => .bracket negate items :: readTokens flags fuel rest
      | none =>
        let (c, rest) := takeQuoted flags c text
        .literal c :: readTokens flags fuel rest

def tokens (flags : FnmatchFlags) (pattern : List UInt8) : List PatternToken :=
  readTokens flags pattern.length pattern

def patternLanguage (flags : FnmatchFlags) (ts : List PatternToken) : Language UInt8 :=
  (ts.map (·.language flags)).prod

/-- The tokens stand for `string`; with `FNM_LEADING_DIR` a leading directory of it is enough. -/
def Accepts (flags : FnmatchFlags) (ts : List PatternToken) (string : List UInt8) : Prop :=
  string ∈ patternLanguage flags ts ∨
    flags.leadingDir = true ∧ ∃ directory rest, string = directory ++ 47 :: rest ∧
      directory ∈ patternLanguage flags ts

def InLanguage (flags : FnmatchFlags) (pattern string : List UInt8) : Prop :=
  Accepts flags (tokens flags pattern) string

/-! ## Reading a pattern -/

theorem takeQuoted_length (flags : FnmatchFlags) (first : UInt8) (text : List UInt8) :
    (takeQuoted flags first text).2.length ≤ text.length := by
  unfold takeQuoted
  split
  · exact le_rfl
  split
  · exact Nat.le_succ _
  · exact le_rfl

theorem rangeFollows_length {text rest : List UInt8} (h : rangeFollows text = some (last, rest)) :
    rest.length < text.length := by
  unfold rangeFollows at h
  split at h
  · split at h
    · cases h
      simp only [length_cons]
      omega
    · cases h
  · cases h

theorem readItems_length (flags : FnmatchFlags) (fuel : Nat) (text : List UInt8) :
    (readItems flags fuel text).2.length ≤ text.length := by
  induction fuel generalizing text with
  | zero => exact le_rfl
  | succ fuel ih =>
    rcases text with _ | ⟨c, text⟩
    · exact le_rfl
    rw [readItems]
    split
    · exact le_rfl
    have hquoted := takeQuoted_length flags c text
    dsimp only
    split
    · rename_i last rest hrange
      have hlast := takeQuoted_length flags last rest
      have hitems := ih (takeQuoted flags last rest).2
      have hshorter := rangeFollows_length hrange
      rw [length_cons]
      dsimp only
      omega
    · have hitems := ih (takeQuoted flags c text).2
      rw [length_cons]
      dsimp only
      omega

theorem takeNegation_length : (takeNegation text).2.length ≤ text.length := by
  cases text with
  | nil => exact le_rfl
  | cons c text =>
    simp only [takeNegation]
    split <;> simp

theorem takeLeading_length : (takeLeading text).2.length ≤ text.length := by
  cases text with
  | nil => exact le_rfl
  | cons c text =>
    simp only [takeLeading]
    split <;> simp

theorem readBracket_length {flags : FnmatchFlags} {text rest : List UInt8}
    {items : List BracketItem} (h : readBracket flags text = some (negate, items, rest)) :
    rest.length < text.length := by
  have hnegation := takeNegation_length text
  have hleading := takeLeading_length (takeNegation text).2
  have hitems := readItems_length flags (takeLeading (takeNegation text).2).2.length
    (takeLeading (takeNegation text).2).2
  unfold readBracket at h
  dsimp only at h
  split at h
  · cases h
  rename_i c after heq
  rw [heq, length_cons] at hitems
  split_ifs at h
  all_goals
    cases h
    omega

theorem readTokens_fuel (flags : FnmatchFlags) {f g : Nat} {text : List UInt8}
    (hf : text.length ≤ f) (hg : text.length ≤ g) :
    readTokens flags f text = readTokens flags g text := by
  induction f generalizing g text with
  | zero =>
    rw [length_eq_zero_iff.mp (Nat.le_zero.mp hf)]
    cases g <;> rfl
  | succ f ih =>
    rcases text with _ | ⟨c, text⟩
    · cases g <;> rfl
    rw [length_cons] at hf hg
    rcases g with _ | g
    · omega
    have htail : readTokens flags f text = readTokens flags g text := ih (by omega) (by omega)
    have hquoted := takeQuoted_length flags c text
    have hrest : readTokens flags f (takeQuoted flags c text).2 =
        readTokens flags g (takeQuoted flags c text).2 := ih (by omega) (by omega)
    rw [readTokens, readTokens, htail]
    split
    · rfl
    split
    · rfl
    split
    · rename_i negate items rest hbracket
      have hshorter : rest.length < text.length := by
        split at hbracket
        · exact readBracket_length hbracket
        · cases hbracket
      rw [ih (g := g) (by omega) (by omega)]
    · dsimp only
      rw [hrest]

section Equations

variable (flags : FnmatchFlags)

theorem tokens_nil : tokens flags [] = [] := rfl

theorem tokens_star : tokens flags (42 :: text) = .star :: tokens flags text :=
  rfl

theorem tokens_question : tokens flags (63 :: text) = .question :: tokens flags text := rfl

theorem tokens_bracket {text rest : List UInt8} {items : List BracketItem}
    (h : readBracket flags text = some (negate, items, rest)) :
    tokens flags (91 :: text) = .bracket negate items :: tokens flags rest := by
  have hshorter := readBracket_length h
  rw [tokens, length_cons, readTokens, if_neg (by decide), if_neg (by decide), if_pos rfl, h]
  dsimp only
  rw [tokens, readTokens_fuel flags hshorter.le le_rfl]

theorem tokens_literal {text : List UInt8} (hstar : c ≠ 42) (hquestion : c ≠ 63)
    (hbracket : c = 91 → readBracket flags text = none) : tokens flags (c :: text) =
      .literal (takeQuoted flags c text).1 :: tokens flags (takeQuoted flags c text).2 := by
  have hnone : (if c = 91 then readBracket flags text else none) = none := by
    split
    · exact hbracket ‹_›
    · rfl
  rw [tokens, length_cons, readTokens, if_neg hstar, if_neg hquestion, hnone]
  dsimp only
  rw [tokens, readTokens_fuel flags (takeQuoted_length flags c text) le_rfl]

theorem tokens_induction {P : List UInt8 → List PatternToken → Prop} (nil : P [] [])
    (star : ∀ text, P text (tokens flags text) → P (42 :: text) (.star :: tokens flags text))
    (question : ∀ text, P text (tokens flags text) →
      P (63 :: text) (.question :: tokens flags text))
    (bracket : ∀ text negate items rest, readBracket flags text = some (negate, items, rest) →
      P rest (tokens flags rest) → P (91 :: text) (.bracket negate items :: tokens flags rest))
    (literal : ∀ c text, P (takeQuoted flags c text).2 (tokens flags (takeQuoted flags c text).2) →
      P (c :: text)
        (.literal (takeQuoted flags c text).1 :: tokens flags (takeQuoted flags c text).2))
    (text : List UInt8) : P text (tokens flags text) := by
  induction hlen : text.length using Nat.strong_induction_on generalizing text with
  | _ n ih =>
    subst hlen
    rcases text with _ | ⟨c, text⟩
    · exact nil
    have hshorter (rest : List UInt8) (h : rest.length ≤ text.length) :
        P rest (tokens flags rest) :=
      ih rest.length (by rw [length_cons]; omega) rest rfl
    by_cases hstar : c = 42
    · rw [hstar, tokens_star]
      exact star text (hshorter text le_rfl)
    by_cases hquestion : c = 63
    · rw [hquestion, tokens_question]
      exact question text (hshorter text le_rfl)
    by_cases hbracket : c = 91 → readBracket flags text = none
    · rw [tokens_literal flags hstar hquestion hbracket]
      exact literal c text (hshorter _ (takeQuoted_length flags c text))
    rw [Classical.not_imp] at hbracket
    obtain ⟨⟨negate, items, rest⟩, hread⟩ := Option.ne_none_iff_exists'.mp hbracket.2
    rw [hbracket.1, tokens_bracket flags hread]
    exact bracket text negate items rest hread
      (hshorter rest (Nat.le_of_lt (readBracket_length hread)))

end Equations

/-! ## Brackets in the code -/

theorem lists_range {flags : FnmatchFlags} {first : UInt8} :
    (BracketItem.range first last).lists flags value ↔
      fnmatchFold first flags ≤ fnmatchFold last flags ∧
        fnmatchFold first flags ≤ fnmatchFold value flags ∧
        fnmatchFold value flags ≤ fnmatchFold last flags := by
  rw [BracketItem.lists, Bool.and_eq_true, decide_eq_true_iff, decide_eq_true_iff]
  constructor
  · intro h
    exact ⟨UInt8.le_trans h.1 h.2, h⟩
  · exact And.right

theorem lists_one {flags : FnmatchFlags} :
    (BracketItem.one c).lists flags value ↔ fnmatchFold c flags = fnmatchFold value flags :=
  beq_iff_eq

theorem fnmatchFold_eq_iff {flags : FnmatchFlags} {a : UInt8} (h : a < 65 ∨ 90 < a ∧ a < 97) :
    fnmatchFold a flags = fnmatchFold value flags ↔ value = a := by
  unfold fnmatchFold
  split_ifs <;> grind

theorem bracketLoop_eq (flags : FnmatchFlags) (value : UInt8) (fuel : Nat) (cursor : List UInt8)
    (matched hasElement : Bool) : bracketLoop flags value fuel cursor matched hasElement =
      ((readItems flags fuel cursor).2,
        matched || (readItems flags fuel cursor).1.any (·.lists flags value),
        hasElement || !(readItems flags fuel cursor).1.isEmpty) := by
  induction fuel generalizing cursor matched hasElement with
  | zero => simp [bracketLoop, readItems]
  | succ fuel ih =>
    rcases cursor with _ | ⟨c, cursor⟩
    · simp [bracketLoop, readItems]
    rw [bracketLoop, readItems]
    split
    · simp
    dsimp only
    split
    · split
      · rename_i hmatch
        simp [ih, lists_range.mpr hmatch]
      rename_i hmatch
      have hfalse := Bool.eq_false_iff.mpr (mt lists_range.mp hmatch)
      simp [ih, hfalse]
    · split
      · rename_i hmatch
        simp [ih, lists_one.mpr hmatch]
      rename_i hmatch
      have hfalse := Bool.eq_false_iff.mpr (mt lists_one.mp hmatch)
      simp [ih, hfalse]

/-- The code reads a bracket again for every character; each time it is the same bracket. -/
theorem fnmatchBracket_eq (flags : FnmatchFlags) (value : UInt8) (cursor : List UInt8) :
    fnmatchBracket flags value cursor =
      (readBracket flags cursor).map fun bracket =>
        (bracket.2.1.any (·.lists flags value) != bracket.1, bracket.2.2) := by
  have hclosing : (BracketItem.one 93).lists flags value = (value == 93) := by
    rw [Bool.eq_iff_iff, lists_one, beq_iff_eq, fnmatchFold_eq_iff (.inr (by decide))]
  unfold fnmatchBracket readBracket
  dsimp only
  rw [bracketLoop_eq]
  generalize (takeNegation cursor).1 = negate
  generalize (takeLeading (takeNegation cursor).2).1 = leading
  generalize readItems flags _ _ = read
  obtain ⟨items, rest⟩ := read
  cases rest with
  | nil => rfl
  | cons c rest =>
    by_cases hclosed : c = 93
    · cases leading <;> cases items <;> cases negate <;> simp [hclosed, hclosing]
    · simp [hclosed]

/-! ## Rows -/

/-- The code compares a question mark like any other character. -/
def PatternToken.asCoded : PatternToken → PatternToken
  | .question => .literal 63
  | token => token

section Rows

open PrefixTable

variable {flags : FnmatchFlags} {string : List UInt8} {row : Nat → Bool} {L : Language UInt8}

theorem any_getElem? {index : Nat} (h : index < string.length) (p : UInt8 → Bool) :
    string[index]?.any p = p (string.getD index 0) := by
  rw [getD_eq_getElem?_getD, getElem?_eq_getElem h]
  rfl

theorem starRow_decides (hperiod : flags.period = false) (h : Decides string row L) :
    Decides string (starRow flags string row) (L * PatternToken.star.language flags) := by
  refine h.run.congr fun i => ?_
  induction i with
  | zero => exact fun _ => rfl
  | succ i ih =>
    intro hi
    rw [starRow, runRow, ih (Nat.le_of_succ_le hi), any_getElem? hi, wildcardAccepts]
    simp only [hperiod, Bool.false_and, Bool.not_false, Bool.and_true]

theorem tokenRow_decides (hperiod : flags.period = false) (tokenMatches : UInt8 → Bool)
    (wildcard : Bool) (h : Decides string row L) :
    Decides string (tokenRow flags string tokenMatches wildcard row)
      (L * letters fun c => tokenMatches c && !(flags.pathname && wildcard && c == 47)) := by
  refine h.letter.congr fun i hi => ?_
  cases i with
  | zero => rfl
  | succ i =>
    rw [tokenRow, letterRow, any_getElem? hi]
    simp only [hperiod, Bool.and_false, Bool.false_and, Bool.not_false, Bool.and_true,
      Bool.and_assoc]

theorem patternLanguage_cons (token : PatternToken) (ts : List PatternToken) :
    patternLanguage flags (token :: ts) = token.language flags * patternLanguage flags ts := by
  rw [patternLanguage, map_cons, prod_cons]
  rfl

theorem patternLanguage_stars : PatternToken.star.language flags *
        patternLanguage flags ((tokens flags (text.dropWhile (· == 42))).map (·.asCoded)) =
      PatternToken.star.language flags *
        patternLanguage flags ((tokens flags text).map (·.asCoded)) := by
  induction text with
  | nil => rfl
  | cons c text ih =>
    by_cases hstar : c = 42
    · subst hstar
      rw [dropWhile_cons, if_pos (by decide), ih, tokens_star, map_cons,
        patternLanguage_cons, ← mul_assoc]
      congr 1
      exact (runs_mul_runs _).symm
    · rw [dropWhile_cons_of_neg (by simpa using hstar)]

/-- A question mark that is compared is never a slash. -/
theorem question_asCoded (c : UInt8) :
    (fnmatchFold 63 flags == fnmatchFold c flags && !(flags.pathname && true && c == 47)) =
      (fnmatchFold 63 flags == fnmatchFold c flags) := by
  by_cases hc : c = 63
  · rw [hc]
    cases flags.pathname <;> simp
  have hne : (fnmatchFold 63 flags == fnmatchFold c flags) = false := by
    rw [beq_eq_false_iff_ne, ne_eq, fnmatchFold_eq_iff (.inl (by decide))]
    exact hc
  rw [hne, Bool.false_and]

theorem fnmatchLoop_decides (hperiod : flags.period = false) {fuel : Nat} {cursor : List UInt8}
    (hfuel : cursor.length ≤ fuel) (h : Decides string row L) :
    Decides string (fnmatchLoop flags string fuel cursor row)
      (L * patternLanguage flags ((tokens flags cursor).map (·.asCoded))) := by
  induction fuel generalizing cursor row L with
  | zero =>
    rw [length_eq_zero_iff.mp (Nat.le_zero.mp hfuel), tokens_nil, map_nil,
      patternLanguage, map_nil, prod_nil, mul_one]
    exact h
  | succ fuel ih =>
    rcases cursor with _ | ⟨token, cursor⟩
    · rw [tokens_nil, map_nil, patternLanguage, map_nil, prod_nil, mul_one]
      exact h
    rw [length_cons] at hfuel
    rw [fnmatchLoop]
    by_cases hstar : token = 42
    · subst hstar
      have hlength := (dropWhile_suffix (l := cursor) (· == 42)).length_le
      rw [if_pos rfl, tokens_star, map_cons, patternLanguage_cons]
      change Decides _ _ (L * (PatternToken.star.language flags * _))
      rw [← patternLanguage_stars, ← mul_assoc]
      exact ih (by omega) (starRow_decides hperiod h)
    rw [if_neg hstar]
    by_cases hbracket : token = 91 ∧ (readBracket flags cursor).isSome
    · obtain ⟨rfl, hsome⟩ := hbracket
      obtain ⟨⟨negate, items, rest⟩, hread⟩ := Option.isSome_iff_exists.mp hsome
      have hshorter := readBracket_length hread
      simp only [fnmatchBracket_eq, hread, if_true, Option.map_some, Option.getD_some]
      rw [tokens_bracket flags hread, map_cons, patternLanguage_cons, ← mul_assoc]
      apply ih (by omega)
      have hrow := tokenRow_decides hperiod
        (fun c => items.any (·.lists flags c) != negate) true h
      simp only [Bool.and_true] at hrow
      exact hrow
    have hnone : (if token = 91 then fnmatchBracket flags 0 cursor else none) = none := by
      split
      · rename_i heq
        rw [fnmatchBracket_eq, Option.not_isSome_iff_eq_none.mp (fun h => hbracket ⟨heq, h⟩)]
        rfl
      · rfl
    have hlength := takeQuoted_length flags token cursor
    rw [hnone]
    dsimp only
    by_cases hquestion : token = 63
    · subst hquestion
      have hplain : takeQuoted flags 63 cursor = (63, cursor) := by cases cursor <;> rfl
      have hrow := tokenRow_decides hperiod
        (fun c => fnmatchFold 63 flags == fnmatchFold c flags) true h
      simp only [question_asCoded] at hrow
      rw [tokens_question, map_cons, patternLanguage_cons, ← mul_assoc, hplain]
      exact ih (Nat.le_of_succ_le_succ hfuel) hrow
    · have hread : token = 91 → readBracket flags cursor = none := by
        intro heq
        exact Option.not_isSome_iff_eq_none.mp fun h => hbracket ⟨heq, h⟩
      have hrow := tokenRow_decides hperiod
        (fun c => fnmatchFold (takeQuoted flags token cursor).1 flags == fnmatchFold c flags)
        false h
      simp only [Bool.and_false, Bool.false_and, Bool.not_false, Bool.and_true] at hrow
      rw [tokens_literal flags hstar hquestion hread, map_cons, patternLanguage_cons,
        ← mul_assoc, beq_eq_false_iff_ne.mpr hquestion]
      exact ih (by omega) hrow

theorem exists_directory {s : List UInt8} {L : Language UInt8} (h : Decides s row L) :
    (range s.length).any (fun index => s.getD index 0 == 47 && row index) ↔
      ∃ directory rest, s = directory ++ 47 :: rest ∧ directory ∈ L := by
  rw [any_eq_true]
  constructor
  · rintro ⟨index, hmem, hslash⟩
    have hlt := mem_range.mp hmem
    rw [Bool.and_eq_true, beq_iff_eq, getD_eq_getElem?_getD, getElem?_eq_getElem hlt,
      Option.getD_some] at hslash
    refine ⟨s.take index, s.drop (index + 1), ?_, (h index hlt.le).mp hslash.2⟩
    rw [← hslash.1, ← drop_eq_getElem_cons hlt, take_append_drop]
  · rintro ⟨directory, rest, rfl, hmem⟩
    have hlt : directory.length < (directory ++ 47 :: rest).length := by
      rw [length_append, length_cons]
      omega
    refine ⟨directory.length, mem_range.mpr hlt, ?_⟩
    rw [Bool.and_eq_true, beq_iff_eq, h _ hlt.le, take_left,
      getD_eq_getElem?_getD, getElem?_append_right le_rfl, Nat.sub_self]
    exact ⟨rfl, hmem⟩

theorem fnmatch_eq_zero_iff (hperiod : flags.period = false) (allocated : Bool)
    (pattern string : CString) : fnmatch allocated (some pattern) (some string) flags = 0 ↔
      allocated ∧
        Accepts flags ((tokens flags pattern.bytes).map (·.asCoded)) string.bytes := by
  have hrow : Decides string.bytes (fnmatchLoop flags string.bytes pattern.bytes.length
      pattern.bytes fun index => index == 0)
      (1 * patternLanguage flags ((tokens flags pattern.bytes).map (·.asCoded))) :=
    fnmatchLoop_decides hperiod le_rfl start_decides
  rw [one_mul] at hrow
  have hwhole := hrow string.bytes.length le_rfl
  rw [take_length] at hwhole
  have hdirectory := exists_directory hrow
  unfold fnmatch Accepts
  dsimp only
  rw [if_neg (Nat.ne_of_lt string.fits), ← hwhole, ← hdirectory]
  generalize (range _).any _ = found
  generalize fnmatchLoop flags _ _ _ _ _ = matched
  cases allocated <;> cases matched <;> cases flags.leadingDir <;> cases found <;>
    simp [fnmNoMatch]

end Rows

/-! ## Where the code is right -/

section Exactness

open PrefixTable

variable {flags : FnmatchFlags}

def singles (ts : List PatternToken) : Nat := ts.countP (· ≠ .star)

theorem singles_star (ts : List PatternToken) : singles (.star :: ts) = singles ts := rfl

variable {token : PatternToken} {w : List UInt8} {ts : List PatternToken}

theorem singles_cons (h : token ≠ .star) (ts : List PatternToken) :
    singles (token :: ts) = singles ts + 1 := by
  rw [singles, countP_cons_of_pos (by simpa using h)]
  rfl

theorem singles_tokens_le (flags : FnmatchFlags) (text : List UInt8) :
    singles (tokens flags text) ≤ text.length := by
  refine tokens_induction flags (P := fun text ts => singles ts ≤ text.length) (Nat.le_refl 0)
    ?_ ?_ ?_ ?_ text
  · intro text ih
    exact Nat.le_succ_of_le ih
  · intro text ih
    rw [singles_cons (by decide)]
    exact Nat.succ_le_succ ih
  · intro text negate items rest hread ih
    have hshorter := readBracket_length hread
    rw [singles_cons PatternToken.noConfusion, length_cons]
    omega
  · intro c text ih
    have hlength := takeQuoted_length flags c text
    rw [singles_cons PatternToken.noConfusion, length_cons]
    omega

theorem language_asCoded_length (h : token ≠ .star) (hw : w ∈ token.asCoded.language flags) :
    w.length = 1 := by
  cases token with
  | star => exact absurd rfl h
  | question | literal | bracket =>
    obtain ⟨c, _, rfl⟩ := hw
    rfl

theorem singles_le_length (hw : w ∈ patternLanguage flags (ts.map (·.asCoded))) :
    singles ts ≤ w.length := by
  induction ts generalizing w with
  | nil => exact Nat.zero_le _
  | cons token ts ih =>
    rw [map_cons, patternLanguage_cons, Language.mem_mul] at hw
    obtain ⟨u, hu, v, hv, rfl⟩ := hw
    have hrest := ih hv
    rw [length_append]
    by_cases hstar : token = .star
    · rw [hstar, singles_star]
      exact Nat.le_add_left_of_le hrest
    have hone := language_asCoded_length hstar hu
    rw [singles_cons hstar]
    omega

theorem wildcardAccepts_letter : wildcardAccepts flags 97 := by
  cases hp : flags.pathname <;> simp [wildcardAccepts, hp]

theorem exists_character (h : ∃ c, c ≠ 0 ∧ [c] ∈ token.language flags) :
    ∃ c, c ≠ 0 ∧ [c] ∈ token.language flags ∧
      ([c] ∈ token.asCoded.language flags → token ≠ .question) := by
  by_cases hquestion : token = .question
  · subst hquestion
    refine ⟨97, by decide, ⟨97, wildcardAccepts_letter, rfl⟩, ?_⟩
    · rintro ⟨c, hfold, hsame⟩
      rw [← singleton_inj.mp hsame, beq_iff_eq, fnmatchFold_eq_iff (.inl (by decide))] at hfold
      cases hfold
  · obtain ⟨c, hc, hmem⟩ := h
    exact ⟨c, hc, hmem, fun _ => hquestion⟩

/-- A shortest text of the pattern, with a letter for each question mark; the code accepts it only
if there is none. -/
theorem exists_shortest (h : ∀ token ∈ ts, ∃ c, c ≠ 0 ∧ [c] ∈ token.language flags) :
    ∃ w : List UInt8, 0 ∉ w ∧ w ∈ patternLanguage flags ts ∧ w.length = singles ts ∧
      (w ∈ patternLanguage flags (ts.map (·.asCoded)) → .question ∉ ts) := by
  induction ts with
  | nil => exact ⟨[], not_mem_nil, rfl, rfl, fun _ => not_mem_nil⟩
  | cons token ts ih =>
    obtain ⟨w, hzero, hw, hlength, hcoded⟩ := ih fun t ht => h t (mem_cons_of_mem _ ht)
    by_cases hstar : token = .star
    · subst hstar
      refine ⟨w, hzero, ?_, hlength, ?_⟩
      · rw [patternLanguage_cons, Language.mem_mul]
        exact ⟨[], fun c hc => absurd hc not_mem_nil, w, hw, rfl⟩
      · intro hmem
        rw [map_cons, patternLanguage_cons, Language.mem_mul] at hmem
        obtain ⟨u, _, v, hv, hsplit⟩ := hmem
        -- the text is too short for the star to take anything
        have hlong := singles_le_length hv
        have hnil : u = [] := by
          rw [← hlength, ← hsplit, length_append] at hlong
          exact length_eq_zero_iff.mp (by omega)
        rw [hnil, nil_append] at hsplit
        rw [hsplit] at hv
        intro hmem
        rcases mem_cons.mp hmem with heq | hmem
        · cases heq
        · exact hcoded hv hmem
    · obtain ⟨c, hc, hmem, hquestion⟩ := exists_character (h token mem_cons_self)
      refine ⟨c :: w, ?_, ?_, ?_, ?_⟩
      · intro hmem
        rcases mem_cons.mp hmem with heq | hmem
        · exact hc heq.symm
        · exact hzero hmem
      · rw [patternLanguage_cons, Language.mem_mul]
        exact ⟨[c], hmem, w, hw, rfl⟩
      · rw [singles_cons hstar, length_cons, hlength]
      · intro hmem
        rw [map_cons, patternLanguage_cons, Language.mem_mul] at hmem
        obtain ⟨u, hu, v, hv, hsplit⟩ := hmem
        have hsplit : u ++ v = [c] ++ w := hsplit
        have hparts := append_inj hsplit (language_asCoded_length hstar hu)
        rw [hparts.1] at hu
        rw [hparts.2] at hv
        intro hmem
        rcases mem_cons.mp hmem with heq | hmem
        · exact hquestion hu heq.symm
        · exact hcoded hv hmem

theorem not_mem_patternLanguage (htoken : token ∈ ts) (hempty : ∀ c ≠ 0, [c] ∉ token.language flags)
    (hzero : 0 ∉ w) : w ∉ patternLanguage flags ts := by
  induction ts generalizing w with
  | nil => exact absurd htoken not_mem_nil
  | cons t ts ih =>
    rw [patternLanguage_cons, Language.mem_mul]
    rintro ⟨u, hu, v, hv, rfl⟩
    rw [mem_append, not_or] at hzero
    rcases mem_cons.mp htoken with rfl | htoken
    · have hcontra (c : UInt8) (hsingle : u = [c]) : False := by
        rw [hsingle] at hu hzero
        exact hempty c (fun heq => hzero.1 (heq ▸ mem_singleton_self c)) hu
      cases token with
      | star =>
        refine hempty 97 (by decide) fun c hc => ?_
        rw [mem_singleton.mp hc]
        exact wildcardAccepts_letter
      | question | literal | bracket =>
        obtain ⟨c, _, hsingle⟩ := hu
        exact hcontra c hsingle
    · exact ih htoken hzero.2 hv

theorem not_accepts (htoken : token ∈ ts) (hempty : ∀ c ≠ 0, [c] ∉ token.language flags)
    (string : CString) : ¬Accepts flags ts string.bytes := by
  rintro (h | ⟨_, directory, rest, hsplit, hmem⟩)
  · exact not_mem_patternLanguage htoken hempty string.noZero h
  · refine not_mem_patternLanguage htoken hempty (fun hzero => string.noZero ?_) hmem
    rw [hsplit]
    exact mem_append_left _ hzero

theorem mem_map_asCoded (htoken : token ∈ ts) (hempty : ∀ c ≠ 0, [c] ∉ token.language flags) :
    token ∈ ts.map (·.asCoded) := by
  refine mem_map.mpr ⟨token, htoken, ?_⟩
  cases token with
  | question => exact absurd ⟨97, wildcardAccepts_letter, rfl⟩ (hempty 97 (by decide))
  | star | literal | bracket => rfl

theorem map_asCoded (h : .question ∉ ts) : ts.map (·.asCoded) = ts := by
  have hsame : ∀ token ∈ ts, token.asCoded = id token := by
    intro token hmem
    cases token with
    | question => exact absurd hmem h
    | star | literal | bracket => rfl
  rw [map_congr_left hsame, map_id]

/-- A string that has no slash-separated part to spare: the shortest text is accepted as a whole
or not at all. -/
theorem mem_of_accepts (hlength : w.length = singles ts)
    (h : Accepts flags (ts.map (·.asCoded)) w) :
    w ∈ patternLanguage flags (ts.map (·.asCoded)) := by
  rcases h with h | ⟨_, directory, rest, rfl, hmem⟩
  · exact h
  have hlong := singles_le_length hmem
  rw [← hlength, length_append, length_cons] at hlong
  omega

/-- `fnmatch` decides the language of exactly those patterns that have no question mark outside of
brackets, and of those that nothing can match because one of their brackets takes no character. -/
theorem fnmatch_correct_iff (hperiod : flags.period = false) (allocated : Bool)
    (pattern : CString) :
    (∀ string : CString, fnmatch allocated (some pattern) (some string) flags = 0 ↔
      InLanguage flags pattern.bytes string.bytes) ↔
    (allocated = true ∧ .question ∉ tokens flags pattern.bytes) ∨
      ∃ token ∈ tokens flags pattern.bytes, ∀ c, c ≠ 0 → [c] ∉ token.language flags := by
  constructor
  · intro hcorrect
    by_contra hcontra
    rw [not_or] at hcontra
    have hall : ∀ token ∈ tokens flags pattern.bytes, ∃ c, c ≠ 0 ∧ [c] ∈ token.language flags := by
      intro token hmem
      by_contra hnone
      exact hcontra.2 ⟨token, hmem, fun c hc hin => hnone ⟨c, hc, hin⟩⟩
    obtain ⟨w, hzero, hw, hlength, hcoded⟩ := exists_shortest hall
    have hfits : w.length < sizeMax := by
      rw [hlength]
      exact Nat.lt_of_le_of_lt (singles_tokens_le flags pattern.bytes) pattern.fits
    have hzeroResult := (hcorrect ⟨w, hzero, hfits⟩).mpr (.inl hw)
    rw [fnmatch_eq_zero_iff hperiod] at hzeroResult
    exact hcontra.1 ⟨hzeroResult.1, hcoded (mem_of_accepts hlength hzeroResult.2)⟩
  · intro hcases string
    rw [fnmatch_eq_zero_iff hperiod]
    rcases hcases with ⟨hallocated, hquestion⟩ | ⟨token, hmem, hempty⟩
    · rw [map_asCoded hquestion]
      exact ⟨And.right, fun h => ⟨hallocated, h⟩⟩
    · exact iff_of_false (fun h => not_accepts (mem_map_asCoded hmem hempty) hempty string h.2)
        (not_accepts hmem hempty string)

def plainFlags : FnmatchFlags := ⟨false, false, false, false, false⟩

def questionMark : CString := ⟨[63], by decide, by decide⟩

def letterA : CString := ⟨[97], by decide, by decide⟩

theorem fnmatch_questionMark : fnmatch true (some questionMark) (some letterA) plainFlags = 1 ∧
    InLanguage plainFlags questionMark.bytes letterA.bytes := by
  refine ⟨by decide, .inl ?_⟩
  change [97] ∈ patternLanguage plainFlags [.question]
  rw [patternLanguage_cons, Language.mem_mul]
  exact ⟨[97], ⟨97, by decide, rfl⟩, [], rfl, rfl⟩

def starPattern : CString := ⟨[42], by decide, by decide⟩

theorem fnmatch_correct_star : plainFlags.period = false ∧
    (fnmatch true (some starPattern) (some letterA) plainFlags = 0 ↔
      InLanguage plainFlags starPattern.bytes letterA.bytes) :=
  ⟨rfl, (fnmatch_correct_iff rfl true starPattern).mpr (.inl ⟨rfl, by decide⟩) letterA⟩

end Exactness

end XsCore.Libc
