import XsCore.Libc.Fnmatch

/-! # Regular expressions

`regcomp` and `regexec` of `userspace/libc/src/regex.c`.  A cursor into the pattern is the rest of
the pattern from there on, a cursor into the subject is an offset.  The parser descends with fuel:
what is proved holds for every amount of it, so for every pattern that is ever accepted.

`Spans` is the language of a syntax tree, over the positions of the subject because of the anchors.
The matcher follows one way through the tree and never comes back to a choice.  What it reports is
always in the language (`matchNode_sound`); it finds a match that exists unless a choice would have
to be revised (`Settled`, `matchNode_complete`).
-/

namespace XsCore.Libc

variable {State : Type} {test : UInt8 → Bool} {p : Nat}

inductive RegCode
  | ok
  | noMatch
  | badPat
  | eEscape
  | eBrack
  | eParen
  | eSpace
  deriving DecidableEq

structure RegFlags where
  icase : Bool
  newline : Bool

structure ExecFlags where
  notbol : Bool
  noteol : Bool

/-- `struct regex_node`; `null` is the null pointer. -/
inductive RegexNode
  | null
  | char (ch : UInt8)
  | any
  | cls (negated : Bool) (bits : UInt8 → Bool)
  | bol
  | eol
  | star (left : RegexNode)
  | plus (left : RegexNode)
  | opt (left : RegexNode)
  | cat (left right : RegexNode)
  | alt (left right : RegexNode)
  | group (index : Nat) (left : RegexNode)

def tolower (character : UInt8) : UInt8 :=
  if 65 ≤ character ∧ character ≤ 90 then character + 32 else character

def toupper (character : UInt8) : UInt8 :=
  if 97 ≤ character ∧ character ≤ 122 then character - 32 else character

/-! ## The parser -/

structure ParseState where
  rest : List UInt8
  groupCount : Nat
  error : RegCode
  allocations : Nat

def addByte (cflags : RegFlags) (bits : UInt8 → Bool) (c : UInt8) : UInt8 → Bool := fun byte =>
  bits byte || byte == c || cflags.icase && (byte == tolower c || byte == toupper c)

def addRange (cflags : RegFlags) (bits : UInt8 → Bool) (c1 c2 : UInt8) : UInt8 → Bool :=
  let low := min c1 c2
  let high := max c1 c2
  ((List.range (high.toNat + 1 - low.toNat)).map fun k => low + UInt8.ofNat k).foldl
    (addByte cflags) bits

def classLoop (cflags : RegFlags) : Bool → List UInt8 → (UInt8 → Bool) → (UInt8 → Bool) × List UInt8
  | _, [], bits => (bits, [])
  | first, c1 :: rest, bits =>
    if c1 = 93 ∧ first = false then (bits, c1 :: rest)
    else
      match rest with
      | dash :: c2 :: more =>
        if dash = 45 ∧ c2 ≠ 93 then classLoop cflags false more (addRange cflags bits c1 c2)
        else classLoop cflags false (dash :: c2 :: more) (addByte cflags bits c1)
      | rest => classLoop cflags false rest (addByte cflags bits c1)

section Parser

-- `calloc k` says whether the `k`-th call finds memory.
variable (calloc : Nat → Bool) (cflags : RegFlags)

def newNode (node : RegexNode) (s : ParseState) : Option RegexNode × ParseState :=
  (if calloc s.allocations then some node else none, { s with allocations := s.allocations + 1 })

def newNodeOrSpace (node : RegexNode) (s : ParseState) : Option RegexNode × ParseState :=
  match newNode calloc node s with
  | (some node, s) => (some node, s)
  | (none, s) => (none, { s with error := .eSpace })

def parseClass (s : ParseState) : Option RegexNode × ParseState :=
  let negated := s.rest.head? == some 94
  let inside := if negated then s.rest.tail else s.rest
  let (bits, rest) := classLoop cflags true inside fun _ => false
  match newNodeOrSpace calloc (.cls negated bits) s with
  | (none, s) => (none, s)
  | (some node, s) =>
    match rest with
    | [] => (none, { s with rest := [], error := .eBrack })
    | _ :: rest => (some node, { s with rest := rest })

mutual

def parseAtom : Nat → ParseState → Option RegexNode × ParseState
  | 0, s => (none, s)
  | fuel + 1, s =>
    match s.rest with
    | [] => (none, s)
    | c :: rest =>
      if c = 94 then newNode calloc .bol { s with rest := rest }
      else if c = 36 then newNode calloc .eol { s with rest := rest }
      else if c = 46 then newNode calloc .any { s with rest := rest }
      else if c = 40 then
        let gidx := s.groupCount + 1
        let (sub, s) := parseExpr fuel { s with rest := rest, groupCount := gidx }
        if s.rest.head? = some 41 then
          newNodeOrSpace calloc (.group gidx (sub.getD .null)) { s with rest := s.rest.tail }
        else (none, { s with error := .eParen })
      else if c = 91 then parseClass calloc cflags { s with rest := rest }
      else if c = 92 then
        match rest with
        | [] => (none, { s with rest := [], error := .eEscape })
        | ch :: rest => newNodeOrSpace calloc (.char ch) { s with rest := rest }
      else newNodeOrSpace calloc (.char c) { s with rest := rest }

def parsePiece : Nat → ParseState → Option RegexNode × ParseState
  | 0, s => (none, s)
  | fuel + 1, s =>
    match parseAtom fuel s with
    | (none, s) => (none, s)
    | (some atom, s) =>
      if s.error ≠ .ok then (some atom, s)
      else
        match s.rest with
        | [] => (some atom, s)
        | op :: rest =>
          if op = 42 then newNodeOrSpace calloc (.star atom) { s with rest := rest }
          else if op = 43 then newNodeOrSpace calloc (.plus atom) { s with rest := rest }
          else if op = 63 then newNodeOrSpace calloc (.opt atom) { s with rest := rest }
          else (some atom, s)

/-- `parse_branch`, with the chain built so far. -/
def parseBranch : Nat → Option RegexNode → ParseState → Option RegexNode × ParseState
  | 0, _, s => (none, s)
  | fuel + 1, chain, s =>
    if s.rest = [] ∨ s.rest.head? = some 124 ∨ s.rest.head? = some 41 then
      match chain with
      | some chain => (some chain, s)
      -- "empty matches empty": the node for an empty branch is a character zero
      | none => newNode calloc (.char 0) s
    else
      match parsePiece fuel s with
      | (none, s) => (none, s)
      | (some piece, s) =>
        if s.error ≠ .ok then (none, s)
        else
          match chain with
          | none => parseBranch fuel (some piece) s
          | some chain =>
            match newNodeOrSpace calloc (.cat chain piece) s with
            | (none, s) => (none, s)
            | (some cat, s) => parseBranch fuel (some cat) s

def exprLoop : Nat → RegexNode → ParseState → Option RegexNode × ParseState
  | 0, _, s => (none, s)
  | fuel + 1, branch, s =>
    if s.rest.head? = some 124 then
      match parseBranch fuel none { s with rest := s.rest.tail } with
      | (none, s) => (none, s)
      | (some next, s) =>
        if s.error ≠ .ok then (none, s)
        else
          match newNodeOrSpace calloc (.alt branch next) s with
          | (none, s) => (none, s)
          | (some alt, s) => exprLoop fuel alt s
    else (some branch, s)

def parseExpr : Nat → ParseState → Option RegexNode × ParseState
  | 0, s => (none, s)
  | fuel + 1, s =>
    match parseBranch fuel none s with
    | (none, s) => (none, s)
    | (some branch, s) => if s.error ≠ .ok then (none, s) else exprLoop fuel branch s

end

structure CompiledRegex where
  root : RegexNode
  cflags : RegFlags
  nsub : Nat

def regcomp (fuel : Nat) (regex : Option CString) : RegCode × Option CompiledRegex :=
  match regex with
  | none => (.badPat, none)
  | some regex =>
    match parseExpr calloc cflags fuel ⟨regex.bytes, 0, .ok, 0⟩ with
    | (none, s) => (if s.error = .ok then .badPat else s.error, none)
    | (some root, s) =>
      if s.error ≠ .ok then (s.error, none)
      else if calloc s.allocations then (.ok, some ⟨root, cflags, s.groupCount⟩)
      else (.eSpace, none)

theorem regcomp_cflags {fuel : Nat} {regex : Option CString} {compiled : CompiledRegex}
    (h : regcomp calloc cflags fuel regex = (.ok, some compiled)) : compiled.cflags = cflags := by
  rcases regex with _ | regex
  · simp [regcomp] at h
  simp only [regcomp] at h
  split at h
  · simp at h
  split_ifs at h
  · simp only [Prod.mk.injEq, reduceCtorEq, and_false] at h
  · simp only [Prod.mk.injEq, Option.some.injEq, true_and] at h
    rw [← h]
  · simp only [Prod.mk.injEq, reduceCtorEq, and_false] at h

end Parser

/-! ## The matcher -/

structure RegMatch where
  so : Int
  eo : Int

/-- The loop of a repetition.  Of `matched_ends` only the last entry is ever used: "longest to
shortest" returns from the first round. -/
def repeatMatch {State : Type} (step : Nat → State → Option Nat × State) :
    Nat → Nat → State → Nat × State
  | 0, p, state => (p, state)
  | rounds + 1, p, state =>
    match step p state with
    | (none, state) => (p, state)
    | (some adv, state) => if p < adv then repeatMatch step rounds adv state else (p, state)

/-- The rounds for which `count < 255` lets the loop of a repetition run. -/
def maxRounds : Nat := 254

section Matcher

variable (cflags : RegFlags) (eflags : ExecFlags) (nmatch : Nat) (string : List UInt8)

def fold (c : UInt8) : UInt8 := if cflags.icase then tolower c else c

def matchByte (test : UInt8 → Bool) (cur : Nat) : Option Nat :=
  match string[cur]? with
  | none => none
  | some c => if test c then some (cur + 1) else none

def anyTest (c : UInt8) : Bool := !(c == 10 && cflags.newline)

def matchNode : RegexNode → Nat → (Nat → RegMatch) → Option Nat × (Nat → RegMatch)
  | .null => fun cur pmatch => (some cur, pmatch)
  | .char ch => fun cur pmatch =>
    (matchByte string (fun c => fold cflags c == fold cflags ch) cur, pmatch)
  | .any => fun cur pmatch => (matchByte string (anyTest cflags) cur, pmatch)
  | .cls negated bits => fun cur pmatch =>
    (matchByte string (fun c => bits c != negated) cur, pmatch)
  | .bol => fun cur pmatch =>
    (if cur = 0 then if eflags.notbol then none else some cur
      else if cflags.newline ∧ string[cur - 1]? = some 10 then some cur else none, pmatch)
  | .eol => fun cur pmatch =>
    (if string[cur]? = none then if eflags.noteol then none else some cur
      else if cflags.newline ∧ string[cur]? = some 10 then some cur else none, pmatch)
  | .cat left right => fun cur pmatch =>
    match matchNode left cur pmatch with
    | (none, pmatch) => (none, pmatch)
    | (some mid, pmatch) => matchNode right mid pmatch
  | .alt left right => fun cur pmatch =>
    match matchNode left cur pmatch with
    | (none, pmatch) => matchNode right cur pmatch
    | (some next, pmatch) => (some next, pmatch)
  | .opt left => fun cur pmatch =>
    match matchNode left cur pmatch with
    | (none, pmatch) => (some cur, pmatch)
    | (some next, pmatch) => (some next, pmatch)
  | .star left => fun cur pmatch =>
    let reached := repeatMatch (matchNode left) maxRounds cur pmatch
    (some reached.1, reached.2)
  | .plus left => fun cur pmatch =>
    match matchNode left cur pmatch with
    | (none, pmatch) => (none, pmatch)
    | (some firstEnd, pmatch) =>
      let reached := repeatMatch (matchNode left) maxRounds firstEnd pmatch
      (some reached.1, reached.2)
  | .group index left => fun cur pmatch =>
    match matchNode left cur pmatch with
    | (none, pmatch) => (none, pmatch)
    | (some adv, pmatch) =>
      (some adv, if index < nmatch then Function.update pmatch index ⟨cur, adv⟩ else pmatch)

def RegexNode.isBol : RegexNode → Bool
  | .bol => true
  | _ => false

def regexecLoop (root : RegexNode) :
    Nat → Nat → (Nat → RegMatch) → Option (Nat × Nat) × (Nat → RegMatch)
  | 0, start, pmatch =>
    match matchNode cflags eflags nmatch string root start pmatch with
    | (none, pmatch) => (none, pmatch)
    | (some finish, pmatch) => (some (start, finish), pmatch)
  | left + 1, start, pmatch =>
    match matchNode cflags eflags nmatch string root start pmatch with
    | (some finish, pmatch) => (some (start, finish), pmatch)
    | (none, pmatch) =>
      if root.isBol then regexecLoop root 0 start pmatch
      else regexecLoop root left (start + 1) pmatch

end Matcher

/-- `regexec`; a null `pmatch` goes with an `nmatch` of zero. -/
def regexec (preg : Option CompiledRegex) (string : Option CString) (nmatch : Nat)
    (pmatch : Nat → RegMatch) (eflags : ExecFlags) : RegCode × (Nat → RegMatch) :=
  match preg, string with
  | some compiled, some string =>
    let cleared : Nat → RegMatch := fun i => if i < nmatch then ⟨-1, -1⟩ else pmatch i
    match regexecLoop compiled.cflags eflags nmatch string.bytes compiled.root
        string.bytes.length 0 cleared with
    | (none, pmatch) => (.noMatch, pmatch)
    | (some (start, finish), pmatch) =>
      (.ok, if 0 < nmatch then Function.update pmatch 0 ⟨start, finish⟩ else pmatch)
  | _, _ => (.noMatch, pmatch)

/-! ## The language of a pattern -/

section Language

open Relation List

variable (cflags : RegFlags) (string : List UInt8)

def Consumes (test : UInt8 → Bool) (i j : Nat) : Prop :=
  ∃ c, string[i]? = some c ∧ test c = true ∧ j = i + 1

/-- The substring from `i` to `j` belongs to the language of the tree. -/
def Spans : RegexNode → Nat → Nat → Prop
  | .null => fun i j => j = i
  | .char ch => fun i j =>
    if ch = 0 then j = i
    else Consumes string (fun c => fold cflags c == fold cflags ch) i j
  | .any => Consumes string (anyTest cflags)
  | .cls negated bits => Consumes string fun c => bits c != negated
  | .bol => fun i j => j = i ∧ (i = 0 ∨ cflags.newline = true ∧ string[i - 1]? = some 10)
  | .eol => fun i j => j = i ∧ (string[i]? = none ∨ cflags.newline = true ∧ string[i]? = some 10)
  | .star left => ReflTransGen (Spans left)
  | .plus left => fun i j => ∃ m, Spans left i m ∧ ReflTransGen (Spans left) m j
  | .opt left => fun i j => j = i ∨ Spans left i j
  | .cat left right => fun i j => ∃ m, Spans left i m ∧ Spans right m j
  | .alt left right => fun i j => Spans left i j ∨ Spans right i j
  | .group _ left => Spans left

/-- What is asked of `regexec`: it reports a match exactly when there is one, and the span that it
reports is a match that starts as far left as any. -/
structure Correct (root : RegexNode) (nmatch : Nat) (result : RegCode × (Nat → RegMatch)) :
    Prop where
  reported : result.1 = .ok ↔ ∃ i j, i ≤ j ∧ j ≤ string.length ∧ Spans cflags string root i j
  leftmost : result.1 = .ok → 0 < nmatch → ∃ i j : Nat, result.2 0 = ⟨i, j⟩ ∧
    i ≤ j ∧ j ≤ string.length ∧ Spans cflags string root i j ∧
      ∀ k < i, ∀ j', ¬ Spans cflags string root k j'

/-- More rounds of a repetition lead from here to the rest, which matches from the places `K`. -/
def Rounds (left : RegexNode) (K : Nat → Prop) (p : Nat) : Prop :=
  ∃ j, ReflTransGen (Spans cflags string left) p j ∧ K j

/-- A round leads on: it ends where more rounds do, or else where it started and the rest
matches. -/
def NextRound (left : RegexNode) (K : Nat → Prop) (p m : Nat) : Prop :=
  if m = p then K p else Rounds cflags string left K m

/-- So many rounds that are not empty lead from `i` to `p`. -/
def RoundsMade (left : RegexNode) : Nat → Nat → Nat → Prop
  | 0, i, p => p = i
  | n + 1, i, p => ∃ m, RoundsMade left n i m ∧ m < p ∧ Spans cflags string left m p

/-- No choice of a repetition has to be revised: wherever it gets to, a round is not made if the rest
would match and no round leads on, and the limit on the rounds does not cut it short. -/
def LoopSettled (settled : (Nat → Prop) → (Nat → Prop) → Prop) (left : RegexNode)
    (At K : Nat → Prop) : Prop :=
  (∀ i p, At i → ReflTransGen (Spans cflags string left) i p →
    settled (· = p) (NextRound cflags string left K p) ∧
      (K p → (∃ m, Spans cflags string left p m) →
        ∃ m, Spans cflags string left p m ∧ NextRound cflags string left K p m)) ∧
  ∀ i p, At i → RoundsMade cflags string left maxRounds i p → Rounds cflags string left K p → K p

/-- No choice in the node has to be revised, if it is tried at the places `At` and the rest matches
from the places `K`: where the first choice matches at all and another one leads to the rest, the
first one does, too.  An empty branch, which the matcher never takes, leads nowhere. -/
def Settled : RegexNode → (Nat → Prop) → (Nat → Prop) → Prop
  | .char ch => fun At K => ch = 0 → ∀ i, At i → ¬ K i
  | .null | .any | .cls _ _ | .bol | .eol => fun _ _ => True
  | .cat left right => fun At K =>
    Settled left At (fun m => ∃ j, Spans cflags string right m j ∧ K j) ∧
      Settled right (fun m => ∃ i, At i ∧ Spans cflags string left i m) K
  | .alt left right => fun At K =>
    Settled left At K ∧
      Settled right (fun i => At i ∧ ¬∃ j, Spans cflags string left i j ∧ K j) K ∧
      ∀ i, At i → (∃ j, Spans cflags string left i j) →
        (∃ j, Spans cflags string right i j ∧ K j) → ∃ j, Spans cflags string left i j ∧ K j
  | .opt left => fun At K =>
    Settled left At K ∧ ∀ i, At i → (∃ j, Spans cflags string left i j) → K i →
      ∃ j, Spans cflags string left i j ∧ K j
  | .star left => fun At K => LoopSettled cflags string (Settled left) left At K
  | .plus left => fun At K =>
    Settled left At (Rounds cflags string left K) ∧
      LoopSettled cflags string (Settled left) left
        (fun m => ∃ i, At i ∧ Spans cflags string left i m) K
  | .group _ left => Settled left

/-- The starts that the search gets to: no match starts before them. -/
def Tried (root : RegexNode) (i : Nat) : Prop := ∀ k < i, ∀ j, ¬ Spans cflags string root k j

variable {cflags string}
variable {i j : Nat} {R : Nat → Nat → Prop} {node : RegexNode}

theorem closure_le (hle : ∀ {i j}, R i j → i ≤ j) (h : ReflTransGen R i j) : i ≤ j := by
  induction h with
  | refl => exact le_rfl
  | tail _ hlast ih => exact ih.trans (hle hlast)

/-- The rounds of a repetition that match nothing can be left out. -/
theorem closure_cases (hle : ∀ {i j}, R i j → i ≤ j) (h : ReflTransGen R i j) :
    j = i ∨ ∃ m, i < m ∧ R i m ∧ ReflTransGen R m j := by
  induction h using ReflTransGen.head_induction_on with
  | refl => exact .inl rfl
  | @head i m hfirst hrest ih =>
    rcases Nat.lt_or_eq_of_le (hle hfirst) with hlt | rfl
    · exact .inr ⟨m, hlt, hfirst, hrest⟩
    · exact ih

theorem Consumes.lt (h : Consumes string test i j) : i < j := by
  obtain ⟨c, -, -, rfl⟩ := h
  exact Nat.lt_succ_self i

theorem Spans.le (h : Spans cflags string node i j) : i ≤ j := by
  induction node generalizing i j with
  | null => exact h.ge
  | char ch =>
    rw [Spans] at h
    split_ifs at h
    · exact h.ge
    · exact h.lt.le
  | any | cls negated bits => exact (Consumes.lt h).le
  | bol | eol => exact h.1.ge
  | star left ih => exact closure_le ih h
  | plus left ih =>
    obtain ⟨m, hfirst, hrest⟩ := h
    exact (ih hfirst).trans (closure_le ih hrest)
  | opt left ih =>
    rcases h with rfl | h
    · exact le_rfl
    · exact ih h
  | cat left right ihl ihr =>
    obtain ⟨m, hl, hr⟩ := h
    exact (ihl hl).trans (ihr hr)
  | alt left right ihl ihr =>
    rcases h with h | h
    · exact ihl h
    · exact ihr h
  | group index left ih => exact ih h

theorem Consumes.le_length (h : Consumes string test i j) : j ≤ string.length := by
  obtain ⟨c, hc, -, rfl⟩ := h
  exact (List.getElem?_eq_some_iff.mp hc).choose

theorem closure_le_length {n : Nat} (hR : ∀ {i j}, R i j → i ≤ n → j ≤ n) (h : ReflTransGen R i j)
    (hi : i ≤ n) : j ≤ n := by
  induction h with
  | refl => exact hi
  | tail _ hlast ih => exact hR hlast ih

theorem Spans.le_length (h : Spans cflags string node i j) (hi : i ≤ string.length) :
    j ≤ string.length := by
  induction node generalizing i j with
  | null => exact h ▸ hi
  | char ch =>
    rw [Spans] at h
    split_ifs at h
    · exact h ▸ hi
    · exact h.le_length
  | any | cls negated bits => exact Consumes.le_length h
  | bol | eol => exact h.1 ▸ hi
  | star left ih => exact closure_le_length ih h hi
  | plus left ih =>
    obtain ⟨m, hfirst, hrest⟩ := h
    exact closure_le_length ih hrest (ih hfirst hi)
  | opt left ih =>
    rcases h with rfl | h
    · exact hi
    · exact ih h hi
  | cat left right ihl ihr =>
    obtain ⟨m, hl, hr⟩ := h
    exact ihr hr (ihl hl hi)
  | alt left right ihl ihr =>
    rcases h with h | h
    · exact ihl h hi
    · exact ihr h hi
  | group index left ih => exact ih h hi

end Language

/-! ## What the matcher finds -/

section Search

open Relation

variable {cflags : RegFlags} {nmatch : Nat} {string : List UInt8}

theorem eq_mk_of_fst {α β : Type} {x : α × β} {a : α} (h : x.1 = a) : x = (a, x.2) :=
  Prod.ext h rfl

def noFlags : ExecFlags := ⟨false, false⟩

variable {i j : Nat}

theorem matchByte_eq_some : matchByte string test i = some j ↔ Consumes string test i j := by
  unfold matchByte Consumes
  rcases string[i]? with _ | c
  · simp
  by_cases htest : test c
  · simp only [htest, if_true, Option.some.injEq, exists_eq_left', true_and]
    exact eq_comm
  · simp [htest]

theorem fold_ne_zero {c : UInt8} (hc : c ≠ 0) : fold cflags c ≠ fold cflags 0 := by
  have hlower : tolower c ≠ tolower 0 := by
    unfold tolower
    grind
  unfold fold
  split_ifs
  · exact hlower
  · exact hc

theorem matchNode_bol (i : Nat) (pmatch : Nat → RegMatch) :
    (matchNode cflags noFlags nmatch string .bol i pmatch).1 =
      if i = 0 then some i
      else if cflags.newline ∧ string[i - 1]? = some 10 then some i else none := rfl

theorem matchNode_eol (i : Nat) (pmatch : Nat → RegMatch) :
    (matchNode cflags noFlags nmatch string .eol i pmatch).1 =
      if string[i]? = none then some i
      else if cflags.newline ∧ string[i]? = some 10 then some i else none := rfl

theorem repeatMatch_closure {step : Nat → State → Option Nat × State}
    {R : Nat → Nat → Prop} (hstep : ∀ p state q, (step p state).1 = some q → R p q)
    (rounds p : Nat) (state : State) : ReflTransGen R p (repeatMatch step rounds p state).1 := by
  induction rounds generalizing p state with
  | zero => exact ReflTransGen.refl
  | succ rounds ih =>
    rw [repeatMatch]
    have hfirst := hstep p state
    cases hround : step p state with
    | mk reached state' =>
      rw [hround] at hfirst
      rcases reached with _ | adv
      · exact ReflTransGen.refl
      simp only
      split_ifs
      · exact ReflTransGen.head (hfirst adv rfl) (ih adv state')
      · exact ReflTransGen.refl

variable {node : RegexNode}

/-- What the matcher reports is in the language, whatever the pattern. -/
theorem matchNode_sound (hzero : 0 ∉ string) {pmatch : Nat → RegMatch}
    (h : (matchNode cflags noFlags nmatch string node i pmatch).1 = some j) :
    Spans cflags string node i j := by
  induction node generalizing i j pmatch with
  | null => exact (Option.some.inj h).symm
  | char ch =>
    have hconsumes := matchByte_eq_some.mp h
    rw [Spans]
    split_ifs with hch
    · obtain ⟨c, hc, htest, -⟩ := hconsumes
      subst hch
      have hne : c ≠ 0 := fun hc0 => hzero (hc0 ▸ List.mem_of_getElem? hc)
      exact absurd (by simpa using htest) (fold_ne_zero hne)
    · exact hconsumes
  | any | cls negated bits => exact matchByte_eq_some.mp h
  | bol =>
    rw [matchNode_bol] at h
    split_ifs at h with hi hline
    · exact ⟨(Option.some.inj h).symm, .inl hi⟩
    · exact ⟨(Option.some.inj h).symm, .inr hline⟩
  | eol =>
    rw [matchNode_eol] at h
    split_ifs at h with hi hline
    · exact ⟨(Option.some.inj h).symm, .inl hi⟩
    · exact ⟨(Option.some.inj h).symm, .inr hline⟩
  | star left ih =>
    have hend : (repeatMatch (matchNode cflags noFlags nmatch string left) maxRounds i pmatch).1 =
      j := Option.some.inj h
    have hround : ∀ p state q, (matchNode cflags noFlags nmatch string left p state).1 = some q →
      Spans cflags string left p q := fun _ _ _ => ih
    exact hend ▸ repeatMatch_closure hround maxRounds i pmatch
  | plus left ih =>
    simp only [matchNode] at h
    split at h
    · simp at h
    rename_i firstEnd pmatch' hfirst
    have hend := Option.some.inj h
    have hround : ∀ p state q, (matchNode cflags noFlags nmatch string left p state).1 = some q →
      Spans cflags string left p q := fun _ _ _ => ih
    exact ⟨firstEnd, ih (by rw [hfirst]),
      hend ▸ repeatMatch_closure hround maxRounds firstEnd pmatch'⟩
  | opt left ih =>
    simp only [matchNode] at h
    split at h
    · exact .inl (Option.some.inj h).symm
    · rename_i next pmatch' hleft
      exact .inr (ih (by rw [hleft]; exact h))
  | cat left right ihl ihr =>
    simp only [matchNode] at h
    split at h
    · simp at h
    · rename_i mid pmatch' hleft
      exact ⟨mid, ihl (by rw [hleft]), ihr h⟩
  | alt left right ihl ihr =>
    simp only [matchNode] at h
    split at h
    · exact .inr (ihr h)
    · rename_i next pmatch' hleft
      exact .inl (ihl (by rw [hleft]; exact h))
  | group index left ih =>
    simp only [matchNode] at h
    split at h
    · simp at h
    · rename_i adv pmatch' hleft
      exact ih (by rw [hleft]; exact h)

variable {At K : Nat → Prop}

section Repetition

variable {left : RegexNode}

theorem Rounds.done_or_more (h : Rounds cflags string left K p) :
    K p ∨ ∃ m, p < m ∧ Spans cflags string left p m ∧ Rounds cflags string left K m := by
  obtain ⟨j, hrun, hK⟩ := h
  rcases closure_cases Spans.le hrun with rfl | ⟨m, hlt, hfirst, hrest⟩
  · exact .inl hK
  · exact .inr ⟨m, hlt, hfirst, j, hrest, hK⟩

theorem RoundsMade.closure {n : Nat} (h : RoundsMade cflags string left n i p) :
    ReflTransGen (Spans cflags string left) i p := by
  induction n generalizing p with
  | zero => exact h ▸ ReflTransGen.refl
  | succ n ih =>
    obtain ⟨m, hmade, -, hlast⟩ := h
    exact (ih hmade).tail hlast

/-- The loop stops where the rest can match.  Its rounds so far are `made`; each leads on, and when
none does any more the rest matches. -/
theorem repeatMatch_complete (hzero : 0 ∉ string)
    (hset : LoopSettled cflags string (Settled cflags string left) left At K)
    (hbody : ∀ {At K : Nat → Prop} {p : Nat}, Settled cflags string left At K → At p →
      (∃ m, Spans cflags string left p m ∧ K m) → ∀ pmatch,
      ∃ q, (matchNode cflags noFlags nmatch string left p pmatch).1 = some q ∧ K q)
    (hi : At i) {made rounds : Nat} (hmade : RoundsMade cflags string left made i p)
    (hrounds : made + rounds = maxRounds) (hp : Rounds cflags string left K p)
    (pmatch : Nat → RegMatch) :
    K (repeatMatch (matchNode cflags noFlags nmatch string left) rounds p pmatch).1 := by
  induction rounds generalizing p made pmatch with
  | zero =>
    obtain rfl : made = maxRounds := hrounds
    exact hset.2 i p hi hmade hp
  | succ rounds ih =>
    obtain ⟨hsettled, hchoice⟩ := hset.1 i p hi hmade.closure
    rw [repeatMatch]
    by_cases hnext : ∃ m, Spans cflags string left p m ∧ NextRound cflags string left K p m
    · obtain ⟨q, hq, hleads⟩ := hbody hsettled rfl hnext pmatch
      have hround : Spans cflags string left p q := matchNode_sound hzero hq
      rw [eq_mk_of_fst hq]
      rcases Nat.lt_or_eq_of_le hround.le with hlt | rfl
      · rw [NextRound, if_neg hlt.ne'] at hleads
        simp only [if_pos hlt]
        have hmore : RoundsMade cflags string left (made + 1) i q := ⟨p, hmade, hlt, hround⟩
        exact ih hmore (by omega) hleads _
      · rw [NextRound, if_pos rfl] at hleads
        simpa only [lt_irrefl, if_false] using hleads
    · have hK : K p := by
        rcases hp.done_or_more with hK | ⟨m, hlt, hround, hmore⟩
        · exact hK
        · exact absurd ⟨m, hround, by rwa [NextRound, if_neg hlt.ne']⟩ hnext
      -- no round can be made here at all
      cases hstep : (matchNode cflags noFlags nmatch string left p pmatch).1 with
      | none =>
        rw [eq_mk_of_fst hstep]
        exact hK
      | some q => exact absurd (hchoice hK ⟨q, matchNode_sound hzero hstep⟩) hnext

end Repetition

/-- Where no choice has to be revised, a match that leads to the rest is found. -/
theorem matchNode_complete (hzero : 0 ∉ string) (hset : Settled cflags string node At K)
    (hi : At i) (hmatch : ∃ j, Spans cflags string node i j ∧ K j) (pmatch : Nat → RegMatch) :
    ∃ j, (matchNode cflags noFlags nmatch string node i pmatch).1 = some j ∧ K j := by
  induction node generalizing At K i pmatch with
  | null =>
    obtain ⟨j, rfl, hj⟩ := hmatch
    exact ⟨_, rfl, hj⟩
  | char ch =>
    obtain ⟨j, hspan, hj⟩ := hmatch
    rw [Spans] at hspan
    split_ifs at hspan with hch
    · exact absurd (hspan ▸ hj) (hset hch i hi)
    · exact ⟨j, matchByte_eq_some.mpr hspan, hj⟩
  | any | cls negated bits =>
    obtain ⟨j, hspan, hj⟩ := hmatch
    exact ⟨j, matchByte_eq_some.mpr hspan, hj⟩
  | bol =>
    obtain ⟨j, ⟨rfl, hline⟩, hj⟩ := hmatch
    rw [matchNode_bol]
    by_cases hi : j = 0
    · exact ⟨j, if_pos hi, hj⟩
    · rw [if_neg hi, if_pos (hline.resolve_left hi)]
      exact ⟨j, rfl, hj⟩
  | eol =>
    obtain ⟨j, ⟨rfl, hline⟩, hj⟩ := hmatch
    rw [matchNode_eol]
    by_cases hi : string[j]? = none
    · exact ⟨j, if_pos hi, hj⟩
    · rw [if_neg hi, if_pos (hline.resolve_left hi)]
      exact ⟨j, rfl, hj⟩
  | cat left right ihl ihr =>
    obtain ⟨hl, hr⟩ := hset
    obtain ⟨j, ⟨m, hleft, hright⟩, hj⟩ := hmatch
    obtain ⟨mid, hmid, hrest⟩ := ihl hl hi ⟨m, hleft, j, hright, hj⟩ pmatch
    simp only [matchNode]
    rw [eq_mk_of_fst hmid]
    exact ihr hr ⟨i, hi, matchNode_sound hzero hmid⟩ hrest _
  | alt left right ihl ihr =>
    obtain ⟨hl, hr, hchoice⟩ := hset
    obtain ⟨j, hspan, hj⟩ := hmatch
    simp only [matchNode]
    by_cases hleads : ∃ j, Spans cflags string left i j ∧ K j
    · obtain ⟨e, he, hKe⟩ := ihl hl hi hleads pmatch
      rw [eq_mk_of_fst he]
      exact ⟨e, rfl, hKe⟩
    have hright : ∃ j, Spans cflags string right i j ∧ K j :=
      ⟨j, hspan.resolve_left fun hleft => hleads ⟨j, hleft, hj⟩, hj⟩
    -- the left branch does not match at all, or the choice would be wrong
    cases hleft : (matchNode cflags noFlags nmatch string left i pmatch).1 with
    | none =>
      rw [eq_mk_of_fst hleft]
      exact ihr hr ⟨hi, hleads⟩ hright _
    | some next =>
      exact absurd (hchoice i hi ⟨next, matchNode_sound hzero hleft⟩ hright) hleads
  | opt left ih =>
    obtain ⟨hl, hchoice⟩ := hset
    obtain ⟨j, hspan, hj⟩ := hmatch
    simp only [matchNode]
    by_cases hleads : ∃ j, Spans cflags string left i j ∧ K j
    · obtain ⟨e, he, hKe⟩ := ih hl hi hleads pmatch
      rw [eq_mk_of_fst he]
      exact ⟨e, rfl, hKe⟩
    have hhere : K i := by
      rcases hspan with rfl | hleft
      · exact hj
      · exact absurd ⟨j, hleft, hj⟩ hleads
    cases hleft : (matchNode cflags noFlags nmatch string left i pmatch).1 with
    | none =>
      rw [eq_mk_of_fst hleft]
      exact ⟨i, rfl, hhere⟩
    | some next =>
      exact absurd (hchoice i hi ⟨next, matchNode_sound hzero hleft⟩ hhere) hleads
  | star left ih =>
    have hmade : RoundsMade cflags string left 0 i i := rfl
    exact ⟨_, rfl, repeatMatch_complete hzero hset ih hi hmade (Nat.zero_add _) hmatch pmatch⟩
  | plus left ih =>
    obtain ⟨hl, hloop⟩ := hset
    obtain ⟨j, ⟨m, hfirst, hrest⟩, hj⟩ := hmatch
    obtain ⟨e, he, hnext⟩ := ih hl hi ⟨m, hfirst, j, hrest, hj⟩ pmatch
    simp only [matchNode]
    rw [eq_mk_of_fst he]
    have hmade : RoundsMade cflags string left 0 e e := rfl
    exact ⟨_, rfl, repeatMatch_complete hzero hloop ih ⟨i, hi, matchNode_sound hzero he⟩ hmade
      (Nat.zero_add _) hnext _⟩
  | group index left ih =>
    obtain ⟨e, he, hKe⟩ := ih hset hi hmatch pmatch
    simp only [matchNode]
    rw [eq_mk_of_fst he]
    exact ⟨e, rfl, hKe⟩

/-- The search stops at the first place where the pattern matches, if its matcher misses none. -/
theorem regexecLoop_spec (hzero : 0 ∉ string) {root : RegexNode}
    (hfound : ∀ i pmatch, Tried cflags string root i → (∃ j, Spans cflags string root i j) →
      ∃ j, (matchNode cflags noFlags nmatch string root i pmatch).1 = some j)
    {left start : Nat} (hlength : start + left = string.length)
    (hnone : Tried cflags string root start) (pmatch : Nat → RegMatch) :
    match (regexecLoop cflags noFlags nmatch string root left start pmatch).1 with
    | none => ∀ i ≤ string.length, ∀ j, ¬ Spans cflags string root i j
    | some (i, j) => i ≤ string.length ∧ Spans cflags string root i j ∧
        Tried cflags string root i := by
  have hmiss : ∀ i pmatch, Tried cflags string root i →
      (matchNode cflags noFlags nmatch string root i pmatch).1 = none →
      ∀ j, ¬ Spans cflags string root i j := by
    intro i pmatch hi hmiss j hspan
    obtain ⟨e, he⟩ := hfound i pmatch hi ⟨j, hspan⟩
    rw [hmiss] at he
    cases he
  induction left generalizing start pmatch with
  | zero =>
    rw [regexecLoop]
    cases hmatch : (matchNode cflags noFlags nmatch string root start pmatch).1 with
    | none =>
      rw [eq_mk_of_fst hmatch]
      intro i hi j
      rcases Nat.lt_or_eq_of_le (show i ≤ start by omega) with hlt | rfl
      · exact hnone i hlt j
      · exact hmiss _ _ hnone hmatch j
    | some finish =>
      rw [eq_mk_of_fst hmatch]
      exact ⟨by omega, matchNode_sound hzero hmatch, hnone⟩
  | succ left ih =>
    rw [regexecLoop]
    cases hmatch : (matchNode cflags noFlags nmatch string root start pmatch).1 with
    | none =>
      have hnext : Tried cflags string root (start + 1) := by
        intro i hi j
        rcases Nat.lt_or_eq_of_le (Nat.le_of_lt_succ hi) with hlt | rfl
        · exact hnone i hlt j
        · exact hmiss _ _ hnone hmatch j
      have hbol : root.isBol = false := by
        cases root with
        | bol => exact absurd ⟨rfl, .inl rfl⟩ (hnext 0 (Nat.succ_pos start) 0)
        | _ => rfl
      rw [eq_mk_of_fst hmatch]
      simp only [hbol, Bool.false_eq_true, if_false]
      exact ih (by omega) hnext _
    | some finish =>
      rw [eq_mk_of_fst hmatch]
      exact ⟨by omega, matchNode_sound hzero hmatch, hnone⟩

def starThenOther : RegexNode := .cat (.cat (.char 97) (.star (.char 98))) (.char 99)

def repeated : CString := ⟨[120, 97, 98, 98, 99], by decide, by decide⟩

theorem RoundsMade.bounds {left : RegexNode} {n : Nat}
    (h : RoundsMade cflags string left (n + 1) i p) (hleft : ∀ {i j},
      Spans cflags string left i j → j ≤ string.length) : i + n < p ∧ p ≤ string.length := by
  induction n generalizing p with
  | zero =>
    obtain ⟨m, rfl, hlt, hround⟩ := h
    exact ⟨hlt, hleft hround⟩
  | succ n ih =>
    obtain ⟨m, hmade, hlt, hround⟩ := h
    have hbefore := (ih hmade).1
    exact ⟨by omega, hleft hround⟩

def starThenSame : RegexNode := .cat (.star (.char 97)) (.char 97)

theorem regexecLoop_sound (hzero : 0 ∉ string) {root : RegexNode} {left start : Nat}
    {pmatch : Nat → RegMatch} (hstart : start + left ≤ string.length)
    (h : (regexecLoop cflags noFlags nmatch string root left start pmatch).1 = some (i, j)) :
    i ≤ string.length ∧ Spans cflags string root i j := by
  -- Only a start at which the tree matches ends the search with a span.
  fun_induction regexecLoop with
  | case1 => cases h
  | case2 _ _ _ _ hmatch | case3 _ _ _ _ _ hmatch =>
    cases h
    exact ⟨by omega, matchNode_sound hzero (congrArg Prod.fst hmatch)⟩
  | case4 _ _ _ _ _ _ ih | case5 _ _ _ _ _ _ ih => exact ih (by omega) h

/-- Whatever the pattern, what is reported as a match is one. -/
theorem regexec_sound (compiled : CompiledRegex) (subject : CString) (nmatch : Nat)
    (pmatch : Nat → RegMatch) :
    let found := regexec (some compiled) (some subject) (nmatch + 1) pmatch noFlags
    found.1 = .noMatch ∨ ∃ i j : Nat, found.2 0 = ⟨i, j⟩ ∧ i ≤ j ∧ j ≤ subject.bytes.length ∧
      Spans compiled.cflags subject.bytes compiled.root i j := by
  simp only [regexec]
  split
  · exact .inl rfl
  · rename_i i j _ hloop
    obtain ⟨hi, hspan⟩ := regexecLoop_sound subject.noZero (Nat.zero_add _).le
      (congrArg Prod.fst hloop)
    exact .inr ⟨i, j, by simp, hspan.le, hspan.le_length hi, hspan⟩

end Search

end XsCore.Libc
