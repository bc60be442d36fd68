import XsCore.Foundation.Machine
import XsCore.Libc.Heap

/-! # Positions of a stream

`fgetc`, `fread`, `ungetc`, `ungetwc`, `fseek` and `ftell` of `userspace/libc/src/stdio.c` on one
open stream over a regular file.  The position is split between the offset in the kernel and a Nat
buffer of pushed-back bytes with a flag of its own.  `LogicalStream` has the single position that
they stand for.
-/

namespace XsCore.Libc

open Machine

variable {n : Nat} {bytes : List UInt8}

open List

structure RegularFile where
  bytes : List UInt8
  fits : bytes.length < 2 ^ 63

/-- `struct __akaos_FILE`, with the offset that the kernel keeps for its descriptor. -/
structure Stream where
  file : RegularFile
  offset : Nat
  pushbackBytes : Nat → UInt8
  pushbackLength : Nat
  pushbackOffset : Nat
  eof : Bool
  error : Bool
  pushback : Bool
  wideOrientation : Bool

def Stream.opened (file : RegularFile) : Stream :=
  ⟨file, 0, fun _ => 0, 0, 0, false, false, false, false⟩

inductive Whence where
  | set
  | cur
  | fromEnd
  | other
  deriving DecidableEq

/-- The calls on a stream.  `ungetc` takes an `int`; `ungetwc` takes a wide character in a locale
with multibyte characters or without. -/
inductive StreamCall where
  | fgetc
  | fread (size count : Nat)
  | ungetc (character : Int)
  | ungetwc (multibyte : Bool) (character : Nat)
  | fseek (offset : Int) (whence : Whence)
  | ftell

/-- What the calls return; `none` is `EOF` or `WEOF`. -/
inductive StreamReply where
  | character (c : Option UInt8)
  | wide (c : Option Nat)
  | items (bytes : List UInt8) (count : Nat)
  | status (value : Int)
  | position (value : Int)
  deriving DecidableEq

/-! ## The code -/

def syscallMaxIo : Nat := 32768

/-- What `read` returns at an offset; the offset moves on by its length. -/
def RegularFile.read (file : RegularFile) (offset count : Nat) : List UInt8 :=
  (file.bytes.drop offset).take count

def Stream.seekBase (s : Stream) : Whence → Option Nat
  | .set => some 0
  | .cur => some (if 2 ^ 63 - 1 < s.offset then 2 ^ 63 - 1 else s.offset)
  | .fromEnd => some (if 2 ^ 63 - 1 < s.file.bytes.length then 2 ^ 63 - 1 else s.file.bytes.length)
  | .other => none

def Stream.lseek (s : Stream) (offset : Int) (whence : Whence) : Option Nat :=
  match s.seekBase whence with
  | none => none
  | some base =>
    if 2 ^ 63 - 1 < base + offset ∨ base + offset < 0 then none else some (base + offset).toNat

/-- `n` pushed-back bytes are read; after the last one the buffer is empty again. -/
def Stream.usePushback (s : Stream) (n : Nat) : Stream :=
  if s.pushbackLength ≤ s.pushbackOffset + n then
    { s with pushbackLength := 0, pushbackOffset := 0, pushback := false }
  else { s with pushbackOffset := s.pushbackOffset + n }

def Stream.fgetc (s : Stream) : Stream × Option UInt8 :=
  if s.pushbackOffset < s.pushbackLength then
    (s.usePushback 1, some (s.pushbackBytes s.pushbackOffset))
  else
    match s.file.read s.offset 1 with
    | character :: _ => ({ s with offset := s.offset + 1 }, some character)
    | [] => ({ s with eof := true }, none)

/-- The loop of `fread_unlocked`: the bytes it reads, and whether it met the end of the file. -/
def RegularFile.readLoop (file : RegularFile) : Nat → Nat → Nat → List UInt8 × Bool
  | 0, _, _ => ([], false)
  | fuel + 1, offset, left =>
    if left = 0 then ([], false)
    else
      let bytes := file.read offset (min left syscallMaxIo)
      if bytes = [] then ([], true)
      else
        let (rest, eof) := file.readLoop fuel (offset + bytes.length) (left - bytes.length)
        (bytes ++ rest, eof)

/-- `fread_unlocked`: the bytes it stores and the number of items it returns. -/
def Stream.fread (s : Stream) (size count : Nat) : Stream × List UInt8 × Nat :=
  if size = 0 ∨ count = 0 then (s, [], 0)
  else if sizeMax / size < count then ({ s with error := true }, [], 0)
  else
    let wanted := size * count
    let (taken, s) : List UInt8 × Stream :=
      if s.pushbackOffset < s.pushbackLength then
        let pending := min (s.pushbackLength - s.pushbackOffset) wanted
        ((range' s.pushbackOffset pending).map s.pushbackBytes, s.usePushback pending)
      else ([], s)
    let left := wanted - taken.length
    let (bytes, eof) := s.file.readLoop left s.offset left
    ({ s with offset := s.offset + bytes.length, eof := s.eof || eof }, taken ++ bytes,
      (taken ++ bytes).length / size)

def Stream.ungetc (s : Stream) (character : Int) : Stream × Option UInt8 :=
  if character = -1 ∨ s.pushbackOffset < s.pushbackLength then (s, none)
  else
    let byte := UInt8.ofNat (character % 256).toNat
    ({ s with
      pushbackBytes := Function.update s.pushbackBytes 0 byte
      pushbackLength := 1
      pushbackOffset := 0
      pushback := true
      eof := false }, some byte)

def wcrtomb (multibyte : Bool) (codepoint : Nat) : Option (List UInt8) :=
  if multibyte = false ∧ 0x7f < codepoint then none
  else if 0x10ffff < codepoint ∨ 0xd800 ≤ codepoint ∧ codepoint ≤ 0xdfff then none
  else if codepoint < 0x80 then some [UInt8.ofNat codepoint]
  else if codepoint < 0x800 then
    some [UInt8.ofNat (0xc0 + codepoint / 64), UInt8.ofNat (0x80 + codepoint % 64)]
  else if codepoint < 0x10000 then
    some [UInt8.ofNat (0xe0 + codepoint / 4096), UInt8.ofNat (0x80 + codepoint / 64 % 64),
      UInt8.ofNat (0x80 + codepoint % 64)]
  else
    some [UInt8.ofNat (0xf0 + codepoint / 262144), UInt8.ofNat (0x80 + codepoint / 4096 % 64),
      UInt8.ofNat (0x80 + codepoint / 64 % 64), UInt8.ofNat (0x80 + codepoint % 64)]

def weof : Nat := 2 ^ 32 - 1

def Stream.ungetwc (s : Stream) (multibyte : Bool) (character : Nat) : Stream × Option Nat :=
  if character = weof ∨ s.pushbackOffset < s.pushbackLength then (s, none)
  else
    match wcrtomb multibyte character with
    | none => ({ s with error := true }, none)
    | some encoded =>
      ({ s with
        pushbackBytes := fun i => encoded.getD i (s.pushbackBytes i)
        pushbackLength := encoded.length
        pushbackOffset := 0
        pushback := true
        eof := false
        wideOrientation := true }, some character)

def Stream.fseek (s : Stream) (offset : Int) (whence : Whence) : Stream × Int :=
  if whence = .other then ({ s with error := true }, -1)
  else
    match s.lseek offset whence with
    | none => ({ s with error := true }, -1)
    | some next => ({ s with offset := next, eof := false, pushback := false }, 0)

def Stream.ftell (s : Stream) : Stream × Int :=
  match s.lseek 0 .cur with
  | none => ({ s with error := true }, -1)
  | some position =>
    ({ s with offset := position }, if s.pushback then (position : Int) - 1 else position)

def Stream.step (s : Stream) : StreamCall → Stream × StreamReply
  | .fgetc => (s.fgetc.1, .character s.fgetc.2)
  | .fread size count =>
    let (next, bytes, items) := s.fread size count
    (next, .items bytes items)
  | .ungetc c => ((s.ungetc c).1, .character (s.ungetc c).2)
  | .ungetwc multibyte c => ((s.ungetwc multibyte c).1, .wide (s.ungetwc multibyte c).2)
  | .fseek offset whence => ((s.fseek offset whence).1, .status (s.fseek offset whence).2)
  | .ftell => (s.ftell.1, .position s.ftell.2)

/-! ## The logical position -/

/-- One position over the file, with pushed-back bytes in front: the byte at `position` is the first
of them, or the file's own. -/
structure LogicalStream where
  file : RegularFile
  position : Int
  pushed : List UInt8

namespace LogicalStream

def opened (file : RegularFile) : LogicalStream := ⟨file, 0, []⟩

def ahead (l : LogicalStream) : List UInt8 :=
  l.pushed ++ l.file.bytes.drop (l.position + l.pushed.length).toNat

def advance (l : LogicalStream) (n : Nat) : LogicalStream :=
  { l with position := l.position + n, pushed := l.pushed.drop n }

def push (l : LogicalStream) (bytes : List UInt8) : LogicalStream :=
  { l with position := l.position - bytes.length, pushed := bytes ++ l.pushed }

def base (l : LogicalStream) : Whence → Option Int
  | .set => some 0
  | .cur => some l.position
  | .fromEnd => some l.file.bytes.length
  | .other => none

/-- Pushing back is refused while pushed-back bytes are pending; a seek drops them. -/
def step (l : LogicalStream) : StreamCall → LogicalStream × StreamReply
  | .fgetc => (l.advance (l.ahead.take 1).length, .character l.ahead.head?)
  | .fread size count =>
    if size = 0 ∨ sizeMax < size * count then (l, .items [] 0)
    else
      let bytes := l.ahead.take (size * count)
      (l.advance bytes.length, .items bytes (bytes.length / size))
  | .ungetc c =>
    if c = -1 ∨ l.pushed ≠ [] then (l, .character none)
    else
      let byte := UInt8.ofNat (c % 256).toNat
      (l.push [byte], .character (some byte))
  | .ungetwc multibyte c =>
    match wcrtomb multibyte c with
    | none => (l, .wide none)
    | some bytes => if l.pushed ≠ [] then (l, .wide none) else (l.push bytes, .wide (some c))
  | .fseek offset whence =>
    match l.base whence with
    | none => (l, .status (-1))
    | some base =>
      if 0 ≤ base + offset ∧ base + offset < 2 ^ 63 then
        ({ l with position := base + offset, pushed := [] }, .status 0)
      else (l, .status (-1))
  | .ftell => (l, .position l.position)

end LogicalStream

/-! ## Refinement -/

def Stream.pending (s : Stream) : List UInt8 :=
  (range' s.pushbackOffset (s.pushbackLength - s.pushbackOffset)).map s.pushbackBytes

/-- The kernel's offset is ahead of the logical position by the pending bytes. -/
structure Stream.Refines (s : Stream) (l : LogicalStream) : Prop where
  file : s.file = l.file
  pushed : s.pending = l.pushed
  position : l.position + l.pushed.length = s.offset
  flag : s.pushback = true ↔ s.pending ≠ []
  small : s.offset < 2 ^ 63

def Stream.Fits (s : Stream) : StreamCall → Prop
  | .fseek _ _ => s.pending = []
  | .ftell => s.pending.length ≤ 1
  | _ => True

section Refinement

variable {s : Stream} {l : LogicalStream}

theorem Stream.length_pending (s : Stream) :
    s.pending.length = s.pushbackLength - s.pushbackOffset := by
  rw [pending, length_map, length_range']

theorem Stream.pending_eq_nil_iff (s : Stream) :
    s.pending = [] ↔ ¬s.pushbackOffset < s.pushbackLength := by
  rw [← length_eq_zero_iff, s.length_pending]
  omega

theorem Stream.usePushback_pending (s : Stream) (n : Nat) :
    (s.usePushback n).pending = s.pending.drop n := by
  unfold usePushback
  split
  · rename_i hdone
    rw [drop_eq_nil_of_le (by rw [s.length_pending]; omega)]
    rfl
  · unfold pending
    rw [← map_drop, drop_range', Nat.mul_one, Nat.sub_add_eq]

theorem Stream.pending_take (s : Stream) (h : n ≤ s.pushbackLength - s.pushbackOffset) :
    (range' s.pushbackOffset n).map s.pushbackBytes = s.pending.take n := by
  have hsplit : s.pending = (range' s.pushbackOffset n).map s.pushbackBytes ++
      (range' (s.pushbackOffset + 1 * n)
        (s.pushbackLength - s.pushbackOffset - n)).map s.pushbackBytes := by
    rw [pending, ← map_append, range'_append, Nat.add_sub_cancel' h]
  rw [hsplit, take_left' (by rw [length_map, length_range'])]

theorem Stream.usePushback_flag (s : Stream) (n : Nat) (h : s.pushback) :
    (s.usePushback n).pushback ↔ (s.usePushback n).pending ≠ [] := by
  rw [ne_eq, pending_eq_nil_iff]
  unfold usePushback
  split
  · simp
  rename_i hmore
  simp only [h, true_iff, not_not]
  omega

theorem Stream.usePushback_other (s : Stream) (n : Nat) :
    (s.usePushback n).file = s.file ∧ (s.usePushback n).offset = s.offset := by
  unfold usePushback
  split <;> exact ⟨rfl, rfl⟩

theorem Stream.Refines.take_pending (h : s.Refines l) (hn : n ≤ s.pending.length)
    (hpending : s.pending ≠ []) : (s.usePushback n).Refines (l.advance n) := by
  have hother := s.usePushback_other n
  constructor
  · rw [hother.1]
    exact h.file
  · rw [usePushback_pending, h.pushed]
    rfl
  · have hposition := h.position
    rw [h.pushed] at hn
    rw [hother.2, LogicalStream.advance, length_drop]
    dsimp only
    omega
  · exact usePushback_flag s n (h.flag.mpr hpending)
  · rw [hother.2]
    exact h.small

theorem Stream.Refines.take_file (h : s.Refines l) (hpending : s.pending = []) {e : Bool}
    (hn : n ≤ (s.file.bytes.drop s.offset).length) :
    ({ s with offset := s.offset + n, eof := e } : Stream).Refines (l.advance n) := by
  have hpushed : l.pushed = [] := h.pushed.symm.trans hpending
  have hposition := h.position
  have hsmall := h.small
  have hfits := s.file.fits
  rw [length_drop] at hn
  constructor
  · exact h.file
  · change s.pending = l.pushed.drop n
    rw [hpushed, hpending, drop_nil]
  · rw [LogicalStream.advance, hpushed, drop_nil]
    rw [hpushed] at hposition
    dsimp only [length_nil] at hposition ⊢
    omega
  · exact h.flag
  · dsimp only
    omega

theorem Stream.Refines.ahead (h : s.Refines l) :
    l.ahead = s.pending ++ s.file.bytes.drop s.offset := by
  rw [LogicalStream.ahead, h.position, h.pushed, h.file, Int.toNat_natCast]

theorem RegularFile.readLoop_eq (file : RegularFile) {fuel left : Nat} (hfuel : left ≤ fuel)
    (offset : Nat) : (file.readLoop fuel offset left).1 = file.read offset left := by
  induction fuel generalizing left offset with
  | zero =>
    rw [Nat.le_zero.mp hfuel]
    rfl
  | succ fuel ih =>
    rw [readLoop]
    split
    · rename_i hzero
      rw [hzero]
      rfl
    rename_i hleft
    have hchunk : 0 < min left syscallMaxIo := Nat.lt_min.mpr ⟨by omega, by decide⟩
    dsimp only
    split
    · rename_i hempty
      rw [read, take_eq_nil_iff] at hempty
      rw [read, hempty.resolve_left (by omega), take_nil]
    rename_i hsome
    have hpos := length_pos_iff.mpr hsome
    rw [ih (by omega)]
    -- the chunk is a prefix, and the loop goes on behind it
    have hle : (file.read offset (min left syscallMaxIo)).length ≤ left :=
      (length_take_le _ _).trans (min_le_left _ _)
    have hself : file.read offset (min left syscallMaxIo) =
        (file.bytes.drop offset).take (file.read offset (min left syscallMaxIo)).length := by
      rw [read, length_take, take_eq_take_min]
    generalize (file.read offset (min left syscallMaxIo)).length = n at *
    rw [hself, read, read, ← drop_drop, ← take_add, Nat.add_sub_cancel' hle]

def Answers (out : Stream × StreamReply) (out' : LogicalStream × StreamReply) : Prop :=
  out.2 = out'.2 ∧ out.1.Refines out'.1

theorem Stream.Refines.fgetc (h : s.Refines l) : Answers (s.step .fgetc) (l.step .fgetc) := by
  have hahead := h.ahead
  rw [Stream.step, LogicalStream.step, hahead, Stream.fgetc]
  by_cases hpending : s.pushbackOffset < s.pushbackLength
  · have hne : s.pending ≠ [] := fun hnil => s.pending_eq_nil_iff.mp hnil hpending
    have hcons : s.pending = s.pushbackBytes s.pushbackOffset :: s.pending.tail := by
      have hlength : s.pushbackLength - s.pushbackOffset =
          s.pushbackLength - s.pushbackOffset - 1 + 1 := by omega
      rw [Stream.pending, hlength, range'_succ, map_cons, tail_cons]
    rw [if_pos hpending]
    constructor
    · rw [hcons]
      rfl
    · have hone : ((s.pending ++ s.file.bytes.drop s.offset).take 1).length = 1 := by
        rw [hcons]
        rfl
      rw [hone]
      exact h.take_pending (length_pos_iff.mpr hne) hne
  · have hnil := s.pending_eq_nil_iff.mpr hpending
    rw [if_neg hpending, hnil, nil_append]
    unfold RegularFile.read
    rcases hrest : s.file.bytes.drop s.offset with _ | ⟨c, rest⟩
    · constructor
      · rfl
      · exact h.take_file hnil (n := 0) (Nat.zero_le _)
    constructor
    · rfl
    · refine h.take_file hnil (n := 1) ?_
      rw [hrest, length_cons]
      omega

theorem LogicalStream.advance_add (l : LogicalStream) (m n : Nat) :
    l.advance (m + n) = (l.advance m).advance n := by
  unfold LogicalStream.advance
  rw [drop_drop]
  congr 1
  dsimp only
  omega

theorem LogicalStream.advance_zero (l : LogicalStream) : l.advance 0 = l := by
  unfold LogicalStream.advance
  rw [drop_zero]
  congr 1
  omega

section

variable (h : s.Refines l)
include h

theorem Stream.Refines.fread_pending (wanted : Nat) :
    let out : List UInt8 × Stream := if s.pushbackOffset < s.pushbackLength then
        ((range' s.pushbackOffset (min (s.pushbackLength - s.pushbackOffset) wanted)).map
          s.pushbackBytes, s.usePushback (min (s.pushbackLength - s.pushbackOffset) wanted))
      else ([], s)
    out.1 = s.pending.take wanted ∧ out.2.Refines (l.advance out.1.length) ∧
      out.2.file = s.file ∧ out.2.offset = s.offset ∧
      (out.1.length < wanted → out.2.pending = []) := by
  have hlength := s.length_pending
  dsimp only
  split
  · rename_i hpending
    have hne : s.pending ≠ [] := fun hnil => s.pending_eq_nil_iff.mp hnil hpending
    have htaken : (range' s.pushbackOffset (min (s.pushbackLength - s.pushbackOffset)
        wanted)).map s.pushbackBytes = s.pending.take wanted := by
      rw [s.pending_take (min_le_left _ _), ← hlength, min_comm, ← take_eq_take_min]
    have hcount : (s.pending.take wanted).length =
        min (s.pushbackLength - s.pushbackOffset) wanted := by
      rw [length_take, hlength, min_comm]
    have hother := s.usePushback_other (min (s.pushbackLength - s.pushbackOffset) wanted)
    rw [htaken]
    refine ⟨rfl, ?_, hother.1, hother.2, ?_⟩
    · rw [hcount]
      exact h.take_pending (by rw [hlength]; exact min_le_left _ _) hne
    · intro hshort
      rw [hcount] at hshort
      rw [usePushback_pending, drop_eq_nil_of_le (by rw [hlength]; omega)]
  · rename_i hpending
    have hnil := s.pending_eq_nil_iff.mpr hpending
    rw [hnil, take_nil, length_nil, l.advance_zero]
    exact ⟨rfl, h, rfl, rfl, fun _ => rfl⟩

theorem Stream.Refines.fread (size count : Nat) :
    Answers (s.step (.fread size count)) (l.step (.fread size count)) := by
  have hahead := h.ahead
  rw [Stream.step, LogicalStream.step, Stream.fread]
  by_cases hzero : size = 0 ∨ count = 0
  · rw [if_pos hzero]
    by_cases hsize : size = 0
    · rw [if_pos (.inl hsize)]
      exact ⟨rfl, h⟩
    have hcount : count = 0 := hzero.resolve_left hsize
    rw [hcount, mul_zero, if_neg (by omega), take_zero]
    refine ⟨by simp, ?_⟩
    change s.Refines (l.advance 0)
    rw [l.advance_zero]
    exact h
  rw [not_or] at hzero
  have hoverflow : sizeMax / size < count ↔ sizeMax < size * count := by
    rw [Nat.div_lt_iff_lt_mul (Nat.pos_of_ne_zero hzero.1), Nat.mul_comm]
  rw [if_neg (not_or.mpr hzero)]
  by_cases hbig : sizeMax < size * count
  · rw [if_pos (hoverflow.mpr hbig), if_pos (.inr hbig)]
    exact ⟨rfl, { h with }⟩
  rw [if_neg (mt hoverflow.mp hbig), if_neg (not_or.mpr ⟨hzero.1, hbig⟩), hahead]
  have hfirst := h.fread_pending (size * count)
  dsimp only at hfirst ⊢
  generalize (if s.pushbackOffset < s.pushbackLength then
    ((range' s.pushbackOffset (min (s.pushbackLength - s.pushbackOffset)
      (size * count))).map s.pushbackBytes,
      s.usePushback (min (s.pushbackLength - s.pushbackOffset) (size * count)))
    else ([], s)) = out at hfirst ⊢
  obtain ⟨taken, s'⟩ := out
  obtain ⟨htaken, hrefines, hfile, hoffset, hempty⟩ := hfirst
  dsimp only at htaken hrefines hfile hoffset hempty ⊢
  have hbytes : taken ++ (s'.file.readLoop (size * count - taken.length) s'.offset
      (size * count - taken.length)).1 =
      (s.pending ++ s.file.bytes.drop s.offset).take (size * count) := by
    rw [s'.file.readLoop_eq le_rfl, hfile, hoffset, htaken, RegularFile.read,
      take_append, length_take]
    congr 2
    omega
  constructor
  · rw [hbytes]
  · rw [← hbytes, length_append, l.advance_add]
    by_cases hshort : taken.length < size * count
    · refine hrefines.take_file (hempty hshort) ?_
      rw [s'.file.readLoop_eq le_rfl, RegularFile.read, length_take]
      exact min_le_right _ _
    rw [Nat.sub_eq_zero_of_le (Nat.le_of_not_lt hshort)]
    change ({ s' with offset := s'.offset + 0, eof := _ } : Stream).Refines
      ((l.advance taken.length).advance 0)
    rw [LogicalStream.advance_zero]
    exact { hrefines with }

theorem Stream.Refines.push (hpending : s.pending = [])
    (hbytes : bytes ≠ []) {s' : Stream} (hfile : s'.file = s.file) (hoffset : s'.offset = s.offset)
    (hflag : s'.pushback) (hpushed : s'.pending = bytes) : s'.Refines (l.push bytes) := by
  have hnil : l.pushed = [] := h.pushed.symm.trans hpending
  have hposition := h.position
  constructor
  · rw [hfile]
    exact h.file
  · rw [hpushed, LogicalStream.push, hnil, append_nil]
  · rw [hnil] at hposition
    rw [hoffset, LogicalStream.push, hnil, append_nil]
    dsimp only [length_nil] at hposition ⊢
    omega
  · rw [hpushed]
    exact iff_of_true hflag hbytes
  · rw [hoffset]
    exact h.small

theorem Stream.Refines.pushed_ne_nil : l.pushed ≠ [] ↔ s.pushbackOffset < s.pushbackLength := by
  rw [← h.pushed, ne_eq, s.pending_eq_nil_iff, not_not]

theorem Stream.Refines.ungetc (c : Int) : Answers (s.step (.ungetc c)) (l.step (.ungetc c)) := by
  rw [Stream.step, LogicalStream.step, Stream.ungetc]
  split
  next hrefused =>
    rw [if_pos (hrefused.imp_right h.pushed_ne_nil.mpr)]
    exact ⟨rfl, h⟩
  next hrefused =>
    rw [if_neg fun hl => hrefused (hl.imp_right h.pushed_ne_nil.mp)]
    refine ⟨rfl, h.push ?_ (cons_ne_nil _ _) rfl rfl rfl ?_⟩
    · exact s.pending_eq_nil_iff.mpr fun hlt => hrefused (.inr hlt)
    · exact congrArg (fun byte => [byte]) (Function.update_self 0 _ s.pushbackBytes)

end

theorem wcrtomb_ne_nil {multibyte : Bool} {c : Nat} (h : wcrtomb multibyte c = some bytes) :
    bytes ≠ [] := by
  unfold wcrtomb at h
  split_ifs at h
  all_goals
    cases h
    exact cons_ne_nil _ _

section

variable (h : s.Refines l)
include h

theorem Stream.Refines.ungetwc (multibyte : Bool) (c : Nat) :
    Answers (s.step (.ungetwc multibyte c)) (l.step (.ungetwc multibyte c)) := by
  rw [Stream.step, LogicalStream.step, Stream.ungetwc]
  by_cases hweof : c = weof
  · have hnone : wcrtomb multibyte c = none := by
      rw [hweof]
      cases multibyte <;> rfl
    rw [if_pos (.inl hweof), hnone]
    exact ⟨rfl, h⟩
  by_cases hpending : s.pushbackOffset < s.pushbackLength
  · rw [if_pos (.inr hpending)]
    cases wcrtomb multibyte c with
    | none => exact ⟨rfl, h⟩
    | some bytes =>
      dsimp only
      rw [if_pos (h.pushed_ne_nil.mpr hpending)]
      exact ⟨rfl, h⟩
  · rw [if_neg (not_or.mpr ⟨hweof, hpending⟩)]
    rcases hencoded : wcrtomb multibyte c with _ | bytes
    · exact ⟨rfl, { h with }⟩
    dsimp only
    rw [if_neg fun hl => hpending (h.pushed_ne_nil.mp hl)]
    refine ⟨rfl, h.push (s.pending_eq_nil_iff.mpr hpending) (wcrtomb_ne_nil hencoded)
      rfl rfl rfl ?_⟩
    change (range' 0 (bytes.length - 0)).map (fun i => bytes.getD i _) = bytes
    apply ext_getElem
    · simp
    · intro i hi hi'
      simp [hi']

theorem Stream.Refines.seekBase (hpending : s.pending = []) (whence : Whence) :
    (s.seekBase whence).map Int.ofNat = l.base whence := by
  have hsmall := h.small
  have hfits := s.file.fits
  cases whence with
  | set | other => rfl
  | cur =>
    have hposition := h.position
    rw [← h.pushed, hpending] at hposition
    rw [Stream.seekBase, if_neg (by omega), LogicalStream.base, Option.map_some,
      Int.ofNat_eq_natCast, ← hposition, length_nil, Nat.cast_zero, Int.add_zero]
  | fromEnd =>
    rw [Stream.seekBase, if_neg (by omega), LogicalStream.base, ← h.file]
    rfl

theorem Stream.Refines.fseek (hpending : s.pending = []) (offset : Int) (whence : Whence) :
    Answers (s.step (.fseek offset whence)) (l.step (.fseek offset whence)) := by
  have hbase := h.seekBase hpending whence
  have hfailed : ({ s with error := true } : Stream).Refines l := { h with }
  rw [Stream.step, LogicalStream.step, Stream.fseek, Stream.lseek, ← hbase]
  rcases hkernel : s.seekBase whence with _ | base
  · split <;> exact ⟨rfl, hfailed⟩
  have hvalid : whence ≠ .other := by
    rintro rfl
    cases hkernel
  rw [if_neg hvalid, Option.map_some]
  dsimp only [Int.ofNat_eq_natCast]
  by_cases hrange : 2 ^ 63 - 1 < base + offset ∨ base + offset < 0
  · rw [if_pos hrange, if_neg (by omega)]
    exact ⟨rfl, hfailed⟩
  rw [if_neg hrange, if_pos (by omega)]
  refine ⟨rfl, h.file, hpending, ?_, ?_, ?_⟩
  · dsimp only [length_nil]
    omega
  · exact iff_of_false Bool.false_ne_true fun hne => hne hpending
  · dsimp only
    omega

/-- With at most one byte pending, the flag says how many there are. -/
theorem Stream.Refines.ftell (hpending : s.pending.length ≤ 1) :
    Answers (s.step .ftell) (l.step .ftell) := by
  have hsmall := h.small
  have hposition := h.position
  have hseek : s.lseek 0 .cur = some s.offset := by
    rw [Stream.lseek, Stream.seekBase, if_neg (by omega)]
    dsimp only
    rw [if_neg (by omega), Int.add_zero, Int.toNat_natCast]
  have hcount : (if s.pushback then (s.offset : Int) - 1 else s.offset) = l.position := by
    rw [← h.pushed] at hposition
    split
    · rename_i hflag
      have hpos := length_pos_iff.mpr (h.flag.mp hflag)
      omega
    rename_i hflag
    have hnil : s.pending = [] := by
      by_contra hne
      exact hflag (h.flag.mpr hne)
    rw [hnil, length_nil] at hposition
    omega
  rw [Stream.step, LogicalStream.step, Stream.ftell, hseek]
  dsimp only
  rw [hcount]
  exact ⟨rfl, h⟩

theorem Stream.Refines.step (call : StreamCall) (hfits : s.Fits call) :
    Answers (s.step call) (l.step call) := by
  cases call with
  | fgetc => exact h.fgetc
  | fread size count => exact h.fread size count
  | ungetc c => exact h.ungetc c
  | ungetwc multibyte c => exact h.ungetwc multibyte c
  | fseek offset whence => exact h.fseek hfits offset whence
  | ftell => exact h.ftell hfits

end

end Refinement

def twoLetters : RegularFile := ⟨[97, 98], by decide⟩

end XsCore.Libc
