import XsCore.Foundation.BackReferences
import XsCore.Foundation.BitString
import XsCore.Foundation.Bytes
import XsCore.Vfs.Path

/-! # Compression

`userspace/bin/gzip/main.c` with `akaos_crc32` of `userspace/libc/src/string.c`.  The bytes that
`put_byte` takes are a list; `writeCalls` cuts it into what `flush_out_buf` hands to `write`, whose
results the tool does not look at.

`deflateLoop_sent` is what the decompression needs to know: the bits of the compressed stream are
those of tokens that make up the input.
-/

namespace XsCore.Tools

open BackReferences BitString Function List

variable {fuel n k i : Nat} {base extra : List Nat}

open Vfs (Name)

/-! ## Bits -/

/-- `out_buf` with all that was flushed before, `bit_buffer` and `bit_count`. -/
structure BitWriter where
  out : List UInt8
  buffer : Nat
  count : Nat

def drainBits : Nat → BitWriter → BitWriter
  | 0, w => w
  | fuel + 1, w =>
    if 8 ≤ w.count then
      drainBits fuel ⟨w.out ++ [UInt8.ofNat (w.buffer % 256)], w.buffer >>> 8, w.count - 8⟩
    else w

def sendBits (w : BitWriter) (val count : Nat) : BitWriter :=
  drainBits (w.count + count)
    ⟨w.out, (w.buffer ||| val <<< w.count) % 2 ^ 32, w.count + count⟩

def flushBits (w : BitWriter) : BitWriter :=
  if 0 < w.count then ⟨w.out ++ [UInt8.ofNat (w.buffer % 256)], 0, 0⟩ else w

def bitReverseLoop : Nat → Nat → Nat → Nat
  | 0, res, _ => res
  | len + 1, res, code => bitReverseLoop len (res <<< 1 ||| code % 2) (code >>> 1)

def bitReverse (code len : Nat) : Nat := bitReverseLoop len 0 code

def fixedCode (sym : Nat) : Nat × Nat :=
  if sym ≤ 143 then (0x30 + sym, 8)
  else if sym ≤ 255 then (0x190 + (sym - 144), 9)
  else if sym ≤ 279 then (sym - 256, 7)
  else (0xC0 + (sym - 280), 8)

def sendFixedLiteral (w : BitWriter) (sym : Nat) : BitWriter :=
  sendBits w (bitReverse (fixedCode sym).1 (fixedCode sym).2) (fixedCode sym).2

def lengthBase : List Nat :=
  [3, 4, 5, 6, 7, 8, 9, 10, 11, 13, 15, 17, 19, 23, 27, 31, 35, 43, 51, 59, 67, 83, 99, 115, 131,
    163, 195, 227, 258]

def lengthExtra : List Nat :=
  [0, 0, 0, 0, 0, 0, 0, 0, 1, 1, 1, 1, 2, 2, 2, 2, 3, 3, 3, 3, 4, 4, 4, 4, 5, 5, 5, 5, 0]

def distBase : List Nat :=
  [1, 2, 3, 4, 5, 7, 9, 13, 17, 25, 33, 49, 65, 97, 129, 193, 257, 385, 513, 769, 1025, 1537, 2049,
    3073, 4097, 6145, 8193, 12289, 16385, 24577]

def distExtra : List Nat :=
  [0, 0, 0, 0, 1, 1, 2, 2, 3, 3, 4, 4, 5, 5, 6, 6, 7, 7, 8, 8, 9, 9, 10, 10, 11, 11, 12, 12, 13, 13]

/-- The greatest index whose base is not above a number, as the loops of `send_length` and
`send_distance` find it. -/
def baseIndex (base : List Nat) (n : Nat) : Nat → Option Nat
  | 0 => none
  | i + 1 => if base.getD i 0 ≤ n then some i else baseIndex base n i

def sendExtra (w : BitWriter) (base extra : List Nat) (i n : Nat) : BitWriter :=
  if 0 < extra.getD i 0 then sendBits w (n - base.getD i 0) (extra.getD i 0) else w

def sendLength (w : BitWriter) (len : Nat) : BitWriter :=
  match baseIndex lengthBase len 29 with
  | none => w
  | some i => sendExtra (sendFixedLiteral w (257 + i)) lengthBase lengthExtra i len

def sendDistance (w : BitWriter) (dist : Nat) : BitWriter :=
  match baseIndex distBase dist 30 with
  | none => w
  | some i => sendExtra (sendBits w (bitReverse i 5) 5) distBase distExtra i dist

/-! ## Matches -/

def windowSize : Nat := 32768
def hashSize : Nat := 4096
def maxMatch : Nat := 258
def minMatch : Nat := 3

structure Chains where
  head : Nat → Int
  prev : Nat → Int

def hash3 (input : List UInt8) (pos : Nat) : Nat :=
  let byte := fun k => (input.getD (pos + k) 0).toNat
  (byte 0 ^^^ byte 1 <<< 4 ^^^ byte 2 <<< 8) % hashSize

def Chains.enter (chains : Chains) (input : List UInt8) (pos : Nat) : Chains :=
  let h := hash3 input pos
  { head := update chains.head h (pos % windowSize : Nat)
    prev := update chains.prev (pos % windowSize) (chains.head h) }

def matchRun (input : List UInt8) (pos matchPos : Nat) : Nat → Nat → Nat
  | 0, l => l
  | fuel + 1, l =>
    if pos + l < input.length ∧ l < maxMatch ∧ input[pos + l]? = input[matchPos + l]? then
      matchRun input pos matchPos fuel (l + 1)
    else l

def chainDistance (pos : Nat) (matchPos : Int) : Int :=
  let dist := (pos % windowSize : Nat) - matchPos
  if dist ≤ 0 then dist + windowSize else dist

def chainLoop (input : List UInt8) (prev : Nat → Int) (pos : Nat) :
    Nat → Int → Nat × Nat → Nat × Nat
  | 0, _, best => best
  | fuel + 1, matchPos, best =>
    if matchPos = -1 then best
    else
      let dist := chainDistance pos matchPos
      let next := prev matchPos.toNat
      if 0 < dist ∧ dist ≤ pos ∧ dist < windowSize then
        let l := matchRun input pos (pos - dist.toNat) maxMatch 0
        if best.1 < l ∧ minMatch ≤ l then
          if maxMatch ≤ l then (l, dist.toNat)
          else chainLoop input prev pos fuel next (l, dist.toNat)
        else chainLoop input prev pos fuel next best
      else chainLoop input prev pos fuel next best

/-- The positions inside a match are entered too. -/
def enterMatch (input : List UInt8) (pos matchLen : Nat) : Nat → Nat → Chains → Chains
  | 0, _, chains => chains
  | fuel + 1, k, chains =>
    if k < matchLen ∧ pos + k + minMatch ≤ input.length then
      enterMatch input pos matchLen fuel (k + 1) (chains.enter input (pos + k))
    else chains

/-- `match_len` and `match_dist` at a position, and the chains after the search. -/
def searchMatch (input : List UInt8) (pos : Nat) (chains : Chains) : (Nat × Nat) × Chains :=
  if pos + minMatch ≤ input.length then
    let matchPos := chains.head (hash3 input pos)
    let chains := chains.enter input pos
    (chainLoop input chains.prev pos 32 matchPos (0, 0), chains)
  else ((0, 0), chains)

/-- The main loop of `deflate_stream`; it goes at least one byte on in every round. -/
def deflateLoop (input : List UInt8) : Nat → Nat → Chains → BitWriter → BitWriter
  | 0, _, _, w => w
  | fuel + 1, pos, chains, w =>
    if pos < input.length then
      let ((matchLen, matchDist), chains) := searchMatch input pos chains
      if minMatch ≤ matchLen then
        deflateLoop input fuel (pos + matchLen) (enterMatch input pos matchLen matchLen 1 chains)
          (sendDistance (sendLength w matchLen) matchDist)
      else
        deflateLoop input fuel (pos + 1) chains (sendFixedLiteral w (input.getD pos 0).toNat)
    else w

/-! ## Streams -/

def crcBit (crc : BitVec 32) : BitVec 32 := crc >>> 1 ^^^ (0xEDB88320#32 &&& -(crc &&& 1#32))

def crcByte (crc : BitVec 32) (byte : UInt8) : BitVec 32 :=
  Nat.iterate crcBit 8 (crc ^^^ BitVec.ofNat 32 byte.toNat)

def akaosCrc32 (crc : BitVec 32) (bytes : List UInt8) : BitVec 32 := ~~~(bytes.foldl crcByte (~~~crc))

def inBufSize : Nat := windowSize * 2

def gzipHeader : List UInt8 := [0x1f, 0x8b, 8, 0, 0, 0, 0, 0, 0, 3]

def gzipTrailer (input : List UInt8) : List UInt8 :=
  Bytes.leBytes 4 (akaosCrc32 0 input).toNat ++ Bytes.leBytes 4 input.length

def emptyChains : Chains := ⟨fun _ => -1, fun _ => 0⟩

/-- The bytes that `deflate_stream` puts out for a file.  What does not fit `in_buf` is not read. -/
def deflateStream (content : List UInt8) : List UInt8 :=
  let input := content.take inBufSize
  let w := sendBits (sendBits ⟨gzipHeader, 0, 0⟩ 1 1) 1 2
  let w := deflateLoop input input.length 0 emptyChains w
  (flushBits (sendFixedLiteral w 256)).out ++ gzipTrailer input

/-! ## Files -/

/-- The `write` calls for an output: `out_buf` is handed over whenever it is full, and at the end. -/
def writeCalls : Nat → List UInt8 → List (List UInt8)
  | 0, _ => []
  | _ + 1, [] => []
  | fuel + 1, byte :: out =>
    (byte :: out).take windowSize :: writeCalls fuel ((byte :: out).drop windowSize)

/-- What may go wrong with the copy: whether it can be created, and how many bytes each `write` call
takes. -/
structure OutputDevice where
  creates : Bool
  accepts : Nat → Nat

def OutputDevice.written (device : OutputDevice) : Nat → List (List UInt8) → List UInt8
  | _, [] => []
  | k, call :: calls => call.take (device.accepts k) ++ device.written (k + 1) calls

structure GzipOptions where
  stdout : Bool
  keep : Bool
  force : Bool

abbrev Files := Name → Option (List UInt8)

def gzSuffix : List UInt8 := [46, 103, 122]

def gzName (src : Name) : Name := (src ++ gzSuffix).take 255

/-- What the loop of `main` does with a file. -/
def gzipFile (opts : GzipOptions) (device : OutputDevice) (files : Files) (src : Name) : Files :=
  match files src with
  | none => files
  | some _ =>
    if opts.stdout then files
    else if !opts.force && (files (gzName src)).isSome then files
    else if !device.creates then files
    else
      let created := update files (gzName src) (some [])
      let out := deflateStream ((created src).getD [])
      let copied := update created (gzName src)
        (some (device.written 0 (writeCalls out.length out)))
      if opts.keep then copied else update copied src none

/-! ## The bits that were sent -/

def BitWriter.sent (w : BitWriter) : List Bool := byteBits w.out ++ bits w.count w.buffer

structure BitWriter.Tight (w : BitWriter) : Prop where
  count_lt : w.count < 8
  buffer_lt : w.buffer < 2 ^ w.count

variable {w : BitWriter} {input : List UInt8} {pos : Nat}

theorem drainBits_sent (hfuel : w.count ≤ fuel) (hbuffer : w.buffer < 2 ^ w.count) :
    (drainBits fuel w).sent = w.sent ∧ (drainBits fuel w).Tight := by
  induction fuel generalizing w with
  | zero => exact ⟨rfl, ⟨hfuel.trans_lt (by omega), hbuffer⟩⟩
  | succ fuel ih =>
    rw [drainBits]
    split
    · rename_i hcount
      have hsplit : w.count = 8 + (w.count - 8) := by omega
      have hshift : w.buffer >>> 8 = w.buffer / 2 ^ 8 := Nat.shiftRight_eq_div_pow _ _
      have hlt : w.buffer >>> 8 < 2 ^ (w.count - 8) := by
        rw [hshift]
        apply Nat.div_lt_of_lt_mul
        rw [← pow_add, ← hsplit]
        exact hbuffer
      have hrest := ih (w := ⟨w.out ++ [UInt8.ofNat (w.buffer % 256)], w.buffer >>> 8, w.count - 8⟩)
        (by dsimp only; omega) hlt
      refine ⟨hrest.1.trans ?_, hrest.2⟩
      simp only [BitWriter.sent]
      rw [byteBits_append, byteBits_singleton, hshift, append_assoc, ← bits_add, ← hsplit]
    · exact ⟨rfl, ⟨by omega, hbuffer⟩⟩

theorem sendBits_sent (hw : w.Tight) {val count : Nat} (hval : val < 2 ^ count)
    (hcount : count ≤ 24) :
    (sendBits w val count).sent = w.sent ++ bits count val ∧ (sendBits w val count).Tight := by
  have hlt := or_shift_lt hw.buffer_lt hval
  have hword : 2 ^ (w.count + count) ≤ 2 ^ 32 := by
    apply Nat.pow_le_pow_right (by omega)
    have hsmall := hw.count_lt
    omega
  rw [sendBits, Nat.mod_eq_of_lt (hlt.trans_le hword)]
  have hdrain := drainBits_sent (w := ⟨w.out, w.buffer ||| val <<< w.count, w.count + count⟩)
    le_rfl hlt
  refine ⟨hdrain.1.trans ?_, hdrain.2⟩
  simp only [BitWriter.sent]
  rw [bits_or_shift hw.buffer_lt, append_assoc]

theorem flushBits_sent (hw : w.Tight) : ∃ padding, padding < 8 ∧
      byteBits (flushBits w).out = w.sent ++ List.replicate padding false := by
  have hcount := hw.count_lt
  rw [flushBits]
  split
  · have hpad : ∀ n, bits n 0 = List.replicate n false := by
      intro n
      induction n with
      | zero => rfl
      | succ n ih =>
        rw [bits, Nat.zero_div, ih]
        rfl
    refine ⟨8 - w.count, by omega, ?_⟩
    have hsplit : 8 = w.count + (8 - w.count) := by omega
    rw [byteBits_append, byteBits_singleton, BitWriter.sent, append_assoc, hsplit, bits_add,
      Nat.div_eq_of_lt hw.buffer_lt, hpad, ← hsplit]
  · have hzero : w.count = 0 := by omega
    refine ⟨0, by omega, ?_⟩
    rw [BitWriter.sent, hzero, bits, replicate_zero, append_nil, append_nil]

theorem bitReverseLoop_eq (len res code : Nat) :
    bitReverseLoop len res code = 2 ^ len * res + value (bits len code).reverse := by
  induction len generalizing res code with
  | zero => rw [bitReverseLoop, bits, pow_zero, Nat.one_mul]; rfl
  | succ len ih =>
    have hstep : res <<< 1 ||| code % 2 = 2 ^ 1 * res + code % 2 := by
      rw [Nat.shiftLeft_eq, Nat.mul_comm, Nat.two_pow_add_eq_or_of_lt (Nat.mod_lt _ Nat.two_pos)]
    have hbit : (code % 2 == 1).toNat = code % 2 := by
      rcases Nat.mod_two_eq_zero_or_one code with h | h
      all_goals rw [h]; rfl
    rw [bitReverseLoop, ih, hstep, Nat.shiftRight_one, bits, reverse_cons, value_append,
      length_reverse, bits_length, value, value, hbit]
    ring

theorem bits_bitReverse (len code : Nat) :
    bits len (bitReverse code len) = (bits len code).reverse := by
  have hvalue := bits_value (bits len code).reverse
  rw [length_reverse, bits_length] at hvalue
  rw [bitReverse, bitReverseLoop_eq, Nat.mul_zero, Nat.zero_add, hvalue]

theorem bitReverse_lt (len code : Nat) : bitReverse code len < 2 ^ len := by
  have hlt := value_lt (bits len code).reverse
  rw [length_reverse, bits_length] at hlt
  rw [bitReverse, bitReverseLoop_eq, Nat.mul_zero, Nat.zero_add]
  exact hlt

def symbolBits (sym : Nat) : List Bool := (bits (fixedCode sym).2 (fixedCode sym).1).reverse

def distanceBits (i : Nat) : List Bool := (bits 5 i).reverse

theorem fixedCode_length (sym : Nat) : 7 ≤ (fixedCode sym).2 ∧ (fixedCode sym).2 ≤ 9 := by
  unfold fixedCode
  split_ifs
  all_goals dsimp only; omega

theorem sendFixedLiteral_sent (hw : w.Tight) (sym : Nat) :
    (sendFixedLiteral w sym).sent = w.sent ++ symbolBits sym ∧ (sendFixedLiteral w sym).Tight := by
  have hlength := fixedCode_length sym
  have hsend := sendBits_sent hw (bitReverse_lt (fixedCode sym).2 (fixedCode sym).1) (by omega)
  rw [bits_bitReverse] at hsend
  exact hsend

/-! ## Lengths and distances -/

theorem baseIndex_spec (h : baseIndex base n k = some i) :
    i < k ∧ base.getD i 0 ≤ n ∧ ∀ j, i < j → j < k → n < base.getD j 0 := by
  induction k with
  | zero => cases h
  | succ k ih =>
    rw [baseIndex] at h
    split at h
    · cases h
      rename_i hle
      exact ⟨Nat.lt_succ_self _, hle, fun j hij hjk => by omega⟩
    rename_i hnot
    obtain ⟨hik, hle, habove⟩ := ih h
    refine ⟨Nat.lt_succ_of_lt hik, hle, fun j hij hjk => ?_⟩
    by_cases hj : j = k
    · rw [hj]
      exact Nat.lt_of_not_le hnot
    · exact habove j hij (by omega)

theorem baseIndex_isSome (hbase : base.getD 0 0 ≤ n) (hk : 0 < k) :
    ∃ i, baseIndex base n k = some i := by
  induction k with
  | zero => omega
  | succ k ih =>
    rw [baseIndex]
    split
    · exact ⟨k, rfl⟩
    rename_i hnot
    apply ih
    rcases Nat.eq_zero_or_pos k with hk0 | hk0
    · rw [hk0] at hnot
      exact absurd hbase hnot
    · exact hk0

/-- A number between its base and what the extra bits can add to it. -/
structure BaseAndExtra (base extra : List Nat) (k n i : Nat) : Prop where
  index : baseIndex base n k = some i
  lt : i < k
  le : base.getD i 0 ≤ n
  extra_lt : n - base.getD i 0 < 2 ^ extra.getD i 0

/-- The bases of a table leave no gap, up to what the last of its extra bits can add. -/
theorem BaseAndExtra.of_table {last : Nat} (hmin : base.getD 0 0 ≤ n)
    (htable : ∀ i < last, base.getD (i + 1) 0 ≤ base.getD i 0 + 2 ^ extra.getD i 0)
    (hmax : n < base.getD last 0 + 2 ^ extra.getD last 0) :
    ∃ i, BaseAndExtra base extra (last + 1) n i := by
  obtain ⟨i, hi⟩ := baseIndex_isSome hmin (Nat.succ_pos last)
  obtain ⟨hlt, hle, habove⟩ := baseIndex_spec hi
  refine ⟨i, hi, hlt, hle, ?_⟩
  by_cases hlast : i = last
  · rw [hlast] at hle ⊢
    omega
  have hnext := habove (i + 1) (Nat.lt_succ_self i) (by omega)
  have hstep := htable i (by omega)
  omega

theorem lengthIndex_spec {len : Nat} (hmin : minMatch ≤ len) (hmax : len ≤ maxMatch) :
    ∃ i, BaseAndExtra lengthBase lengthExtra 29 len i :=
  BaseAndExtra.of_table hmin (by decide) (Nat.lt_succ_of_le hmax)

theorem distIndex_spec {dist : Nat} (hmin : 0 < dist) (hmax : dist < windowSize) :
    ∃ i, BaseAndExtra distBase distExtra 30 dist i :=
  BaseAndExtra.of_table hmin (by decide) (Nat.lt_succ_of_lt hmax)

def extraBits (base extra : List Nat) (i n : Nat) : List Bool :=
  bits (extra.getD i 0) (n - base.getD i 0)

theorem sendExtra_sent (hw : w.Tight)
    (h : BaseAndExtra base extra k n i) (hextra : extra.getD i 0 ≤ 24) :
    (sendExtra w base extra i n).sent = w.sent ++ extraBits base extra i n ∧
      (sendExtra w base extra i n).Tight := by
  rw [sendExtra]
  split
  · exact sendBits_sent hw h.extra_lt hextra
  rename_i hzero
  have hnone : extra.getD i 0 = 0 := by omega
  rw [extraBits, hnone, bits, append_nil]
  exact ⟨rfl, hw⟩

def tokenBits : Token UInt8 → List Bool
  | .literal byte => symbolBits byte.toNat
  | .copy length distance =>
    let i := (baseIndex lengthBase length 29).getD 0
    let j := (baseIndex distBase distance 30).getD 0
    symbolBits (257 + i) ++ extraBits lengthBase lengthExtra i length ++ distanceBits j ++
      extraBits distBase distExtra j distance

theorem sendMatch_sent (hw : w.Tight) {length distance : Nat} (hmin : minMatch ≤ length)
    (hmax : length ≤ maxMatch) (hpos : 0 < distance) (hwindow : distance < windowSize) :
    (sendDistance (sendLength w length) distance).sent =
        w.sent ++ tokenBits (.copy length distance) ∧
      (sendDistance (sendLength w length) distance).Tight := by
  obtain ⟨i, hi⟩ := lengthIndex_spec hmin hmax
  obtain ⟨j, hj⟩ := distIndex_spec hpos hwindow
  have hlengthExtra : ∀ i < 29, lengthExtra.getD i 0 ≤ 24 := by decide
  have hdistExtra : ∀ i < 30, distExtra.getD i 0 ≤ 24 := by decide
  obtain ⟨hsymbol, htight⟩ := sendFixedLiteral_sent hw (257 + i)
  obtain ⟨hlength, htight⟩ := sendExtra_sent htight hi (hlengthExtra i hi.lt)
  obtain ⟨hcode, htight'⟩ := sendBits_sent htight (bitReverse_lt 5 j) (by omega)
  obtain ⟨hdist, htight'⟩ := sendExtra_sent htight' hj (hdistExtra j hj.lt)
  simp only [sendLength, hi.index, sendDistance, hj.index, tokenBits, Option.getD_some]
  refine ⟨?_, htight'⟩
  rw [hdist, hcode, hlength, hsymbol, bits_bitReverse]
  simp [distanceBits]

/-! ## The tokens of an input -/

/-- A match that may be sent: it lies in the window and in the input, and it was compared. -/
structure IsMatch (input : List UInt8) (pos length distance : Nat) : Prop where
  min : minMatch ≤ length
  max : length ≤ maxMatch
  distance_pos : 0 < distance
  distance_lt : distance < windowSize
  distance_le : distance ≤ pos
  fits : pos + length ≤ input.length
  same : ∀ k, k < length → input[pos + k]? = input[pos - distance + k]?

theorem matchRun_spec {l : Nat} (matchPos fuel : Nat) (hfits : pos + l ≤ input.length)
    (hmax : l ≤ maxMatch) (hsame : ∀ k < l, input[pos + k]? = input[matchPos + k]?) :
    pos + matchRun input pos matchPos fuel l ≤ input.length ∧
      matchRun input pos matchPos fuel l ≤ maxMatch ∧
      ∀ k < matchRun input pos matchPos fuel l, input[pos + k]? = input[matchPos + k]? := by
  induction fuel generalizing l with
  | zero => exact ⟨hfits, hmax, hsame⟩
  | succ fuel ih =>
    rw [matchRun]
    split
    · rename_i hgo
      apply ih (by omega) (by omega)
      intro k hk
      by_cases hkl : k = l
      · rw [hkl]
        exact hgo.2.2
      · exact hsame k (by omega)
    · exact ⟨hfits, hmax, hsame⟩

theorem chainLoop_spec {prev : Nat → Int} {matchPos : Int} {best : Nat × Nat}
    (hpos : pos ≤ input.length) (hbest : best.1 = 0 ∨ IsMatch input pos best.1 best.2) :
    (chainLoop input prev pos fuel matchPos best).1 = 0 ∨
      IsMatch input pos (chainLoop input prev pos fuel matchPos best).1
        (chainLoop input prev pos fuel matchPos best).2 := by
  induction fuel generalizing matchPos best with
  | zero => exact hbest
  | succ fuel ih =>
    rw [chainLoop]
    dsimp only
    split
    · exact hbest
    split
    · rename_i hdist
      generalize chainDistance pos matchPos = dist at hdist ⊢
      obtain ⟨hfits, hmax, hsame⟩ := matchRun_spec (l := 0) (pos - dist.toNat) maxMatch
        hpos (Nat.zero_le _) (fun k hk => absurd hk (Nat.not_lt_zero k))
      split
      · rename_i hlonger
        have hnew : IsMatch input pos (matchRun input pos (pos - dist.toNat) maxMatch 0)
            dist.toNat :=
          ⟨hlonger.2, hmax, by omega, by omega, by omega, hfits, hsame⟩
        split
        · exact Or.inr hnew
        · exact ih (Or.inr hnew)
      · exact ih hbest
    · exact ih hbest

theorem searchMatch_spec (chains : Chains) (hpos : pos ≤ input.length) :
    (searchMatch input pos chains).1.1 = 0 ∨
      IsMatch input pos (searchMatch input pos chains).1.1 (searchMatch input pos chains).1.2 := by
  rw [searchMatch]
  split
  · exact chainLoop_spec hpos (Or.inl rfl)
  · exact Or.inl rfl

/-- Every copy is one that the format can express, of letters that are already there. -/
def Expressible (text : List UInt8) : List (Token UInt8) → Prop
  | [] => True
  | .literal byte :: tokens => Expressible (text ++ [byte]) tokens
  | .copy length distance :: tokens =>
    (minMatch ≤ length ∧ length ≤ maxMatch ∧ 0 < distance ∧ distance < windowSize ∧
      distance ≤ text.length) ∧ Expressible (copyBack text distance length) tokens

/-- The bits that the main loop sends are those of tokens that make up the rest of the input. -/
theorem deflateLoop_sent (chains : Chains) (hw : w.Tight) (hpos : pos ≤ input.length)
    (hfuel : input.length ≤ pos + fuel) :
    ∃ tokens, Expressible (input.take pos) tokens ∧ expand (input.take pos) tokens = input ∧
      (deflateLoop input fuel pos chains w).sent = w.sent ++ tokens.flatMap tokenBits ∧
      (deflateLoop input fuel pos chains w).Tight := by
  have hdone : input.length ≤ pos → ∃ tokens, Expressible (input.take pos) tokens ∧
      expand (input.take pos) tokens = input ∧ w.sent = w.sent ++ tokens.flatMap tokenBits ∧
      w.Tight := by
    intro hend
    refine ⟨[], trivial, take_of_length_le hend, ?_, hw⟩
    rw [flatMap_nil, append_nil]
  induction fuel generalizing pos chains w with
  | zero => exact hdone hfuel
  | succ fuel ih =>
    rw [deflateLoop]
    split
    · rename_i hlt
      rcases hsearch : searchMatch input pos chains with ⟨⟨length, distance⟩, chains'⟩
      have hmatch := searchMatch_spec chains hpos
      rw [hsearch] at hmatch
      dsimp only at hmatch ⊢
      have hlength : (input.take pos).length = pos := by
        rw [length_take]
        omega
      split
      · rename_i hlong
        -- The match is sent, and the loop goes on behind it.
        have hm : IsMatch input pos length distance := by
          rcases hmatch with hzero | hm
          · unfold minMatch at hlong
            omega
          · exact hm
        obtain ⟨hsent, htight⟩ := sendMatch_sent hw hm.min hm.max hm.distance_pos hm.distance_lt
        have hcopy := copyBack_take hm.distance_pos hm.distance_le hm.fits hm.same
        have hmin : 3 ≤ length := hm.min
        obtain ⟨tokens, hexp, hall, hrest, htight'⟩ := ih
          (enterMatch input pos length length 1 chains') htight hm.fits (by omega)
          (fun hend => ⟨[], trivial, take_of_length_le hend, by simp, htight⟩)
        refine ⟨.copy length distance :: tokens, ?_, ?_, ?_, htight'⟩
        · rw [Expressible, hcopy, hlength]
          exact ⟨⟨hm.min, hm.max, hm.distance_pos, hm.distance_lt, hm.distance_le⟩, hexp⟩
        · rw [expand, hcopy]
          exact hall
        · rw [hrest, hsent, flatMap_cons, append_assoc]
      · obtain ⟨hsent, htight⟩ := sendFixedLiteral_sent hw (input.getD pos 0).toNat
        have hbyte : input[pos]? = some (input.getD pos 0) := by
          rw [getD_eq_getElem?_getD, List.getElem?_eq_getElem hlt, Option.getD_some]
        have hnext := take_append_literal hbyte
        obtain ⟨tokens, hexp, hall, hrest, htight'⟩ := ih chains' htight
          (Nat.succ_le_of_lt hlt) (by omega)
          (fun hend => ⟨[], trivial, take_of_length_le hend, by simp, htight⟩)
        refine ⟨.literal (input.getD pos 0) :: tokens, ?_, ?_, ?_, htight'⟩
        · rw [Expressible, hnext]
          exact hexp
        · rw [expand, hnext]
          exact hall
        · rw [hrest, hsent, flatMap_cons, append_assoc]
          rfl
    · rename_i hend
      exact hdone (Nat.le_of_not_lt hend)

end XsCore.Tools
