import XsCore.Foundation.CodeTable
import XsCore.Tools.Gzip

/-! # Decompression

`userspace/bin/gunzip/main.c`.  The input is what is left of the compressed file, the output all
bytes that were emitted.  The loops that an input can keep going for ever take fuel.

The trailer is read with `get_bits(32)`, which shifts 32-bit words by 32.  C does not say what comes
out of that; `WideShifts` holds what the machine makes of it.
-/

namespace XsCore.Tools

open BitString CodeTable List

/-! ## Bits -/

/-- `(1u << 32) - 1` and `x >> 32`. -/
structure WideShifts where
  ones : Nat
  shifted : Nat → Nat

/-- The rest of the input, `bit_buf` and `bit_cnt`.  At the end of the input the count gets
negative. -/
structure BitReader where
  input : List UInt8
  bitBuf : Nat
  bitCnt : Int

def fillBits (n : Nat) : List UInt8 → Nat → Int → BitReader
  | [], bitBuf, bitCnt => ⟨[], bitBuf, bitCnt⟩
  | byte :: input, bitBuf, bitCnt =>
    if bitCnt < n then
      fillBits n input ((bitBuf ||| byte.toNat <<< bitCnt.toNat) % 2 ^ 32) (bitCnt + 8)
    else ⟨byte :: input, bitBuf, bitCnt⟩

section Machine

variable (m : WideShifts)

def getBits (r : BitReader) (n : Nat) : Nat × BitReader :=
  let r := fillBits n r.input r.bitBuf r.bitCnt
  (r.bitBuf &&& (if n = 32 then m.ones else 2 ^ n - 1),
    ⟨r.input, if n = 32 then m.shifted r.bitBuf else r.bitBuf >>> n, r.bitCnt - n⟩)

end Machine

def alignToByte (r : BitReader) : BitReader :=
  let odd := r.bitCnt.tmod 8
  ⟨r.input, r.bitBuf >>> odd.toNat, r.bitCnt - odd⟩

/-- `get_byte_raw`: at the end of the input it is zero. -/
def getByteRaw : List UInt8 → UInt8 × List UInt8
  | [] => (0, [])
  | byte :: input => (byte, input)

/-! ## Code tables -/

def tableSize : Nat := 1024

def nextCode (lens : List Nat) : Nat → Nat
  | 0 => 0
  | bits + 1 => (nextCode lens bits + if bits = 0 then 0 else lens.count bits) * 2

def buildLoop : Nat → List Nat → (Nat → Nat) → Table → Option Table
  | _, [], _, t => some t
  | n, len :: lens, next, t =>
    if len ≠ 0 then
      (insert tableSize n (bits len (next len)).reverse 0 t).bind fun t =>
        buildLoop (n + 1) lens (Function.update next len (next len + 1)) t
    else buildLoop (n + 1) lens next t

/-- `build_canonical_huffman`; there is no result if it leaves the table. -/
def buildCanonicalHuffman (lens : List Nat) : Option Table := buildLoop 0 lens (nextCode lens) empty

def fixedLitLens : List Nat :=
  replicate 144 8 ++ replicate 112 9 ++ replicate 24 7 ++ replicate 8 8

def fixedDistLens : List Nat := replicate 32 5

section Machine

variable (m : WideShifts)

def decodeSymbol (t : Table) : Nat → Nat → BitReader → Option (Int × BitReader)
  | 0, _, _ => none
  | fuel + 1, node, r =>
    let (bit, r) := getBits m r 1
    let childIdx := node * 2 + 1 + bit
    if tableSize ≤ childIdx then some (-1, r)
    else if 0 ≤ t.entry childIdx then some (t.entry childIdx, r)
    else decodeSymbol t fuel (-t.entry childIdx).toNat r

end Machine

/-! ## Output -/

/-- What was emitted, `window`, `win_pos` and `running_crc`. -/
structure Output where
  out : List UInt8
  window : Nat → UInt8
  winPos : Nat
  crc : BitVec 32

def emitByte (o : Output) (b : UInt8) : Output where
  out := o.out ++ [b]
  window := Function.update o.window o.winPos b
  winPos := (o.winPos + 1) % windowSize
  crc := akaosCrc32 o.crc [b]

def copyLoop : Nat → Nat → Output → Output
  | 0, _, o => o
  | len + 1, srcPos, o =>
    copyLoop len ((srcPos + 1) % windowSize) (emitByte o (o.window srcPos))

/-! ## Blocks -/

section Machine

variable (m : WideShifts)

/-- `decompress_huffman_block`; the flag tells success. -/
def decompressHuffmanBlock (lit dist : Table) :
    Nat → BitReader → Output → Option (Bool × BitReader × Output)
  | 0, _, _ => none
  | fuel + 1, r, o =>
    match decodeSymbol m lit tableSize 0 r with
    | none => none
    | some (sym, r) =>
      if sym < 0 then some (false, r, o)
      else if sym < 256 then
        decompressHuffmanBlock lit dist fuel r (emitByte o (UInt8.ofNat sym.toNat))
      else if sym = 256 then some (true, r, o)
      else
        let lenIdx := (sym - 257).toNat
        if 29 ≤ lenIdx then some (false, r, o)
        else
          let (extra, r) := getBits m r (lengthExtra.getD lenIdx 0)
          let len := lengthBase.getD lenIdx 0 + extra
          match decodeSymbol m dist tableSize 0 r with
          | none => none
          | some (distIdx, r) =>
            if distIdx < 0 ∨ 30 ≤ distIdx then some (false, r, o)
            else
              let (extra, r) := getBits m r (distExtra.getD distIdx.toNat 0)
              let back := distBase.getD distIdx.toNat 0 + extra
              if windowSize < back then some (false, r, o)
              else
                let srcPos := (o.winPos + windowSize - back) % windowSize
                decompressHuffmanBlock lit dist fuel r (copyLoop len srcPos o)

def storedLoop : Nat → BitReader → Output → BitReader × Output
  | 0, r, o => (r, o)
  | len + 1, r, o =>
    let (byte, r) := getBits m r 8
    storedLoop len r (emitByte o (UInt8.ofNat byte))

def clenOrder : List Nat := [16, 17, 18, 0, 8, 7, 9, 6, 10, 5, 11, 4, 12, 3, 13, 2, 14, 1, 15]

def readClens : List Nat → BitReader → List Nat → List Nat × BitReader
  | [], r, lens => (lens, r)
  | place :: places, r, lens =>
    let (len, r) := getBits m r 3
    readClens places r (lens.set place len)

def readDynamicLens (t : Table) (total : Nat) :
    Nat → BitReader → List Nat → Option (Option (List Nat) × BitReader)
  | 0, _, _ => none
  | fuel + 1, r, lens =>
    if lens.length < total then
      match decodeSymbol m t tableSize 0 r with
      | none => none
      | some (s, r) =>
        if s < 0 then some (none, r)
        else if s ≤ 15 then readDynamicLens t total fuel r (lens ++ [s.toNat])
        else
          let (width, start, value) :=
            if s = 16 then (2, 3, lens.getLastD 0) else if s = 17 then (3, 3, 0) else (7, 11, 0)
          let (rep, r) := getBits m r width
          readDynamicLens t total fuel r
            ((lens ++ replicate (rep + start) value).take total)
    else some (some lens, r)

/-- The tables of a dynamic block: no result if a loop does not end or a table is left, and no
tables if the lengths are corrupt. -/
def readDynamicTables (fuel : Nat) (r : BitReader) : Option (Option (Table × Table) × BitReader) :=
  let (hlit, r) := getBits m r 5
  let (hdist, r) := getBits m r 5
  let (hclen, r) := getBits m r 4
  let (clens, r) := readClens m (clenOrder.take (hclen + 4)) r (replicate 19 0)
  match buildCanonicalHuffman clens with
  | none => none
  | some t =>
    match readDynamicLens m t (hlit + 257 + (hdist + 1)) fuel r [] with
    | none => none
    | some (none, r) => some (none, r)
    | some (some lens, r) =>
      match buildCanonicalHuffman (lens.take (hlit + 257)),
          buildCanonicalHuffman (lens.drop (hlit + 257)) with
      | some lit, some dist => some (some (lit, dist), r)
      | _, _ => none

def blockLoop (fixedLit fixedDist : Table) :
    Nat → BitReader → Output → Option (Bool × BitReader × Output)
  | 0, _, _ => none
  | fuel + 1, r, o =>
    let (bfinal, r) := getBits m r 1
    let (btype, r) := getBits m r 2
    let block :=
      if btype = 0 then
        let (len, r) := getBits m (alignToByte r) 16
        let (_, r) := getBits m r 16
        let (r, o) := storedLoop m len r o
        some (true, r, o)
      else if btype = 1 then decompressHuffmanBlock m fixedLit fixedDist fuel r o
      else if btype = 2 then
        match readDynamicTables m fuel r with
        | none => none
        | some (none, r) => some (false, r, o)
        | some (some (lit, dist), r) => decompressHuffmanBlock m lit dist fuel r o
      else some (false, r, o)
    match block with
    | none => none
    | some (false, r, o) => some (false, r, o)
    | some (true, r, o) =>
      if bfinal ≠ 0 then some (true, r, o) else blockLoop fixedLit fixedDist fuel r o

end Machine

/-! ## Streams -/

def skipText (input : List UInt8) : List UInt8 := (input.dropWhile (· ≠ 0)).drop 1

def skipOptional (flg : UInt8) (input : List UInt8) : List UInt8 :=
  let input :=
    if flg &&& 4 ≠ 0 then
      let (low, input) := getByteRaw input
      let (high, input) := getByteRaw input
      input.drop (low.toNat + 256 * high.toNat)
    else input
  let input := if flg &&& 8 ≠ 0 then skipText input else input
  let input := if flg &&& 16 ≠ 0 then skipText input else input
  if flg &&& 2 ≠ 0 then input.drop 2 else input

/-- The end of `inflate_stream`.  The length is read too, and not looked at. -/
def checkTrailer (m : WideShifts) : Bool × BitReader × Output → Bool × List UInt8
  | (false, _, o) => (false, o.out)
  | (true, r, o) =>
    let (expCrc, _) := getBits m (alignToByte r) 32
    (decide (expCrc = o.crc.toNat), o.out)

def inflateWith (m : WideShifts) (fixedLit fixedDist : Table) (window : Nat → UInt8) (fuel : Nat)
    (input : List UInt8) : Option (Bool × List UInt8) :=
  let (id1, input) := getByteRaw input
  let (id2, input) := getByteRaw input
  if id1 ≠ 0x1f ∨ id2 ≠ 0x8b then some (false, [])
  else
    let (cm, input) := getByteRaw input
    if cm ≠ 8 then some (false, [])
    else
      let (flg, input) := getByteRaw input
      let input := skipOptional flg (input.drop 6)
      (blockLoop m fixedLit fixedDist fuel ⟨input, 0, 0⟩ ⟨[], window, 0, 0⟩).map (checkTrailer m)

/-- `inflate_stream`: whether it succeeds, and what it has emitted.  The window is what the stream
before it left. -/
def inflateStream (m : WideShifts) (window : Nat → UInt8) (fuel : Nat) (input : List UInt8) :
    Option (Bool × List UInt8) :=
  (buildCanonicalHuffman fixedLitLens).bind fun fixedLit =>
    (buildCanonicalHuffman fixedDistLens).bind fun fixedDist =>
      inflateWith m fixedLit fixedDist window fuel input

end XsCore.Tools
