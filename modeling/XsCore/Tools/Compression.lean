import XsCore.Tools.Gunzip

/-! # What decompression makes of a compressed file

`inflateStream_deflateStream` gives the result for every content: what the compressor read of it,
with success if the checksum survives the way the trailer is read.  `compression_correct_iff` says
when that is a complete copy, and when the source is safe.
-/

namespace XsCore.Tools

open BackReferences BitString CodeTable Function List

variable {n distance : Nat} {r : BitReader} {rest : List Bool} {o : Output}
  {tokens : List (Token UInt8)} {opts : GzipOptions}

open Vfs (Name)

/-! ## The fixed codes -/

/-- The words that `build_canonical_huffman` adds, from symbol `n` on. -/
def codeWords : Nat → List Nat → (Nat → Nat) → List (List Bool × Nat)
  | _, [], _ => []
  | n, len :: lens, next =>
    if len ≠ 0 then
      ((bits len (next len)).reverse, n) ::
        codeWords (n + 1) lens (update next len (next len + 1))
    else codeWords (n + 1) lens next

theorem buildLoop_eq (n : Nat) (lens : List Nat) (next : Nat → Nat) (t : Table) :
    buildLoop n lens next t = insertAll tableSize (codeWords n lens next) t := by
  induction lens generalizing n next t with
  | nil => rfl
  | cons len lens ih =>
    rw [buildLoop, codeWords]
    split
    · rw [insertAll]
      exact congrArg _ (funext fun t => ih _ _ t)
    · exact ih _ _ t

variable {count fuel : Nat} {text : List UInt8}

theorem fixedTable {word : Nat → List Bool} {lens : List Nat}
    (hwords : codeWords 0 lens (nextCode lens) = (range count).map fun sym => (word sym, sym))
    (heval : (Packed.insertAll tableSize ((range count).map fun sym => (word sym, sym))
      ⟨0, 2⟩).any (fun p => (range count).all fun sym =>
        leads tableSize p.toTable sym 0 (word sym))) :
    ∃ t, buildCanonicalHuffman lens = some t ∧
      ∀ sym < count, leads tableSize t sym 0 (word sym) := by
  cases hpacked : Packed.insertAll tableSize ((range count).map fun sym => (word sym, sym))
      ⟨0, 2⟩ with
  | none => simp [hpacked] at heval
  | some p =>
    rw [hpacked, Option.any_some, all_eq_true] at heval
    have hbuilt := Packed.insertAll_sound hpacked
    rw [Packed.toTable_empty] at hbuilt
    refine ⟨p.toTable, ?_, fun sym hsym => heval sym (mem_range.mpr hsym)⟩
    rw [buildCanonicalHuffman, buildLoop_eq, hwords, hbuilt]

set_option maxRecDepth 4000 in
theorem fixedLit_table : ∃ t, buildCanonicalHuffman fixedLitLens = some t ∧
    ∀ sym < 288, leads tableSize t sym 0 (symbolBits sym) :=
  fixedTable (by decide +kernel) (by decide +kernel)

theorem fixedDist_table : ∃ t, buildCanonicalHuffman fixedDistLens = some t ∧
    ∀ i < 32, leads tableSize t i 0 (distanceBits i) :=
  fixedTable (by decide +kernel) (by decide +kernel)

/-! ## Reading -/

structure BitReader.Left (r : BitReader) (left : List Bool) (count : Nat) : Prop where
  bitCnt_eq : r.bitCnt = count
  bitBuf_lt : r.bitBuf < 2 ^ count
  left_eq : left = bits count r.bitBuf ++ byteBits r.input

/-- Enough bytes are read for a field, and less than one byte more.  A field of up to 24 bits fits
the buffer wherever it starts, and one of 32 bits if it starts with a byte. -/
theorem fillBits_left {input : List UInt8} {bitBuf : Nat} (hn : n ≤ 24 ∨ n = 32 ∧ count % 8 = 0)
    (hbuf : bitBuf < 2 ^ count) (hcount : count < n + 8) (henough : n ≤ count + 8 * input.length) :
    ∃ count', n ≤ count' ∧ count' < n + 8 ∧ count' % 8 = count % 8 ∧
      (fillBits n input bitBuf count).Left (bits count bitBuf ++ byteBits input) count' := by
  induction input generalizing bitBuf count with
  | nil => exact ⟨count, henough, hcount, rfl, rfl, hbuf, rfl⟩
  | cons byte input ih =>
    rw [fillBits]
    split
    · rename_i hless
      have hbyte : byte.toNat < 2 ^ 8 := byte.toNat_lt
      have hlt := or_shift_lt hbuf hbyte
      have hword : 2 ^ (count + 8) ≤ 2 ^ 32 := Nat.pow_le_pow_right Nat.two_pos (by omega)
      rw [length_cons] at henough
      have hrest := ih (by omega) hlt (by omega) (by omega)
      rw [bits_or_shift hbuf, append_assoc, ← byteBits_cons, Nat.add_mod_right] at hrest
      rw [Int.toNat_natCast, Nat.mod_eq_of_lt (hlt.trans_le hword)]
      exact hrest
    · rename_i hmore
      exact ⟨count, by omega, hcount, rfl, rfl, hbuf, rfl⟩

theorem getBits_left (m : WideShifts) {field : List Bool}
    (h : r.Left (field ++ rest) count) (hcount : count < 8) (hfield : field.length ≤ 24) :
    ∃ r' count', getBits m r field.length = (value field, r') ∧ r'.Left rest count' ∧ count' < 8 := by
  have henough : field.length ≤ count + 8 * r.input.length := by
    have hlength := congrArg length h.left_eq
    rw [length_append, length_append, bits_length, byteBits_length] at hlength
    omega
  obtain ⟨count', hle, hlt, -, hleft⟩ :=
    fillBits_left (Or.inl hfield) h.bitBuf_lt (by omega) henough
  rw [← h.left_eq, ← h.bitCnt_eq] at hleft
  generalize hfill : fillBits field.length r.input r.bitBuf r.bitCnt = r' at hleft
  have hsplit : bits count' r'.bitBuf =
      bits field.length r'.bitBuf ++ bits (count' - field.length) (r'.bitBuf / 2 ^ field.length) := by
    rw [← bits_add, Nat.add_sub_cancel' hle]
  have hparts := hleft.left_eq
  rw [hsplit, append_assoc] at hparts
  obtain ⟨hlow, hhigh⟩ := append_inj hparts (bits_length _ _).symm
  have hnot : field.length ≠ 32 := by omega
  have hbuf : r'.bitBuf / 2 ^ field.length < 2 ^ (count' - field.length) := by
    apply Nat.div_lt_of_lt_mul
    rw [← pow_add, Nat.add_sub_cancel' hle]
    exact hleft.bitBuf_lt
  have hcnt : r'.bitCnt - field.length = (count' - field.length : Nat) := by
    rw [hleft.bitCnt_eq]
    omega
  refine ⟨⟨r'.input, r'.bitBuf / 2 ^ field.length, r'.bitCnt - field.length⟩,
    count' - field.length, ?_, ⟨hcnt, hbuf, hhigh⟩, by omega⟩
  rw [getBits, hfill, if_neg hnot, if_neg hnot, Nat.and_two_pow_sub_one_eq_mod,
    Nat.shiftRight_eq_div_pow, ← value_bits, ← hlow]

theorem decodeSymbol_left (m : WideShifts) {t : Table} {word : List Bool} {node symbol : Nat}
    (hleads : leads tableSize t symbol node word) (hfuel : word.length ≤ fuel)
    (h : r.Left (word ++ rest) count) (hcount : count < 8) :
    ∃ r' count', decodeSymbol m t fuel node r = some ((symbol : Int), r') ∧ r'.Left rest count' ∧
      count' < 8 := by
  induction word generalizing node fuel r count with
  | nil => cases hleads
  | cons b word ih =>
    rcases fuel with _ | fuel
    · exact absurd hfuel (Nat.not_succ_le_zero _)
    rw [length_cons] at hfuel
    have hfirst : r.Left ([b] ++ (word ++ rest)) count := h
    obtain ⟨r', count', hbit, hleft, hcount'⟩ :=
      getBits_left m hfirst hcount (by rw [length_singleton]; omega)
    have hvalue : value [b] = b.toNat := by
      rw [value, value]
      omega
    rw [length_singleton, hvalue] at hbit
    rw [leads, Bool.and_eq_true, decide_eq_true_iff] at hleads
    rw [decodeSymbol, hbit]
    change ∃ r' count', (if tableSize ≤ child node b then _
      else if 0 ≤ t.entry (child node b) then some (t.entry (child node b), _)
      else decodeSymbol m t fuel (-t.entry (child node b)).toNat _) = _ ∧ _
    rw [if_neg (by omega)]
    by_cases hword : word = []
    · have hentry : t.entry (child node b) = symbol := by simpa [hword] using hleads.2
      rw [hentry, if_pos (by omega)]
      subst hword
      exact ⟨r', count', rfl, hleft, hcount'⟩
    · have hbelow := hleads.2
      rw [if_neg hword, Bool.and_eq_true, decide_eq_true_iff] at hbelow
      rw [if_neg (by omega)]
      exact ih hbelow.2 (by omega) hleft hcount'

/-! ## Emitting -/

structure Output.Emitted (o : Output) (text : List UInt8) : Prop where
  out_eq : o.out = text
  recent : Recent windowSize o.window o.winPos text
  crc_eq : o.crc = akaosCrc32 0 text

theorem Output.Emitted.emitByte (h : o.Emitted text) (b : UInt8) :
    (emitByte o b).Emitted (text ++ [b]) where
  out_eq := by rw [Tools.emitByte, h.out_eq]
  recent := h.recent.push b
  crc_eq := by simp [Tools.emitByte, h.crc_eq, akaosCrc32]

theorem Output.Emitted.copyLoop (h : o.Emitted text)
    (hpos : 0 < distance) (hwindow : distance < windowSize) (hback : distance ≤ text.length)
    (length : Nat) : (copyLoop length ((text.length - distance) % windowSize) o).Emitted
      (copyBack text distance length) := by
  induction length generalizing o text with
  | zero => exact h
  | succ length ih =>
    have hletter := h.recent.back hpos hback hwindow.le
    have hnext : ((text.length - distance) % windowSize + 1) % windowSize =
        ((text ++ [o.window ((text.length - distance) % windowSize)]).length - distance) %
          windowSize := by
      rw [Nat.mod_add_mod, length_append, length_singleton]
      congr 1
      omega
    rw [Tools.copyLoop, copyBack_succ hletter, hnext]
    apply ih (h.emitByte _)
    rw [length_append]
    omega

theorem Output.Emitted.srcPos (h : o.Emitted text)
    (hwindow : distance < windowSize) (hback : distance ≤ text.length) :
    (o.winPos + windowSize - distance) % windowSize = (text.length - distance) % windowSize := by
  have hpos := h.recent.pos_eq
  have hdiv := Nat.div_add_mod text.length windowSize
  rw [← hpos] at hdiv
  have hsplit : text.length - distance + windowSize =
      (o.winPos + windowSize - distance) + windowSize * (text.length / windowSize) := by omega
  rw [← Nat.add_mod_right (text.length - distance), hsplit, Nat.add_mul_mod_self_left]

/-! ## The block -/

section Block

variable (m : WideShifts) {lit dist : Table}
  (hlit : ∀ sym < 288, leads tableSize lit sym 0 (symbolBits sym))
  (hdist : ∀ i < 32, leads tableSize dist i 0 (distanceBits i))

theorem getBits_extra {base extra : List Nat} {k i : Nat} (hbase : BaseAndExtra base extra k n i)
    (hextra : extra.getD i 0 ≤ 24) {count : Nat}
    (h : r.Left (extraBits base extra i n ++ rest) count) (hcount : count < 8) :
    ∃ r' count', getBits m r (extra.getD i 0) = (n - base.getD i 0, r') ∧ r'.Left rest count' ∧
      count' < 8 := by
  have hlength : (extraBits base extra i n).length = extra.getD i 0 := bits_length _ _
  have hfield := getBits_left m h hcount (by rw [hlength]; exact hextra)
  rw [hlength, extraBits, value_bits_of_lt hbase.extra_lt] at hfield
  exact hfield

include hlit hdist

theorem decompressHuffmanBlock_tokens {text : List UInt8} (hexp : Expressible text tokens)
    {fuel : Nat} (hfuel : tokens.length < fuel) {count : Nat}
    (h : r.Left (tokens.flatMap tokenBits ++ (symbolBits 256 ++ rest)) count) (hcount : count < 8)
    (ho : o.Emitted text) :
    ∃ r' o' count', decompressHuffmanBlock m lit dist fuel r o = some (true, r', o') ∧
      o'.Emitted (expand text tokens) ∧ r'.Left rest count' ∧ count' < 8 := by
  have hsymbol : ∀ sym, (symbolBits sym).length ≤ tableSize := by
    intro sym
    have hle := (fixedCode_length sym).2
    rw [symbolBits, length_reverse, bits_length]
    exact hle.trans (by decide)
  induction tokens generalizing text fuel r count o with
  | nil =>
    rcases fuel with _ | fuel
    · exact absurd hfuel (Nat.not_lt_zero _)
    obtain ⟨r', count', hdecode, hleft, hcount'⟩ :=
      decodeSymbol_left m (hlit 256 (by omega)) (hsymbol 256) h hcount
    rw [decompressHuffmanBlock, hdecode]
    exact ⟨r', o, count', rfl, ho, hleft, hcount'⟩
  | cons token tokens ih =>
    rcases fuel with _ | fuel
    · exact absurd hfuel (Nat.not_lt_zero _)
    rw [length_cons] at hfuel
    rw [flatMap_cons, append_assoc] at h
    cases token with
    | literal byte =>
      have hbyte : byte.toNat < 256 := byte.toNat_lt
      obtain ⟨r', count', hdecode, hleft, hcount'⟩ :=
        decodeSymbol_left m (hlit byte.toNat (by omega))
          (hsymbol byte.toNat) h hcount
      rw [decompressHuffmanBlock, hdecode]
      dsimp only
      rw [if_neg (by omega), if_pos (by omega), Int.toNat_natCast, UInt8.ofNat_toNat]
      exact ih hexp (by omega) hleft hcount' (ho.emitByte byte)
    | copy length distance =>
      obtain ⟨⟨hmin, hmax, hpos, hwindow, hback⟩, hexp⟩ := hexp
      obtain ⟨i, hi⟩ := lengthIndex_spec hmin hmax
      obtain ⟨j, hj⟩ := distIndex_spec hpos hwindow
      have hilt := hi.lt
      have hjlt := hj.lt
      have hlengthExtra : ∀ i < 29, lengthExtra.getD i 0 ≤ 24 := by decide
      have hdistExtra : ∀ i < 30, distExtra.getD i 0 ≤ 24 := by decide
      have hword : (distanceBits j).length ≤ tableSize := by
        rw [distanceBits, length_reverse, bits_length]
        decide
      simp only [tokenBits, hi.index, hj.index, Option.getD_some, append_assoc] at h
      -- The four parts of the token are read one after the other.
      obtain ⟨r₁, c₁, hsym, h₁, hc₁⟩ := decodeSymbol_left m
        (hlit (257 + i) (by omega)) (hsymbol (257 + i)) h hcount
      obtain ⟨r₂, c₂, hextra, h₂, hc₂⟩ := getBits_extra m hi (hlengthExtra i hilt) h₁ hc₁
      obtain ⟨r₃, c₃, hcode, h₃, hc₃⟩ := decodeSymbol_left m (hdist j (by omega)) hword h₂ hc₂
      obtain ⟨r₄, c₄, hextra', h₄, hc₄⟩ := getBits_extra m hj (hdistExtra j hjlt) h₃ hc₃
      have hindex : ((257 + i : Nat) - 257 : Int).toNat = i := by omega
      have hlen : lengthBase.getD i 0 + (length - lengthBase.getD i 0) = length :=
        Nat.add_sub_cancel' hi.le
      have hdistance : distBase.getD j 0 + (distance - distBase.getD j 0) = distance :=
        Nat.add_sub_cancel' hj.le
      rw [decompressHuffmanBlock, hsym]
      dsimp only
      rw [if_neg (by omega), if_neg (by omega), if_neg (by omega), hindex, if_neg (by omega),
        hextra, hcode]
      dsimp only
      rw [if_neg (by omega), Int.toNat_natCast, hextra']
      rw [hlen, hdistance, if_neg (by omega), ho.srcPos hwindow hback]
      exact ih hexp (by omega) h₄ hc₄ (ho.copyLoop hpos hwindow hback length)

end Block

/-! ## The stream -/

theorem tokens_length_le (hexp : Expressible text tokens) :
    text.length + tokens.length ≤ (expand text tokens).length := by
  induction tokens generalizing text with
  | nil => exact le_rfl
  | cons token tokens ih =>
    cases token with
    | literal byte =>
      have hle := ih hexp
      rw [length_append, length_singleton] at hle
      rw [expand, length_cons]
      omega
    | copy length distance =>
      obtain ⟨⟨hmin, -, hpos, -, hback⟩, hexp⟩ := hexp
      have hle := ih hexp
      rw [copyBack_length hpos hback] at hle
      unfold minMatch at hmin
      rw [expand, length_cons]
      omega

theorem byteBits_leBytes (width n : Nat) : byteBits (Bytes.leBytes width n) = bits (8 * width) n := by
  induction width generalizing n with
  | zero => rfl
  | succ width ih =>
    have hfirst := byteBits_singleton n
    rw [byteBits_cons, byteBits_nil, append_nil] at hfirst
    rw [Bytes.leBytes, byteBits_cons, hfirst, ih, Nat.mul_succ, Nat.add_comm, bits_add]
    rfl

theorem deflateStream_eq (content : List UInt8) :
    ∃ body tokens padding, padding < 8 ∧ Expressible [] tokens ∧
      expand [] tokens = content.take inBufSize ∧
      deflateStream content =
        gzipHeader ++ (body ++ gzipTrailer (content.take inBufSize)) ∧
      byteBits body = [true] ++ ([true, false] ++ (tokens.flatMap tokenBits ++
        (symbolBits 256 ++ replicate padding false))) := by
  have hstart : (⟨gzipHeader, 0, 0⟩ : BitWriter).Tight := ⟨by decide, by decide⟩
  obtain ⟨hfinal, hw⟩ := sendBits_sent hstart (show 1 < 2 ^ 1 by decide) (by decide)
  obtain ⟨htype, hw⟩ := sendBits_sent hw (show 1 < 2 ^ 2 by decide) (by decide)
  obtain ⟨tokens, hexp, hall, hloop, hw⟩ := deflateLoop_sent emptyChains hw
    (Nat.zero_le (content.take inBufSize).length) (Nat.le_of_eq (Nat.zero_add _).symm)
  obtain ⟨hend, hw⟩ := sendFixedLiteral_sent hw 256
  obtain ⟨padding, hpadding, hflush⟩ := flushBits_sent hw
  have hheader : (⟨gzipHeader, 0, 0⟩ : BitWriter).sent = byteBits gzipHeader := append_nil _
  rw [hend, hloop, htype, hfinal, hheader, append_assoc, append_assoc, append_assoc,
    append_assoc] at hflush
  obtain ⟨body, hbody, hbits⟩ := byteBits_split hflush
  refine ⟨body, tokens, padding, hpadding, hexp, hall, ?_, ?_⟩
  · rw [deflateStream, hbody, append_assoc]
  · rw [hbits]
    rfl

/-- What the trailer says about the checksum, as the reader understands it. -/
theorem getBits_trailer (m : WideShifts) (input : List UInt8) :
    (getBits m ⟨gzipTrailer input, 0, 0⟩ 32).1 = (akaosCrc32 0 input).toNat &&& m.ones := by
  have hbits : byteBits (gzipTrailer input) =
      bits 32 (akaosCrc32 0 input).toNat ++ byteBits (Bytes.leBytes 4 input.length) := by
    rw [gzipTrailer, byteBits_append, byteBits_leBytes]
  have hlength : (gzipTrailer input).length = 8 := by
    rw [gzipTrailer, length_append, Bytes.leBytes_length, Bytes.leBytes_length]
  obtain ⟨count, hle, hlt, hmod, hleft⟩ := fillBits_left
    (show 32 ≤ 24 ∨ 32 = 32 ∧ 0 % 8 = 0 from Or.inr ⟨rfl, rfl⟩) (show 0 < 2 ^ 0 by decide)
    (by decide) (show 32 ≤ 0 + 8 * (gzipTrailer input).length by omega)
  have hcount : count = 32 := by omega
  subst hcount
  have hparts := hleft.left_eq
  rw [bits, nil_append, hbits] at hparts
  obtain ⟨hcrc, -⟩ := append_inj hparts (by rw [bits_length, bits_length])
  have hvalue := congrArg value hcrc
  rw [value_bits_of_lt (akaosCrc32 0 input).isLt, value_bits_of_lt hleft.bitBuf_lt] at hvalue
  rw [getBits, if_pos rfl, hvalue]
  rfl

theorem alignToByte_left {padding : Nat} {bytes : List UInt8}
    (h : r.Left (replicate padding false ++ byteBits bytes) count) (hpadding : padding < 8)
    (hcount : count < 8) : alignToByte r = ⟨bytes, 0, 0⟩ := by
  have hlength := congrArg length h.left_eq
  rw [length_append, length_append, length_replicate, bits_length, byteBits_length,
    byteBits_length] at hlength
  have hsame : padding = count := by omega
  obtain ⟨-, hbytes⟩ := append_inj h.left_eq (by rw [length_replicate, bits_length, hsame])
  have hodd : r.bitCnt.tmod 8 = count := by
    rw [h.bitCnt_eq]
    exact Int.tmod_eq_of_lt (by omega) (by omega)
  rw [alignToByte, hodd, h.bitCnt_eq, Int.toNat_natCast, Nat.shiftRight_eq_div_pow,
    Nat.div_eq_of_lt h.bitBuf_lt, byteBits_inj hbytes.symm, Int.sub_self]

/-- What decompression makes of a compressed content: the part of it that was read, with success if
the checksum is read back. -/
theorem inflateStream_deflateStream (m : WideShifts) (window : Nat → UInt8) (content : List UInt8)
    (hfuel : content.length + 2 ≤ fuel) : inflateStream m window fuel (deflateStream content) =
      some (decide ((akaosCrc32 0 (content.take inBufSize)).toNat &&& m.ones =
        (akaosCrc32 0 (content.take inBufSize)).toNat), content.take inBufSize) := by
  obtain ⟨body, tokens, padding, hpadding, hexp, hall, hstream, hbody⟩ := deflateStream_eq content
  obtain ⟨lit, hlitBuild, hlit⟩ := fixedLit_table
  obtain ⟨dist, hdistBuild, hdist⟩ := fixedDist_table
  have htokens := tokens_length_le hexp
  rw [hall, length_take, length_nil] at htokens
  rcases fuel with _ | fuel
  · omega
  have hstart : (⟨body ++ gzipTrailer (content.take inBufSize), 0, 0⟩ : BitReader).Left
      ([true] ++ ([true, false] ++ (tokens.flatMap tokenBits ++ (symbolBits 256 ++
        (replicate padding false ++ byteBits (gzipTrailer (content.take inBufSize))))))) 0 := by
    refine ⟨rfl, Nat.one_pos, ?_⟩
    rw [bits, nil_append, byteBits_append, hbody]
    simp
  obtain ⟨r₁, c₁, hfinal, h₁, hc₁⟩ := getBits_left m hstart (by omega) (by decide)
  obtain ⟨r₂, c₂, htype, h₂, hc₂⟩ := getBits_left m h₁ hc₁ (by decide)
  have hcrc : 0 = akaosCrc32 0 [] := by decide
  have hempty : (⟨[], window, 0, 0⟩ : Output).Emitted [] := ⟨rfl, ⟨by decide, rfl, by simp⟩, hcrc⟩
  obtain ⟨r₃, o, c₃, hblock, ho, h₃, hc₃⟩ := decompressHuffmanBlock_tokens m hlit hdist
    hexp (show tokens.length < fuel by omega) h₂ hc₂ hempty
  have hloop : blockLoop m lit dist (fuel + 1)
      ⟨body ++ gzipTrailer (content.take inBufSize), 0, 0⟩ ⟨[], window, 0, 0⟩ =
        some (true, r₃, o) := by
    have hone : [true].length = 1 := rfl
    have htwo : [true, false].length = 2 := rfl
    have hbfinal : value [true] = 1 := rfl
    have hbtype : value [true, false] = 1 := rfl
    rw [hone, hbfinal] at hfinal
    rw [htwo, hbtype] at htype
    rw [blockLoop, hfinal]
    dsimp only
    rw [htype]
    dsimp only
    rw [if_neg (by decide), if_pos rfl, hblock]
    rfl
  rw [inflateStream, hlitBuild, hdistBuild, Option.bind_some, Option.bind_some, hstream]
  change (blockLoop m lit dist (fuel + 1)
    ⟨body ++ gzipTrailer (content.take inBufSize), 0, 0⟩ _).map (checkTrailer m) = _
  rw [hloop, Option.map_some, checkTrailer, alignToByte_left h₃ hpadding hc₃]
  dsimp only
  rw [getBits_trailer, ho.crc_eq, ho.out_eq, hall]

/-! ## Complete copies -/

/-- Decompression ends, with success, and emits the content. -/
def Restores (m : WideShifts) (copy content : List UInt8) : Prop :=
  ∀ window, ∃ enough, ∀ fuel, enough ≤ fuel →
    inflateStream m window fuel copy = some (true, content)

/-- A compressed copy of a content, with its checksum and its length at the end. -/
structure CompleteCopy (m : WideShifts) (copy content : List UInt8) : Prop where
  restores : Restores m copy content
  trailer : ∃ body, copy = body ++ gzipTrailer content

/-- Whatever the device does, the source is gone only if a complete copy is there. -/
def RemovesSafely (m : WideShifts) (opts : GzipOptions) (content : List UInt8) : Prop :=
  ∀ device files src, files src = some content → gzipFile opts device files src src = none →
    ∃ copy, gzipFile opts device files src (gzName src) = some copy ∧ CompleteCopy m copy content

theorem deflateStream_complete_iff (m : WideShifts) (content : List UInt8) :
    CompleteCopy m (deflateStream content) content ↔
      content.length ≤ inBufSize ∧
        (akaosCrc32 0 content).toNat &&& m.ones = (akaosCrc32 0 content).toNat := by
  constructor
  · intro h
    obtain ⟨enough, henough⟩ := h.restores fun _ => 0
    have hresult := henough (max enough (content.length + 2)) (Nat.le_max_left _ _)
    rw [inflateStream_deflateStream m _ content (Nat.le_max_right _ _)] at hresult
    obtain ⟨hcrc, htake⟩ := Prod.mk.inj (Option.some.inj hresult)
    rw [htake] at hcrc
    have hlength := congrArg length htake
    rw [length_take] at hlength
    exact ⟨by omega, of_decide_eq_true hcrc⟩
  · rintro ⟨hlength, hcrc⟩
    have htake : content.take inBufSize = content := take_of_length_le hlength
    constructor
    · intro window
      refine ⟨content.length + 2, fun fuel hfuel => ?_⟩
      rw [inflateStream_deflateStream m window content hfuel, htake, decide_eq_true hcrc]
    · exact ⟨_, by rw [deflateStream, htake]⟩

theorem gzipFile_kept (hkept : opts.stdout ∨ opts.keep) (device : OutputDevice)
    {files : Files} {src : Name} {content : List UInt8} (hsrc : files src = some content) :
    gzipFile opts device files src src ≠ none := by
  have hsome : files src ≠ none := by
    rw [hsrc]
    exact Option.some_ne_none content
  rw [gzipFile, hsrc]
  dsimp only
  by_cases hstdout : opts.stdout
  · rw [if_pos hstdout]
    exact hsome
  rw [if_neg hstdout]
  split
  · exact hsome
  split
  · exact hsome
  rw [if_pos (hkept.resolve_left hstdout)]
  by_cases hdst : src = gzName src
  · rw [← hdst, update_self]
    exact Option.some_ne_none _
  · rw [update_of_ne hdst, update_of_ne hdst]
    exact hsome

def fullDevice : OutputDevice := ⟨true, fun _ => 0⟩

theorem fullDevice_written (k : Nat) (calls : List (List UInt8)) :
    fullDevice.written k calls = [] := by
  induction calls generalizing k with
  | nil => rfl
  | cons call calls ih =>
    rw [OutputDevice.written, ih]
    rfl

def onlyFile (content : List UInt8) : Files := fun name => if name = [97] then some content else none

theorem gzipFile_fullDevice (hstdout : opts.stdout = false) (hkeep : opts.keep = false)
    (content : List UInt8) : gzipFile opts fullDevice (onlyFile content) [97] [97] = none ∧
      gzipFile opts fullDevice (onlyFile content) [97] (gzName [97]) = some [] := by
  have hne : gzName [97] ≠ [97] := by decide
  have hnone : onlyFile content (gzName [97]) = none := if_neg hne
  have hsome : onlyFile content [97] = some content := if_pos rfl
  have hresult : gzipFile opts fullDevice (onlyFile content) [97] =
      update (update (update (onlyFile content) (gzName [97]) (some []))
        (gzName [97]) (some [])) [97] none := by
    simp only [gzipFile, hsome, hstdout, hkeep, hnone, fullDevice_written, Option.isSome_none,
      Bool.and_false]
    rfl
  rw [hresult]
  constructor
  · exact update_self _ _ _
  · rw [update_of_ne hne, update_self]

theorem removesSafely_iff (m : WideShifts) (opts : GzipOptions) (content : List UInt8) :
    RemovesSafely m opts content ↔ opts.stdout ∨ opts.keep := by
  constructor
  · intro h
    by_contra hnot
    rw [not_or, Bool.not_eq_true, Bool.not_eq_true] at hnot
    obtain ⟨hgone, hempty⟩ := gzipFile_fullDevice hnot.1 hnot.2 content
    obtain ⟨copy, hcopy, hcomplete⟩ := h fullDevice (onlyFile content) [97] (if_pos rfl) hgone
    rw [hempty] at hcopy
    cases hcopy
    obtain ⟨body, hbody⟩ := hcomplete.trailer
    have hlength := congrArg length hbody
    rw [gzipTrailer, length_append, length_append, Bytes.leBytes_length,
      Bytes.leBytes_length, length_nil] at hlength
    omega
  · intro hkept device files src hsrc hgone
    exact absurd hgone (gzipFile_kept hkept device hsrc)

/-- The copy is complete and the source is safe exactly for contents that fit the input buffer and
whose checksum is read back, when the source is kept. -/
theorem compression_correct_iff (m : WideShifts) (opts : GzipOptions) (content : List UInt8) :
    (CompleteCopy m (deflateStream content) content ∧ RemovesSafely m opts content) ↔
      (content.length ≤ inBufSize ∧
        (akaosCrc32 0 content).toNat &&& m.ones = (akaosCrc32 0 content).toNat) ∧
      (opts.stdout ∨ opts.keep) := by
  rw [deflateStream_complete_iff, removesSafely_iff]

/-- One byte more than the buffer takes is lost on every machine.  For the content `a`, the copy is
not accepted where a shift by 32 is a shift by zero, and the source is not safe with the default
options. -/
theorem compression_fails :
    (∀ m, ¬ CompleteCopy m (deflateStream (replicate 65537 0)) (replicate 65537 0)) ∧
      ¬ CompleteCopy ⟨0, id⟩ (deflateStream [97]) [97] ∧
      ∀ m, ¬ RemovesSafely m ⟨false, false, false⟩ [97] := by
  refine ⟨fun m => ?_, ?_, fun m => ?_⟩
  · rw [deflateStream_complete_iff, length_replicate]
    exact fun h => absurd h.1 (by decide)
  · rw [deflateStream_complete_iff]
    decide
  · rw [removesSafely_iff]
    decide

end XsCore.Tools
