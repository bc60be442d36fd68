import Mathlib.Data.List.GetD
import Mathlib.Data.Nat.NthRoot.Defs
import XsCore.Foundation.BlockChain
import Mathlib.Algebra.Group.Nat.Defs

/-! # The digest of a package

`pkg` hashes a file in the pieces that `read` returns.  `Standard` states SHA-256 on a whole message:
padding, length and chaining, with the constants as roots of primes.
-/

namespace XsCore.Tools.Sha256

open BlockChain List Nat

variable (data : List UInt8)
variable {done rest : List UInt8}

abbrev Word := BitVec 32

structure Regs where
  (a b c d e f g h : Word)
  deriving DecidableEq

def Regs.add (x y : Regs) : Regs :=
  ⟨x.a + y.a, x.b + y.b, x.c + y.c, x.d + y.d, x.e + y.e, x.f + y.f, x.g + y.g, x.h + y.h⟩

def Regs.words (x : Regs) : List Word := [x.a, x.b, x.c, x.d, x.e, x.f, x.g, x.h]

/-! ## The standard -/

namespace Standard

def ch (x y z : Word) : Word := (x &&& y) ^^^ (~~~ x &&& z)
def maj (x y z : Word) : Word := (x &&& y) ^^^ (x &&& z) ^^^ (y &&& z)
def bigSigma0 (x : Word) : Word := x.rotateRight 2 ^^^ x.rotateRight 13 ^^^ x.rotateRight 22
def bigSigma1 (x : Word) : Word := x.rotateRight 6 ^^^ x.rotateRight 11 ^^^ x.rotateRight 25
def sigma0 (x : Word) : Word := x.rotateRight 7 ^^^ x.rotateRight 18 ^^^ x >>> 3
def sigma1 (x : Word) : Word := x.rotateRight 17 ^^^ x.rotateRight 19 ^^^ x >>> 10

def primes : List Nat :=
  [2, 3, 5, 7, 11, 13, 17, 19, 23, 29, 31, 37, 41, 43, 47, 53, 59, 61, 67, 71, 73, 79, 83, 89, 97,
   101, 103, 107, 109, 113, 127, 131, 137, 139, 149, 151, 157, 163, 167, 173, 179, 181, 191, 193,
   197, 199, 211, 223, 227, 229, 233, 239, 241, 251, 257, 263, 269, 271, 277, 281, 283, 293, 307,
   311]

/-- The first 32 bits of the fraction of the `n`-th root of a prime. -/
def rootBits (n p : Nat) : Word := BitVec.ofNat 32 (nthRoot n (p * 2 ^ (32 * n)))

def initial : Regs :=
  ⟨rootBits 2 2, rootBits 2 3, rootBits 2 5, rootBits 2 7, rootBits 2 11, rootBits 2 13,
    rootBits 2 17, rootBits 2 19⟩

def constant (t : Nat) : Word := rootBits 3 (primes.getD t 0)

/-- The words of a block, most significant byte first. -/
def message (block : List UInt8) (t : Nat) : Word :=
  (block.getD (4 * t) 0).toBitVec ++ (block.getD (4 * t + 1) 0).toBitVec ++
    (block.getD (4 * t + 2) 0).toBitVec ++ (block.getD (4 * t + 3) 0).toBitVec

def w (block : List UInt8) (t : Nat) : Word :=
  if t < 16 then message block t
  else sigma1 (w block (t - 2)) + w block (t - 7) + sigma0 (w block (t - 15)) + w block (t - 16)

def round (v : Regs) (k w : Word) : Regs :=
  let t1 := v.h + bigSigma1 v.e + ch v.e v.f v.g + k + w
  let t2 := bigSigma0 v.a + maj v.a v.b v.c
  ⟨t1 + t2, v.a, v.b, v.c, v.d + t1, v.e, v.f, v.g⟩

def compress (hash : Regs) (block : List UInt8) : Regs :=
  hash.add ((range 64).foldl (fun v t => round v (constant t) (w block t)) hash)

/-- The least number of zero bits after the one bit that leaves 64 bits of the last block. -/
def zeroBits (bits : Nat) : Nat := (448 + 512 - (bits + 1) % 512) % 512

def lengthBytes (bits : Nat) : List UInt8 :=
  (range 8).map fun i => UInt8.ofNat (bits / 256 ^ (7 - i))

/-- The one bit and seven zeros are the byte `0x80`. -/
def pad (m : List UInt8) : List UInt8 :=
  m ++ ([0x80] ++ replicate ((zeroBits (8 * m.length) - 7) / 8) 0 ++ lengthBytes (8 * m.length))

def digest (hash : Regs) : List UInt8 :=
  hash.words.flatMap fun x => (range 4).map fun i => UInt8.ofNat (x.toNat / 256 ^ (3 - i))

def sha256 (m : List UInt8) : List UInt8 := digest (chain 64 compress initial (pad m))

end Standard

/-! ## The code -/

def ror (x : Word) (n : Nat) : Word := x >>> n ||| x <<< (32 - n)

def K : List Word :=
  [0x428a2f98, 0x71374491, 0xb5c0fbcf, 0xe9b5dba5, 0x3956c25b, 0x59f111f1, 0x923f82a4, 0xab1c5ed5,
   0xd807aa98, 0x12835b01, 0x243185be, 0x550c7dc3, 0x72be5d74, 0x80deb1fe, 0x9bdc06a7, 0xc19bf174,
   0xe49b69c1, 0xefbe4786, 0x0fc19dc6, 0x240ca1cc, 0x2de92c6f, 0x4a7484aa, 0x5cb0a9dc, 0x76f988da,
   0x983e5152, 0xa831c66d, 0xb00327c8, 0xbf597fc7, 0xc6e00bf3, 0xd5a79147, 0x06ca6351, 0x14292967,
   0x27b70a85, 0x2e1b2138, 0x4d2c6dfc, 0x53380d13, 0x650a7354, 0x766a0abb, 0x81c2c92e, 0x92722c85,
   0xa2bfe8a1, 0xa81a664b, 0xc24b8b70, 0xc76c51a3, 0xd192e819, 0xd6990624, 0xf40e3585, 0x106aa070,
   0x19a4c116, 0x1e376c08, 0x2748774c, 0x34b0bcb5, 0x391c0cb3, 0x4ed8aa4a, 0x5b9cca4f, 0x682e6ff3,
   0x748f82ee, 0x78a5636f, 0x84c87814, 0x8cc70208, 0x90befffa, 0xa4506ceb, 0xbef9a3f7, 0xc67178f2]

def byte (data : List UInt8) (i : Nat) : Word := (data.getD i 0).toBitVec.setWidth 32

def loadWord (data : List UInt8) (i : Nat) : Word :=
  byte data (i * 4) <<< 24 ||| byte data (i * 4 + 1) <<< 16 ||| byte data (i * 4 + 2) <<< 8 |||
    byte data (i * 4 + 3)

def nextWord (W : List Word) (i : Nat) : Word :=
  let x := W.getD (i - 15) 0
  let y := W.getD (i - 2) 0
  let s0 := ror x 7 ^^^ ror x 18 ^^^ x >>> 3
  let s1 := ror y 17 ^^^ ror y 19 ^^^ y >>> 10
  W.getD (i - 16) 0 + s0 + W.getD (i - 7) 0 + s1

def schedule (data : List UInt8) : Nat → List Word
  | 0 => (range 16).map (loadWord data)
  | n + 1 => schedule data n ++ [nextWord (schedule data n) (16 + n)]

def round (v : Regs) (k w : Word) : Regs :=
  let S1 := ror v.e 6 ^^^ ror v.e 11 ^^^ ror v.e 25
  let ch := (v.e &&& v.f) ^^^ (~~~ v.e &&& v.g)
  let temp1 := v.h + S1 + ch + k + w
  let S0 := ror v.a 2 ^^^ ror v.a 13 ^^^ ror v.a 22
  let maj := (v.a &&& v.b) ^^^ (v.a &&& v.c) ^^^ (v.b &&& v.c)
  let temp2 := S0 + maj
  ⟨temp1 + temp2, v.a, v.b, v.c, v.d + temp1, v.e, v.f, v.g⟩

def transform (state : Regs) (data : List UInt8) : Regs :=
  let W := schedule data 48
  state.add ((range 64).foldl (fun v i => round v (K.getD i 0) (W.getD i 0)) state)

structure Ctx where
  state : Regs
  count : Nat
  buffer : List UInt8

variable {ctx : Ctx}

/-- `sha256_init` leaves the buffer as it is. -/
def init (buffer : List UInt8) : Ctx where
  state := ⟨0x6a09e667, 0xbb67ae85, 0x3c6ef372, 0xa54ff53a, 0x510e527f, 0x9b05688c, 0x1f83d9ab,
    0x5be0cd19⟩
  count := 0
  buffer := buffer

def put (buffer : List UInt8) (at_ : Nat) (bytes : List UInt8) : List UInt8 :=
  buffer.take at_ ++ (bytes ++ buffer.drop (at_ + bytes.length))

/-- The end of `sha256_update`: whole blocks straight from the data, the rest into the buffer. -/
def Ctx.absorb (ctx : Ctx) (data : List UInt8) : Ctx :=
  if 64 ≤ data.length then
    { ctx with state := transform ctx.state (data.take 64) }.absorb (data.drop 64)
  else { ctx with buffer := put ctx.buffer 0 data }
termination_by data.length
decreasing_by simp; omega

def update (ctx : Ctx) (data : List UInt8) : Ctx :=
  let used := ctx.count % 64
  let count := (ctx.count + data.length) % 2 ^ 64
  if used = 0 then { ctx with count := count }.absorb data
  else if data.length < 64 - used then
    { ctx with count := count, buffer := put ctx.buffer used data }
  else
    let buffer := put ctx.buffer used (data.take (64 - used))
    { state := transform ctx.state buffer, count := count, buffer := buffer : Ctx }.absorb
      (data.drop (64 - used))

/-- The end of `sha256_final`: zeros from `used` on, the length, and the digest. -/
def Ctx.finish (ctx : Ctx) (used : Nat) : List UInt8 :=
  let zeroed := put ctx.buffer used (replicate (56 - used) 0)
  let bitLen := ctx.count * 8 % 2 ^ 64
  let block := put zeroed 56 ((range 8).map fun i => UInt8.ofNat (bitLen >>> (56 - i * 8)))
  (transform ctx.state block).words.flatMap fun (x : Word) =>
    (range 4).map fun i => UInt8.ofNat (x >>> (24 - i * 8)).toNat

def final (ctx : Ctx) : List UInt8 :=
  let used := ctx.count % 64
  let buffer := put ctx.buffer used [0x80]
  if 56 < used + 1 then
    let full := put buffer (used + 1) (replicate (64 - (used + 1)) 0)
    { ctx with state := transform ctx.state full, buffer := full }.finish 0
  else { ctx with buffer := buffer }.finish (used + 1)

/-! ## One block -/

theorem ror_eq (x : Word) {n : Nat} (h : n < 32) : ror x n = x.rotateRight n := by
  rw [ror, BitVec.rotateRight_def, mod_eq_of_lt h]

theorem constants : ∀ i < 64, K.getD i 0 = Standard.constant i := by decide +kernel

theorem loadWord_eq (i : Nat) : loadWord data i = Standard.message data i := by
  have hbyte : ∀ (b : BitVec 8) (k : Nat), k ≤ 24 →
      (b.setWidth 32 <<< k).toNat = b.toNat <<< k := by
    intro b k hk
    have hsmall : b.toNat <<< k < 2 ^ 32 := by
      rw [shiftLeft_eq]
      calc b.toNat * 2 ^ k ≤ b.toNat * 2 ^ 24 :=
            Nat.mul_le_mul_left _ (Nat.pow_le_pow_right (by decide) hk)
        _ < 2 ^ 8 * 2 ^ 24 := Nat.mul_lt_mul_of_pos_right b.isLt (by decide)
    rw [BitVec.toNat_shiftLeft, BitVec.toNat_setWidth_of_le (by decide), mod_eq_of_lt hsmall]
  apply BitVec.eq_of_toNat_eq
  have hlast := hbyte (data.getD (4 * i + 3) 0).toBitVec 0 (by omega)
  simp only [BitVec.shiftLeft_zero, shiftLeft_zero] at hlast
  simp only [loadWord, byte, Standard.message, Nat.mul_comm i 4, BitVec.toNat_or,
    BitVec.toNat_append, hbyte _ 24 (by omega), hbyte _ 16 (by omega), hbyte _ 8 (by omega), hlast,
    shiftLeft_or_distrib, ← shiftLeft_add]

theorem schedule_length (n : Nat) : (schedule data n).length = 16 + n := by
  induction n with
  | zero => simp [schedule]
  | succ n ih => simp [schedule, ih]; omega

theorem schedule_get (n : Nat) : ∀ t < 16 + n, (schedule data n).getD t 0 = Standard.w data t := by
  induction n with
  | zero =>
    intro t ht
    rw [Standard.w, if_pos ht, ← loadWord_eq]
    simp [schedule, getD, ht]
  | succ n ih =>
    intro t ht
    have hlength := schedule_length data n
    rw [schedule]
    by_cases hold : t < 16 + n
    · rw [getD_append _ _ _ _ (by omega), ih t hold]
    have hlast : t = 16 + n := by omega
    have hword := fun k (hk : 0 < k ∧ k ≤ 16) => ih (16 + n - k) (by omega)
    rw [hlast, getD_append_right _ _ _ _ (by omega), hlength, Nat.sub_self,
      getD_cons_zero, nextWord, Standard.w, if_neg (by omega)]
    simp only [hword 15 (by omega), hword 2 (by omega), hword 16 (by omega),
      hword 7 (by omega), ror_eq _ (show 7 < 32 by omega), ror_eq _ (show 18 < 32 by omega),
      ror_eq _ (show 17 < 32 by omega), ror_eq _ (show 19 < 32 by omega)]
    rw [Standard.sigma0, Standard.sigma1]
    ac_rfl

theorem round_eq (v : Regs) (k w : Word) : round v k w = Standard.round v k w := by
  simp only [round, Standard.round, Standard.bigSigma0, Standard.bigSigma1, Standard.ch,
    Standard.maj, ror_eq _ (show 6 < 32 by omega), ror_eq _ (show 11 < 32 by omega),
    ror_eq _ (show 25 < 32 by omega), ror_eq _ (show 2 < 32 by omega),
    ror_eq _ (show 13 < 32 by omega), ror_eq _ (show 22 < 32 by omega)]

theorem transform_eq : transform = Standard.compress := by
  funext state data
  rw [transform, Standard.compress]
  apply congrArg state.add
  apply foldl_ext
  intro v i hi
  have hi : i < 64 := mem_range.mp hi
  rw [round_eq, constants i hi, schedule_get data 48 i hi]

/-! ## Whole messages -/

theorem put_append (a stale bytes : List UInt8) :
    put (a ++ stale) a.length bytes = a ++ (bytes ++ stale.drop bytes.length) := by
  simp [put, drop_append]

/-- The context holds the message `done ++ rest`: whole blocks are in the state, the rest is at the
front of the buffer. -/
structure Holds (ctx : Ctx) (start : Regs) (done rest : List UInt8) : Prop where
  blocks : ∃ k, done.length = 64 * k
  short : rest.length < 64
  state : ctx.state = chain 64 transform start done
  buffer : ∃ stale, ctx.buffer = rest ++ stale
  size : ctx.buffer.length = 64

theorem absorb_holds (ctx : Ctx) (data : List UInt8) (hsize : ctx.buffer.length = 64) :
    (ctx.absorb data).count = ctx.count ∧
      ∃ done rest, data = done ++ rest ∧ Holds (ctx.absorb data) ctx.state done rest := by
  fun_induction Ctx.absorb ctx data with
  | case1 ctx data hlong ih =>
    obtain ⟨hcount, done, rest, hdata, hholds⟩ := ih hsize
    have hblock : (data.take 64).length = 64 := by simp [hlong]
    refine ⟨hcount, data.take 64 ++ done, rest, ?_, ?_⟩
    · rw [append_assoc, ← hdata, take_append_drop]
    · obtain ⟨k, hk⟩ := hholds.blocks
      exact
        { hholds with
          blocks := ⟨k + 1, by simp only [length_append, hblock, hk]; omega⟩
          state := by rw [hholds.state, chain_block _ _ (by decide) hblock] }
  | case2 ctx data hshort =>
    refine ⟨rfl, [], data, rfl, ⟨0, rfl⟩, by omega, (chain_short _ (by simp)).symm, ?_, ?_⟩
    · exact ⟨_, put_append [] ctx.buffer data⟩
    · simp [put]
      omega

theorem Holds.append {start middle : Regs} {before : List UInt8} {k : Nat}
    (hbefore : before.length = 64 * k) (hmiddle : middle = chain 64 transform start before)
    (h : Holds ctx middle done rest) : Holds ctx start (before ++ done) rest := by
  obtain ⟨j, hj⟩ := h.blocks
  exact
    { h with
      blocks := ⟨k + j, by simp only [length_append, hbefore, hj]; omega⟩
      state := by rw [h.state, hmiddle, chain_append _ _ (by decide) hbefore] }

theorem update_holds {start : Regs}
    (h : Holds ctx start done rest) (hcount : ctx.count = (done ++ rest).length % 2 ^ 64) :
    (update ctx data).count = ((done ++ rest) ++ data).length % 2 ^ 64 ∧
      ∃ done' rest', (done ++ rest) ++ data = done' ++ rest' ∧
        Holds (update ctx data) start done' rest' := by
  obtain ⟨k, hk⟩ := h.blocks
  obtain ⟨stale, hstale⟩ := h.buffer
  have hshort := h.short
  have hsize := h.size
  have hused : ctx.count % 64 = rest.length := by
    rw [hcount, length_append, hk]
    omega
  have htotal : (ctx.count + data.length) % 2 ^ 64 = ((done ++ rest) ++ data).length % 2 ^ 64 := by
    rw [hcount]
    simp only [length_append]
    omega
  rw [hstale, length_append] at hsize
  unfold update
  simp only [hused]
  split_ifs with hnone hfits
  · have hrest : rest = [] := length_eq_zero_iff.mp hnone
    have habsorb := absorb_holds { ctx with count := (ctx.count + data.length) % 2 ^ 64 } data h.size
    obtain ⟨done', rest', hdata, hholds⟩ := habsorb.2
    refine ⟨habsorb.1.trans htotal, done ++ done', rest', ?_, hholds.append hk h.state⟩
    rw [hrest, hdata, append_nil, append_assoc]
  · refine ⟨htotal, done, rest ++ data, by rw [append_assoc], ?_⟩
    have hput := put_append rest stale data
    rw [← hstale] at hput
    refine ⟨h.blocks, by simp; omega, h.state, ⟨_, by rw [hput, ← append_assoc]⟩, ?_⟩
    simp only [hput, length_append, length_drop]
    omega
  have hfill : (data.take (64 - rest.length)).length = 64 - rest.length := by simp; omega
  have hput := put_append rest stale (data.take (64 - rest.length))
  rw [← hstale, hfill, drop_eq_nil_of_le (by omega), append_nil] at hput
  have hblock : (rest ++ data.take (64 - rest.length)).length = 64 := by
    rw [length_append, hfill]
    omega
  rw [hput]
  have habsorb := absorb_holds
    ⟨transform ctx.state (rest ++ data.take (64 - rest.length)),
      (ctx.count + data.length) % 2 ^ 64, rest ++ data.take (64 - rest.length)⟩
    (data.drop (64 - rest.length)) hblock
  obtain ⟨done', rest', hdata, hholds⟩ := habsorb.2
  refine ⟨habsorb.1.trans htotal, (done ++ (rest ++ data.take (64 - rest.length))) ++ done', rest',
    ?_, hholds.append (k := k + 1) ?_ ?_⟩
  · rw [append_assoc _ done', ← hdata, append_assoc, append_assoc, append_assoc, take_append_drop]
  · rw [length_append, hblock, hk]
    omega
  · rw [chain_append _ _ (by decide) hk, chain_one _ (by decide) hblock, ← h.state]

theorem finish_eq {a stale : List UInt8} {used : Nat} (hused : a.length = used)
    (hbuffer : ctx.buffer = a ++ stale) (hsize : ctx.buffer.length = 64) (hroom : used ≤ 56)
    (hlimit : 8 * ctx.count < 2 ^ 64) : ctx.finish used = Standard.digest (transform ctx.state
      (a ++ replicate (56 - used) 0 ++ Standard.lengthBytes (8 * ctx.count))) := by
  subst hused
  have hzeroed : (a ++ replicate (56 - a.length) (0 : UInt8)).length = 56 := by simp; omega
  have hlength : (range 8).map (fun i => UInt8.ofNat
      ((ctx.count * 8 % 2 ^ 64) >>> (56 - i * 8))) = Standard.lengthBytes (8 * ctx.count) := by
    rw [Nat.mul_comm, Nat.mod_eq_of_lt hlimit]
    simp [Standard.lengthBytes, range_succ, shiftRight_eq_div_pow]
  rw [hbuffer, length_append] at hsize
  have hnone : (stale.drop (56 - a.length)).drop (Standard.lengthBytes (8 * ctx.count)).length =
      [] := by
    simp [Standard.lengthBytes]
    omega
  have hfull := put_append (a ++ replicate (56 - a.length) 0) (stale.drop (56 - a.length))
    (Standard.lengthBytes (8 * ctx.count))
  rw [hzeroed, hnone, append_nil] at hfull
  simp only [Ctx.finish, hbuffer, put_append, length_replicate, hlength]
  rw [← append_assoc, hfull]
  simp [Standard.digest, range_succ, shiftRight_eq_div_pow]

theorem final_eq (h : Holds ctx Standard.initial done rest)
    (hcount : ctx.count = (done ++ rest).length) (hlimit : 8 * (done ++ rest).length < 2 ^ 64) :
    final ctx = Standard.sha256 (done ++ rest) := by
  obtain ⟨k, hk⟩ := h.blocks
  obtain ⟨stale, hstale⟩ := h.buffer
  have hshort := h.short
  have hsize := h.size
  have hused : ctx.count % 64 = rest.length := by
    rw [hcount, length_append, hk]
    omega
  have hfirst := put_append rest stale [0x80]
  rw [← hstale, ← append_assoc] at hfirst
  have hzeros : (Standard.zeroBits (8 * (done ++ rest).length) - 7) / 8 =
      if 56 < rest.length + 1 then 64 - (rest.length + 1) + 56 else 56 - (rest.length + 1) := by
    rw [Standard.zeroBits, length_append, hk]
    split_ifs <;> omega
  rw [hstale, length_append] at hsize
  rw [Standard.sha256, Standard.pad, hzeros, append_assoc,
    chain_append _ _ (by decide) hk, ← transform_eq, ← h.state, ← hcount]
  have hmarked : (rest ++ [0x80]).length = rest.length + 1 := by simp
  simp only [final, hused, hfirst]
  split_ifs with hlong
  · have hfull : put (rest ++ [0x80] ++ stale.drop 1) (rest.length + 1)
        (replicate (64 - (rest.length + 1)) 0) =
          rest ++ [0x80] ++ replicate (64 - (rest.length + 1)) 0 := by
      rw [← hmarked, put_append, drop_eq_nil_of_le (by simp; omega), append_nil]
    have hblock : (rest ++ [0x80] ++ replicate (64 - (rest.length + 1)) (0 : UInt8)).length =
        64 := by
      simp
      omega
    simp only [length_singleton, hfull]
    refine (finish_eq (a := []) rfl rfl hblock (by simp) (by rw [hcount]; exact hlimit)).trans ?_
    have hlast : (replicate 56 (0 : UInt8) ++ Standard.lengthBytes (8 * ctx.count)).length =
        64 := by
      simp [Standard.lengthBytes]
    have hsplit : rest ++ ([0x80] ++ replicate (64 - (rest.length + 1) + 56) 0 ++
        Standard.lengthBytes (8 * ctx.count)) =
          (rest ++ [0x80] ++ replicate (64 - (rest.length + 1)) 0) ++
            (replicate 56 0 ++ Standard.lengthBytes (8 * ctx.count)) := by
      simp [replicate_add]
    rw [hsplit, chain_block _ _ (by decide) hblock, chain_one _ (by decide) hlast]
    rfl
  · refine (finish_eq (a := rest ++ [0x80]) hmarked rfl (by simp; omega) (by omega)
      (by rw [hcount]; exact hlimit)).trans ?_
    have hblock : (rest ++ ([0x80] ++ replicate (56 - (rest.length + 1)) 0 ++
        Standard.lengthBytes (8 * ctx.count))).length = 64 := by
      simp [Standard.lengthBytes]
      omega
    rw [chain_one _ (by decide) hblock]
    simp

/-- However a file is cut into pieces, its digest is that of the standard. -/
theorem digest_eq (junk : List UInt8) (hjunk : junk.length = 64) (chunks : List (List UInt8))
    (hlimit : 8 * chunks.flatten.length < 2 ^ 64) :
    final (chunks.foldl update (init junk)) = Standard.sha256 chunks.flatten := by
  have hrun : ∀ (ctx : Ctx) (done rest : List UInt8), Holds ctx Standard.initial done rest →
      ctx.count = (done ++ rest).length % 2 ^ 64 →
      (chunks.foldl update ctx).count = ((done ++ rest) ++ chunks.flatten).length % 2 ^ 64 ∧
        ∃ done' rest', (done ++ rest) ++ chunks.flatten = done' ++ rest' ∧
          Holds (chunks.foldl update ctx) Standard.initial done' rest' := by
    clear hlimit
    induction chunks with
    | nil =>
      intro ctx done rest h hcount
      rw [flatten_nil, append_nil]
      exact ⟨hcount, done, rest, rfl, h⟩
    | cons data chunks ih =>
      intro ctx done rest h hcount
      obtain ⟨hcount', done', rest', hdata, hholds⟩ := update_holds data h hcount
      rw [hdata] at hcount'
      have hrest := ih (update ctx data) done' rest' hholds hcount'
      rw [← hdata, append_assoc] at hrest
      exact hrest
  have hinitial : (init []).state = Standard.initial := by decide +kernel
  have hstart : Holds (init junk) Standard.initial [] [] :=
    ⟨⟨0, rfl⟩, by decide, by rw [chain_short _ (by simp)]; exact hinitial, ⟨junk, rfl⟩, hjunk⟩
  obtain ⟨hcount, done, rest, hmessage, hholds⟩ := hrun (init junk) [] [] hstart rfl
  simp only [nil_append] at hcount hmessage
  rw [hmessage] at hcount hlimit ⊢
  rw [mod_eq_of_lt (by omega)] at hcount
  exact final_eq hholds hcount hlimit

/-- Three bytes in two pieces. -/
theorem digest_eq_abc : final ([[97], [98, 99]].foldl update (init (replicate 64 0))) =
      Standard.sha256 [97, 98, 99] :=
  digest_eq (replicate 64 0) (by simp) [[97], [98, 99]] (by simp)

end XsCore.Tools.Sha256
