import XsCore.Foundation.Bytes
import XsCore.Foundation.Alignment
import Mathlib.Algebra.Group.Prod
import Mathlib.Data.List.TakeWhile

/-! # The D-Bus body codec

`userspace/libc/src/dbus_codec.c`.  A cursor into a signature is the rest of it, a reader is its
offset with the bytes from there on.  Depth is counted down: `maxDepth + 1` levels are past where
the source has depth zero.  A loop over a signature or a payload moves on by a byte or more each
time, so that its length bounds the rounds.

`marshalType_back` is the round trip of one value, by induction on the levels: the bytes appended
at an offset are validated and decoded there, whatever follows them.
-/

namespace XsCore.Libc.Dbus

open Bytes Alignment List Option

variable {n fuel count : Nat} {step : List UInt8 → Option (List UInt8)} {stop : List UInt8 → Bool}
  {sig past rest : List UInt8}

def maxDepth : Nat := 32

def maxSignature : Nat := 255

structure Text where
  bytes : List UInt8
  noZero : 0 ∉ bytes

def Text.ofBytes (bytes : List UInt8) : Text :=
  ⟨bytes.takeWhile (· != 0), fun h => absurd (mem_takeWhile_imp h) (by decide)⟩

inductive Number
  | byte
  | int16
  | uint16
  | int32
  | uint32
  | unixFd
  | int64
  | uint64
  | doubleBits
  deriving DecidableEq

def Number.width : Number → Nat
  | byte => 1
  | int16 | uint16 => 2
  | int32 | uint32 | unixFd => 4
  | int64 | uint64 | doubleBits => 8

inductive TextKind
  | string
  | objectPath
  | signature
  deriving DecidableEq

inductive Value
  | boolean (value : BitVec 32)
  | number (kind : Number) (bits : BitVec (8 * kind.width))
  | text (kind : TextKind) (text : Text)
  | array (children : List Value)
  | struct (children : List Value)
  | dictEntry (children : List Value)
  | variant (signature : Text) (children : List Value)

inductive Code
  | boolean
  | number (kind : Number)
  | text (kind : TextKind)
  | variant
  | array
  | struct
  | dict
  | other

def code (c : UInt8) : Code :=
  if c = 121 then .number .byte
  else if c = 98 then .boolean
  else if c = 110 then .number .int16
  else if c = 113 then .number .uint16
  else if c = 105 then .number .int32
  else if c = 117 then .number .uint32
  else if c = 104 then .number .unixFd
  else if c = 120 then .number .int64
  else if c = 116 then .number .uint64
  else if c = 100 then .number .doubleBits
  else if c = 115 then .text .string
  else if c = 111 then .text .objectPath
  else if c = 103 then .text .signature
  else if c = 118 then .variant
  else if c = 97 then .array
  else if c = 40 then .struct
  else if c = 123 then .dict
  else .other

def Code.basic : Code → Bool
  | boolean | number _ | text _ => true
  | _ => false

def Code.alignment : Code → Nat
  | boolean | array | text .string | text .objectPath => 4
  | number kind => kind.width
  | text .signature | variant => 1
  | struct | dict => 8
  | other => 0

/-! ## Signatures, paths and text -/

/-- Types in a row, up to a place where the walk stops: how many, and what is left. -/
def parseRun (step : List UInt8 → Option (List UInt8)) (stop : List UInt8 → Bool) :
    Nat → List UInt8 → Option (Nat × List UInt8)
  | 0, sig => if stop sig then some (0, sig) else none
  | fuel + 1, sig =>
    if stop sig then some (0, sig)
    else do
      let sig ← step sig
      let (count, sig) ← parseRun step stop fuel sig
      some (count + 1, sig)

def closes (sig : List UInt8) : Bool := sig == [] || sig.head? == some 41

def parseType : Nat → Bool → List UInt8 → Option (List UInt8)
  | 0 => fun _ _ => none
  | levels + 1 => fun dictionaryAllowed sig =>
    match sig with
    | [] => none
    | c :: sig =>
      if (code c).basic then some sig
      else
        match code c with
        | .variant => some sig
        | .array => parseType levels true sig
        | .struct => do
          let (children, sig) ← parseRun (parseType levels false) closes sig.length sig
          if children ≠ 0 ∧ sig.head? = some 41 then some sig.tail else none
        | .dict =>
          match sig with
          | [] => none
          | key :: sig =>
            if dictionaryAllowed = true ∧ (code key).basic = true then do
              let sig ← parseType levels false sig
              if sig.head? = some 125 then some sig.tail else none
            else none
        | _ => none

def nextType (dictionaryAllowed : Bool) (sig : List UInt8) : Option (List UInt8) :=
  parseType (maxDepth + 1) dictionaryAllowed sig

def signatureValidate (sig : List UInt8) : Option Nat :=
  if sig.length ≤ maxSignature then (parseRun (nextType false) (· == []) sig.length sig).map (·.1)
  else none

/-- The components of an object path; `fresh` at the start of one. -/
def pathLoop (fresh : Bool) : List UInt8 → Bool
  | [] => !fresh
  | c :: path =>
    if c = 47 then !fresh && pathLoop true path
    else if 65 ≤ c ∧ c ≤ 90 ∨ 97 ≤ c ∧ c ≤ 122 ∨ 48 ≤ c ∧ c ≤ 57 ∨ c = 95 then pathLoop false path
    else false

def validObjectPath : List UInt8 → Bool
  | [] => false
  | c :: path => c == 47 && (path == [] || pathLoop true path)

def codepointOk (minimum start : Nat) (tail : List UInt8) : Bool :=
  let codepoint := tail.foldl (fun point c => point * 64 + c.toNat % 64) start
  tail.all (fun c => c.toNat / 64 == 2) && decide (minimum ≤ codepoint) &&
    decide (codepoint ≤ 0x10ffff) && !(decide (0xd800 ≤ codepoint) && decide (codepoint ≤ 0xdfff))

def validUtf8 : List UInt8 → Bool
  | [] => true
  | lead :: text =>
    if lead ≤ 0x7f then validUtf8 text
    else if 0xc2 ≤ lead ∧ lead ≤ 0xdf then
      match text with
      | a :: text => codepointOk 0x80 (lead.toNat % 32) [a] && validUtf8 text
      | _ => false
    else if 0xe0 ≤ lead ∧ lead ≤ 0xef then
      match text with
      | a :: b :: text => codepointOk 0x800 (lead.toNat % 16) [a, b] && validUtf8 text
      | _ => false
    else if 0xf0 ≤ lead ∧ lead ≤ 0xf4 then
      match text with
      | a :: b :: c :: text => codepointOk 0x10000 (lead.toNat % 8) [a, b, c] && validUtf8 text
      | _ => false
    else false

/-! ## Writing -/

structure Writer where
  bytes : List UInt8
  capacity : Nat

def alignWriter (alignment : Nat) (w : Writer) : Option Writer :=
  let aligned := alignUp alignment w.bytes.length
  if 0 < alignment ∧ aligned ≤ w.capacity then
    some { w with bytes := w.bytes ++ List.replicate (aligned - w.bytes.length) 0 }
  else none

def writeBytes (bytes : List UInt8) (w : Writer) : Option Writer :=
  if bytes.length ≤ w.capacity - w.bytes.length then some { w with bytes := w.bytes ++ bytes }
  else none

def wordBytes (big : Bool) (width n : Nat) : List UInt8 :=
  if big then (leBytes width n).reverse else leBytes width n

def writeString (big : Bool) (text : List UInt8) (w : Writer) : Option Writer :=
  if text.length < 2 ^ 32 ∧ validUtf8 text = true then do
    let w ← alignWriter 4 w
    let w ← writeBytes (wordBytes big 4 text.length) w
    let w ← writeBytes text w
    writeBytes [0] w
  else none

def writeSignature (sig : List UInt8) (w : Writer) : Option Writer :=
  if sig.length ≤ maxSignature then do
    let w ← writeBytes (wordBytes false 1 sig.length) w
    let w ← writeBytes sig w
    writeBytes [0] w
  else none

/-- The basic types of `codec_marshal_type`.  Nothing is padded in front of a single byte. -/
def marshalBasic (big : Bool) : Code → Value → Writer → Option Writer
  | .boolean, .boolean value, w => do
    let w ← alignWriter 4 w
    writeBytes (wordBytes big 4 (if value = 0 then 0 else 1)) w
  | .number kind, .number kind' bits, w =>
    if kind = kind' then do
      let w ← alignWriter kind.width w
      writeBytes (wordBytes big kind.width bits.toNat) w
    else none
  | .text .string, .text .string text, w => writeString big text.bytes w
  | .text .objectPath, .text .objectPath text, w =>
    if validObjectPath text.bytes then writeString big text.bytes w else none
  | .text .signature, .text .signature text, w =>
    if (signatureValidate text.bytes).isSome then writeSignature text.bytes w else none
  | _, _, _ => none

/-- Values in a row, one for each type up to the place where the walk stops. -/
def marshalRun (step : List UInt8 → Value → Writer → Option (List UInt8 × Writer))
    (stop : List UInt8 → Bool) : List UInt8 → List Value → Writer → Option (List UInt8 × Writer)
  | sig, [], w => if stop sig then some (sig, w) else none
  | sig, value :: values, w =>
    if stop sig then none
    else do
      let (sig, w) ← step sig value w
      marshalRun step stop sig values w

def marshalElements (step : Value → Writer → Option (List UInt8 × Writer))
    (childEnd : List UInt8) : List Value → Writer → Option Writer
  | [], w => some w
  | value :: values, w => do
    let (sig, w) ← step value w
    if sig = childEnd then marshalElements step childEnd values w else none

def marshalType (big : Bool) : Nat → List UInt8 → Value → Writer → Option (List UInt8 × Writer)
  | 0 => fun _ _ _ => none
  | levels + 1 => fun sig value w =>
    match sig with
    | [] => none
    | c :: sig =>
      if (code c).basic then (marshalBasic big (code c) value w).map fun w => (sig, w)
      else
        match code c, value with
        | .variant, .variant signature [child] =>
          if signatureValidate signature.bytes = some 1 then do
            let w ← writeSignature signature.bytes w
            let (past, w) ← marshalType big levels signature.bytes child w
            if past = [] then some (sig, w) else none
          else none
        | .array, .array children => do
          let childEnd ← nextType true sig
          let w ← alignWriter 4 w
          let lengthOffset := w.bytes.length
          let w ← writeBytes (wordBytes big 4 0) w
          let w ← alignWriter ((sig.head?.map code).getD .other).alignment w
          let payloadOffset := w.bytes.length
          let w ← marshalElements (marshalType big levels sig) childEnd children w
          let payloadLength := w.bytes.length - payloadOffset
          if payloadLength < 2 ^ 32 then
            some (childEnd, { w with
              bytes := w.bytes.take lengthOffset ++ wordBytes big 4 payloadLength ++
                w.bytes.drop (lengthOffset + 4) })
          else none
        | .struct, .struct children => do
          let w ← alignWriter 8 w
          let (sig, w) ← marshalRun (marshalType big levels) closes sig children w
          if sig.head? = some 41 then some (sig.tail, w) else none
        | .dict, .dictEntry [key, item] => do
          let w ← alignWriter 8 w
          let (sig, w) ← marshalType big levels sig key w
          let (sig, w) ← marshalType big levels sig item w
          if sig.head? = some 125 then some (sig.tail, w) else none
        | _, _ => none

def marshal (big : Bool) (sig : Text) (values : List Value) (capacity : Nat) :
    Option (List UInt8) := do
  let count ← signatureValidate sig.bytes
  if count = values.length then do
    let (_, w) ← marshalRun (marshalType big (maxDepth + 1)) (· == []) sig.bytes values ⟨[], capacity⟩
    some w.bytes
  else none

/-! ## Reading -/

structure Reader where
  offset : Nat
  rest : List UInt8

def advance (n : Nat) (r : Reader) : Reader := ⟨r.offset + n, r.rest.drop n⟩

def alignReader (alignment : Nat) (r : Reader) : Option Reader :=
  let padding := alignUp alignment r.offset - r.offset
  if 0 < alignment ∧ padding ≤ r.rest.length then some (advance padding r) else none

def readWord (big : Bool) (width : Nat) (r : Reader) : Option (Nat × Reader) :=
  if width ≤ r.rest.length then
    some (leValue (if big then (r.rest.take width).reverse else r.rest.take width), advance width r)
  else none

/-- A string behind its length, with the tests that `codec_validate_type` and
`codec_decode_string_value` make of it. -/
def readString (big objectPath : Bool) (r : Reader) : Option (List UInt8 × Reader) := do
  let r ← alignReader 4 r
  let (length, r) ← readWord big 4 r
  let text := r.rest.take length
  if length + 1 ≤ r.rest.length ∧ r.rest[length]? = some 0 ∧ 0 ∉ text ∧ validUtf8 text = true ∧
      (objectPath = true → validObjectPath text = true) then
    some (text, advance (length + 1) r)
  else none

def readSignature (r : Reader) : Option (List UInt8 × Reader) := do
  let (length, r) ← readWord false 1 r
  let text := r.rest.take length
  if length + 1 ≤ r.rest.length ∧ r.rest[length]? = some 0 ∧
      (signatureValidate (Text.ofBytes text).bytes).isSome = true then
    some (text, advance (length + 1) r)
  else none

def validateBasic (big : Bool) : Code → Reader → Option Reader
  | .boolean, r => do
    let r ← alignReader 4 r
    let (value, r) ← readWord big 4 r
    if value ≤ 1 then some r else none
  | .number kind, r => do
    let r ← alignReader kind.width r
    (readWord big kind.width r).map (·.2)
  | .text .signature, r => (readSignature r).map (·.2)
  | .text kind, r => (readString big (kind == .objectPath) r).map (·.2)
  | _, _ => none

def validateRun (step : List UInt8 → Reader → Option (List UInt8 × Reader))
    (stop : List UInt8 → Bool) : Nat → List UInt8 → Reader → Option (List UInt8 × Reader)
  | 0, sig, r => if stop sig then some (sig, r) else none
  | fuel + 1, sig, r =>
    if stop sig then some (sig, r)
    else do
      let (sig, r) ← step sig r
      validateRun step stop fuel sig r

def validateElements (step : Reader → Option (List UInt8 × Reader)) (childEnd : List UInt8)
    (payloadEnd : Nat) : Nat → Reader → Option (Nat × Reader)
  | 0, _ => none
  | fuel + 1, r =>
    if r.offset < payloadEnd then do
      let (sig, r) ← step r
      if sig = childEnd ∧ r.offset ≤ payloadEnd then do
        let (count, r) ← validateElements step childEnd payloadEnd fuel r
        some (count + 1, r)
      else none
    else if r.offset = payloadEnd then some (0, r) else none

def readArray (big : Bool) (sig : List UInt8) (r : Reader) : Option (Nat × Reader) := do
  let r ← alignReader 4 r
  let (payloadLength, r) ← readWord big 4 r
  let r ← alignReader ((sig.head?.map code).getD .other).alignment r
  if payloadLength ≤ r.rest.length then some (payloadLength, r) else none

def validateType (big : Bool) : Nat → List UInt8 → Reader → Option (List UInt8 × Reader)
  | 0 => fun _ _ => none
  | levels + 1 => fun sig r =>
    match sig with
    | [] => none
    | c :: sig =>
      if (code c).basic then (validateBasic big (code c) r).map fun r => (sig, r)
      else
        match code c with
        | .variant => do
          let (child, r) ← readSignature r
          if signatureValidate (Text.ofBytes child).bytes = some 1 then do
            let (past, r) ← validateType big levels child r
            if past = [] then some (sig, r) else none
          else none
        | .array => do
          let childEnd ← nextType true sig
          let (payloadLength, r) ← readArray big sig r
          let (_, r) ← validateElements (validateType big levels sig) childEnd
            (r.offset + payloadLength) (payloadLength + 1) r
          some (childEnd, r)
        | .struct => do
          let r ← alignReader 8 r
          let (sig, r) ← validateRun (validateType big levels) closes sig.length sig r
          if sig.head? = some 41 then some (sig.tail, r) else none
        | .dict => do
          let r ← alignReader 8 r
          let (sig, r) ← validateType big levels sig r
          let (sig, r) ← validateType big levels sig r
          if sig.head? = some 125 then some (sig.tail, r) else none
        | _ => none

def validate (big : Bool) (sig : Text) (body : List UInt8) : Option Nat := do
  let _ ← signatureValidate sig.bytes
  let (_, r) ← validateRun (validateType big (maxDepth + 1)) (· == []) sig.bytes.length sig.bytes
    ⟨0, body⟩
  if r.rest = [] then some r.offset else none

/-! ## Decoding -/

/-- `struct akaos_dbus_decode_context`: the values and, with a string store, the bytes left. -/
structure Context where
  values : Nat
  text : Option Nat

def Context.spend (ctx : Context) (need : Nat × Nat) : Context :=
  ⟨ctx.values - need.1, ctx.text.map (· - need.2)⟩

def Context.Holds (ctx : Context) (need : Nat × Nat) : Prop :=
  need.1 ≤ ctx.values ∧ ∀ room ∈ ctx.text, need.2 ≤ room

instance (ctx : Context) (need : Nat × Nat) : Decidable (ctx.Holds need) :=
  inferInstanceAs (Decidable (_ ∧ _))

def Context.take (ctx : Context) (need : Nat × Nat) : Option Context :=
  if ctx.Holds need then some (ctx.spend need) else none

def decodeBasic (big : Bool) : Code → Reader → Context → Option (Value × Reader × Context)
  | .boolean, r, ctx => do
    let r ← alignReader 4 r
    let (value, r) ← readWord big 4 r
    if value ≤ 1 then some (.boolean (if value = 0 then 0 else 1), r, ctx) else none
  | .number kind, r, ctx => do
    let r ← alignReader kind.width r
    let (value, r) ← readWord big kind.width r
    some (.number kind (BitVec.ofNat _ value), r, ctx)
  | .text kind, r, ctx => do
    let (text, r) ← if kind = .signature then readSignature r
      else readString big (kind == .objectPath) r
    let ctx ← ctx.take (0, text.length + 1)
    some (.text kind (Text.ofBytes text), r, ctx)
  | _, _, _ => none

def decodeRun
    (step : List UInt8 → Reader → Context → Option (Value × List UInt8 × Reader × Context)) :
    Nat → List UInt8 → Reader → Context → Option (List Value × List UInt8 × Reader × Context)
  | 0, sig, r, ctx => some ([], sig, r, ctx)
  | count + 1, sig, r, ctx => do
    let (value, sig, r, ctx) ← step sig r ctx
    let (values, sig, r, ctx) ← decodeRun step count sig r ctx
    some (value :: values, sig, r, ctx)

def decodeElements (step : Reader → Context → Option (Value × List UInt8 × Reader × Context))
    (childEnd : List UInt8) : Nat → Reader → Context → Option (List Value × Reader × Context)
  | 0, r, ctx => some ([], r, ctx)
  | count + 1, r, ctx => do
    let (value, sig, r, ctx) ← step r ctx
    if sig = childEnd then do
      let (values, r, ctx) ← decodeElements step childEnd count r ctx
      some (value :: values, r, ctx)
    else none

def decodeType (big : Bool) :
    Nat → List UInt8 → Reader → Context → Option (Value × List UInt8 × Reader × Context)
  | 0 => fun _ _ _ => none
  | levels + 1 => fun sig r ctx =>
    match sig with
    | [] => none
    | c :: sig =>
      if (code c).basic then (decodeBasic big (code c) r ctx).map fun (v, r, ctx) => (v, sig, r, ctx)
      else
        match code c with
        | .variant => do
          let (text, r) ← readSignature r
          let ctx ← ctx.take (0, text.length + 1)
          let signature := Text.ofBytes text
          if signatureValidate signature.bytes = some 1 then do
            let ctx ← ctx.take (1, 0)
            let (child, past, r, ctx) ← decodeType big levels signature.bytes r ctx
            if past = [] then some (.variant signature [child], sig, r, ctx) else none
          else none
        | .array => do
          let childEnd ← nextType true sig
          let (payloadLength, r) ← readArray big sig r
          let (count, probe) ← validateElements (validateType big levels sig) childEnd
            (r.offset + payloadLength) (payloadLength + 1) r
          let ctx ← ctx.take (count, 0)
          let (children, r, ctx) ← decodeElements (decodeType big levels sig) childEnd count r ctx
          if r.offset = probe.offset then some (.array children, childEnd, r, ctx) else none
        | .struct => do
          let r ← alignReader 8 r
          let (count, close) ← parseRun (nextType false) closes sig.length sig
          if close.head? = some 41 then do
            let ctx ← ctx.take (count, 0)
            let (children, sig, r, ctx) ← decodeRun (decodeType big levels) count sig r ctx
            if sig.head? = some 41 then some (.struct children, sig.tail, r, ctx) else none
          else none
        | .dict => do
          let r ← alignReader 8 r
          let ctx ← ctx.take (2, 0)
          let (key, sig, r, ctx) ← decodeType big levels sig r ctx
          let (item, sig, r, ctx) ← decodeType big levels sig r ctx
          if sig.head? = some 125 then some (.dictEntry [key, item], sig.tail, r, ctx) else none
        | _ => none

def unmarshal (big : Bool) (sig : Text) (body : List UInt8) (ctx : Context) : Option (List Value) := do
  let count ← signatureValidate sig.bytes
  let _ ← validate big sig body
  let ctx ← ctx.take (count, 0)
  let (values, past, r, _) ← decodeRun (decodeType big (maxDepth + 1)) count sig.bytes ⟨0, body⟩ ctx
  if past = [] ∧ r.rest = [] then some values else none

/-! ## What is written is read back -/

mutual

/-- The values and the bytes of text that a value takes to store, besides itself. -/
def Value.need : Value → Nat × Nat
  | .boolean _ | .number _ _ => 0
  | .text _ text => (0, text.bytes.length + 1)
  | .array children | .struct children | .dictEntry children => (children.length, 0) + needs children
  | .variant signature children =>
    (0, signature.bytes.length + 1) + ((children.length, 0) + needs children)

def needs : List Value → Nat × Nat
  | [] => 0
  | value :: values => value.need + needs values

end

mutual

/-- A value with every boolean in it zero or one. -/
def Value.canonical : Value → Value
  | .boolean value => .boolean (if value = 0 then 0 else 1)
  | .number kind bits => .number kind bits
  | .text kind text => .text kind text
  | .array children => .array (canonicals children)
  | .struct children => .struct (canonicals children)
  | .dictEntry children => .dictEntry (canonicals children)
  | .variant signature children => .variant signature (canonicals children)

def canonicals : List Value → List Value
  | [] => []
  | value :: values => value.canonical :: canonicals values

end

theorem Context.Holds.split {ctx : Context} {a b : Nat × Nat} (h : ctx.Holds (a + b)) :
    ctx.Holds a ∧ (ctx.spend a).Holds b := by
  have hfst : a.1 + b.1 ≤ ctx.values := h.1
  have hsnd : ∀ room ∈ ctx.text, a.2 + b.2 ≤ room := h.2
  refine ⟨⟨by omega, fun room hroom => ?_⟩, ⟨Nat.le_sub_of_add_le' hfst, fun room hroom => ?_⟩⟩
  · have := hsnd room hroom
    omega
  · obtain ⟨full, hfull, rfl⟩ := map_eq_some_iff.mp hroom
    exact Nat.le_sub_of_add_le' (hsnd full hfull)

theorem Context.spend_spend (ctx : Context) (a b : Nat × Nat) :
    (ctx.spend a).spend b = ctx.spend (a + b) := by
  simp only [Context.spend, Prod.fst_add, Prod.snd_add, Option.map_map, Nat.sub_sub, Context.mk.injEq,
    true_and]
  congr 1
  funext room
  exact Nat.sub_sub room a.2 b.2

theorem Context.spend_zero (ctx : Context) : ctx.spend 0 = ctx := by
  obtain ⟨values, text⟩ := ctx
  cases text <;> rfl

theorem Text.ofBytes_bytes (text : Text) : Text.ofBytes text.bytes = text := by
  have hall : text.bytes.takeWhile (· != 0) = text.bytes := by
    apply takeWhile_eq_self_iff.mpr
    intro c hc
    have hne : c ≠ 0 := fun heq => text.noZero (heq ▸ hc)
    simpa using hne
  obtain ⟨bytes, noZero⟩ := text
  simpa [Text.ofBytes] using hall

section Primitives

variable {w w' : Writer} {big : Bool}

theorem writeBytes_eq {bytes : List UInt8} (h : writeBytes bytes w = some w') :
    w'.bytes = w.bytes ++ bytes := by
  simp only [writeBytes, ite_none_right_eq_some, some.injEq] at h
  rw [← h.2]

variable {alignment : Nat}

/-- Padding is passed over by a reader that stands where it was written. -/
theorem alignWriter_back (h : alignWriter alignment w = some w') :
    ∃ pad, w'.bytes = w.bytes ++ pad ∧ ∀ tail, alignReader alignment ⟨w.bytes.length, pad ++ tail⟩ =
      some ⟨w'.bytes.length, tail⟩ := by
  simp only [alignWriter, ite_none_right_eq_some, some.injEq] at h
  obtain ⟨⟨hpos, -⟩, rfl⟩ := h
  refine ⟨_, rfl, fun tail => ?_⟩
  rw [alignReader, if_pos ⟨hpos, by simp⟩]
  simp [advance]

theorem wordBytes_length (big : Bool) (width n : Nat) : (wordBytes big width n).length = width := by
  unfold wordBytes
  split <;> simp

variable {width : Nat}

theorem readWord_back {offset : Nat} (hn : n < 256 ^ width) (tail : List UInt8) :
    readWord big width ⟨offset, wordBytes big width n ++ tail⟩ = some (n, ⟨offset + width, tail⟩) := by
  have hlen := wordBytes_length big width n
  have hvalue : leValue (if big then ((wordBytes big width n ++ tail).take width).reverse
      else (wordBytes big width n ++ tail).take width) = n := by
    rw [take_left' hlen]
    cases big <;> simp [wordBytes, leValue_leBytes, Nat.mod_eq_of_lt hn]
  rw [readWord, if_pos (by simp [hlen]), hvalue, advance, drop_left' hlen]

theorem writeWord_back {w1 : Writer} (hn : n < 256 ^ width)
    (halign : alignWriter alignment w = some w1)
    (hwrite : writeBytes (wordBytes big width n) w1 = some w') :
    ∃ chunk, w'.bytes = w.bytes ++ chunk ∧ width ≤ chunk.length ∧
      ∀ tail, (alignReader alignment ⟨w.bytes.length, chunk ++ tail⟩).bind (readWord big width) =
        some (n, ⟨w'.bytes.length, tail⟩) := by
  obtain ⟨pad, hpad, hread⟩ := alignWriter_back halign
  have hbytes := writeBytes_eq hwrite
  refine ⟨pad ++ wordBytes big width n, by rw [hbytes, hpad, append_assoc], ?_, fun tail => ?_⟩
  · rw [length_append, wordBytes_length]
    omega
  · rw [append_assoc, hread, hbytes, length_append, wordBytes_length]
    exact readWord_back hn tail

theorem getElem?_zero_behind (text tail : List UInt8) :
    (text ++ ([0] ++ tail))[text.length]? = some 0 := by simp

theorem writeString_back {text : List UInt8} {objectPath : Bool} (hzero : 0 ∉ text)
    (hpath : objectPath → validObjectPath text) (h : writeString big text w = some w') :
    ∃ chunk, w'.bytes = w.bytes ++ chunk ∧ 0 < chunk.length ∧ ∀ tail,
      readString big objectPath ⟨w.bytes.length, chunk ++ tail⟩ =
        some (text, ⟨w'.bytes.length, tail⟩) := by
  simp only [writeString, ite_none_right_eq_some, bind_eq_bind, bind_eq_some_iff] at h
  obtain ⟨⟨hlen, hutf8⟩, w1, h1, w2, h2, w3, h3, h4⟩ := h
  obtain ⟨chunk, hchunk, hwidth, hread⟩ := writeWord_back hlen h1 h2
  have hbytes := writeBytes_eq h4
  rw [writeBytes_eq h3] at hbytes
  refine ⟨chunk ++ (text ++ [0]), by rw [hbytes, hchunk]; simp, by simp, fun tail => ?_⟩
  have hread' := hread (text ++ ([0] ++ tail))
  simp only [readString, bind_eq_bind, ← bind_assoc, append_assoc]
  rw [hread', bind_some]
  simp only [take_left]
  rw [if_pos ⟨by simp, getElem?_zero_behind text tail, hzero, hutf8, hpath⟩, hbytes]
  simp [advance]

theorem writeSignature_back {sig : Text} (hvalid : (signatureValidate sig.bytes).isSome)
    (h : writeSignature sig.bytes w = some w') :
    ∃ chunk, w'.bytes = w.bytes ++ chunk ∧ 0 < chunk.length ∧ ∀ tail,
      readSignature ⟨w.bytes.length, chunk ++ tail⟩ =
        some (sig.bytes, ⟨w'.bytes.length, tail⟩) := by
  simp only [writeSignature, ite_none_right_eq_some, bind_eq_bind, bind_eq_some_iff] at h
  obtain ⟨hlen, w1, h1, w2, h2, h3⟩ := h
  have hbytes := writeBytes_eq h3
  rw [writeBytes_eq h2, writeBytes_eq h1] at hbytes
  refine ⟨wordBytes false 1 sig.bytes.length ++ (sig.bytes ++ [0]), by rw [hbytes]; simp, by simp,
    fun tail => ?_⟩
  have hread : readWord false 1 ⟨w.bytes.length,
      wordBytes false 1 sig.bytes.length ++ (sig.bytes ++ ([0] ++ tail))⟩ = some _ :=
    readWord_back (show sig.bytes.length < 256 ^ 1 from Nat.lt_succ_of_le hlen) _
  simp only [readSignature, bind_eq_bind, append_assoc]
  rw [hread, bind_some]
  simp only [take_left, Text.ofBytes_bytes]
  rw [if_pos ⟨by simp, getElem?_zero_behind sig.bytes tail, hvalid⟩, hbytes]
  simp [advance, Nat.add_assoc, wordBytes_length]

end Primitives

/-- The bytes that a value of a basic type takes at an offset are accepted there and give it
back. -/
structure BasicBack (read : Reader → Option Reader)
    (decode : Reader → Context → Option (Value × Reader × Context)) (value : Value) (offset : Nat)
    (chunk : List UInt8) : Prop where
  nonempty : 0 < chunk.length
  valid : ∀ tail, read ⟨offset, chunk ++ tail⟩ = some ⟨offset + chunk.length, tail⟩
  decoded : ∀ tail ctx, ctx.Holds value.need → decode ⟨offset, chunk ++ tail⟩ ctx =
    some (value.canonical, ⟨offset + chunk.length, tail⟩, ctx.spend value.need)

variable {big : Bool} {w w' : Writer}

theorem text_back {kind : TextKind} {text : Text} {read : Reader → Option (List UInt8 × Reader)}
    (hvalid : ∀ r, validateBasic big (.text kind) r = (read r).map (·.2))
    (hdecode : ∀ r ctx, decodeBasic big (.text kind) r ctx = (read r).bind fun found =>
      (Context.take ctx (0, found.1.length + 1)).bind fun ctx =>
        some (.text kind (Text.ofBytes found.1), found.2, ctx))
    (hback : ∃ chunk, w'.bytes = w.bytes ++ chunk ∧ 0 < chunk.length ∧ ∀ tail,
      read ⟨w.bytes.length, chunk ++ tail⟩ = some (text.bytes, ⟨w'.bytes.length, tail⟩)) :
    ∃ chunk, w'.bytes = w.bytes ++ chunk ∧ BasicBack (validateBasic big (.text kind))
      (decodeBasic big (.text kind)) (.text kind text) w.bytes.length chunk := by
  obtain ⟨chunk, hchunk, hpos, hread⟩ := hback
  rw [hchunk, length_append] at hread
  refine ⟨chunk, hchunk, hpos, fun tail => ?_, fun tail ctx hctx => ?_⟩
  · rw [hvalid, hread]
    rfl
  · rw [Value.need] at hctx ⊢
    have htake : ctx.take (0, text.bytes.length + 1) = some _ := if_pos hctx
    rw [hdecode, hread, bind_some, htake, Text.ofBytes_bytes]
    rfl

theorem marshalBasic_back {c : Code} {value : Value} (h : marshalBasic big c value w = some w') :
    ∃ chunk, w'.bytes = w.bytes ++ chunk ∧
      BasicBack (validateBasic big c) (decodeBasic big c) value w.bytes.length chunk := by
  unfold marshalBasic at h
  split at h
  · rename_i value
    simp only [bind_eq_bind, bind_eq_some_iff] at h
    obtain ⟨w1, halign, hwrite⟩ := h
    have hsmall : (if value = 0 then 0 else 1) ≤ 1 := by split <;> decide
    obtain ⟨chunk, hchunk, hwidth, hread⟩ := writeWord_back (by omega) halign hwrite
    rw [hchunk, length_append] at hread
    refine ⟨chunk, hchunk, by omega, fun tail => ?_, fun tail ctx _ => ?_⟩
    · simp only [validateBasic, bind_eq_bind, ← bind_assoc, hread, bind_some, if_pos hsmall]
    · simp only [decodeBasic, bind_eq_bind, ← bind_assoc, hread, bind_some,
        if_pos hsmall, Value.need, Value.canonical, Context.spend_zero]
      split <;> rfl
  · rename_i kind kind' bits
    simp only [ite_none_right_eq_some, bind_eq_bind, bind_eq_some_iff] at h
    obtain ⟨rfl, w1, halign, hwrite⟩ := h
    have hsmall : bits.toNat < 256 ^ kind.width := by
      have := bits.isLt
      rwa [Nat.pow_mul] at this
    obtain ⟨chunk, hchunk, hwidth, hread⟩ := writeWord_back hsmall halign hwrite
    have hpos : 0 < kind.width := by cases kind <;> decide
    rw [hchunk, length_append] at hread
    refine ⟨chunk, hchunk, by omega, fun tail => ?_, fun tail ctx _ => ?_⟩
    · simp only [validateBasic, bind_eq_bind, map_eq_bind, ← bind_assoc, hread,
        bind_some, Function.comp]
    · simp only [decodeBasic, bind_eq_bind, ← bind_assoc, hread, bind_some,
        Value.need, Value.canonical, Context.spend_zero, BitVec.ofNat_toNat, BitVec.setWidth_eq]
  · exact text_back (fun _ => rfl) (fun _ _ => rfl) (writeString_back (Text.noZero _)
      (fun hpath => absurd hpath (by decide)) h)
  · rw [ite_none_right_eq_some] at h
    exact text_back (fun _ => rfl) (fun _ _ => rfl) (writeString_back (Text.noZero _)
      (fun _ => h.1) h.2)
  · rw [ite_none_right_eq_some] at h
    exact text_back (fun _ => rfl) (fun _ _ => rfl) (writeSignature_back h.1 h.2)
  · cases h

/-! ## Types in a row -/

theorem parseRun_mono {step' : List UInt8 → Option (List UInt8)}
    (hstep : ∀ sig past, step sig = some past → step' sig = some past) {found : Nat × List UInt8}
    (h : parseRun step stop fuel sig = some found) : parseRun step' stop fuel sig = some found := by
  induction fuel generalizing sig found with
  | zero => exact h
  | succ fuel ih =>
    rw [parseRun] at h ⊢
    split at h
    · rename_i hstop
      rw [if_pos hstop]
      exact h
    rename_i hstop
    simp only [bind_eq_bind, bind_eq_some_iff] at h
    obtain ⟨past, hfirst, rest, hrest, hfound⟩ := h
    rw [if_neg hstop]
    simp only [bind_eq_bind, hstep sig past hfirst, bind_some, ih hrest]
    exact hfound

theorem parseType_mono {levels more : Nat} (hle : levels ≤ more) {dictionaryAllowed : Bool}
    (h : parseType levels dictionaryAllowed sig = some past) :
    parseType more dictionaryAllowed sig = some past := by
  induction levels generalizing more dictionaryAllowed sig past with
  | zero => simp [parseType] at h
  | succ levels ih =>
    obtain ⟨more, rfl⟩ : ∃ k, more = k + 1 := ⟨more - 1, by omega⟩
    have hstep : ∀ {dict sig past}, parseType levels dict sig = some past →
        parseType more dict sig = some past := ih (by omega)
    rcases sig with _ | ⟨c, sig⟩
    · exact h
    simp only [parseType] at h ⊢
    split at h
    · rename_i hbasic
      rw [if_pos hbasic]
      exact h
    rename_i hbasic
    rw [if_neg hbasic]
    split at h
    · exact h
    · exact hstep h
    · simp only [bind_eq_bind, bind_eq_some_iff] at h ⊢
      obtain ⟨found, hrun, hfound⟩ := h
      exact ⟨found, parseRun_mono (fun _ _ => hstep) hrun, hfound⟩
    · split at h
      · exact h
      simp only [ite_none_right_eq_some, bind_eq_bind, bind_eq_some_iff] at h ⊢
      obtain ⟨hkey, past', hitem, hpast⟩ := h
      exact ⟨hkey, past', hstep hitem, hpast⟩
    · exact h

/-- The same for a value of any type, with what the walk leaves of the signature. -/
structure Back (big : Bool) (levels : Nat) (sig past : List UInt8) (value : Value) (offset : Nat)
    (chunk : List UInt8) : Prop where
  nonempty : 0 < chunk.length
  valid : ∀ tail, validateType big levels sig ⟨offset, chunk ++ tail⟩ =
    some (past, ⟨offset + chunk.length, tail⟩)
  decoded : ∀ tail ctx, ctx.Holds value.need → decodeType big levels sig ⟨offset, chunk ++ tail⟩ ctx =
    some (value.canonical, past, ⟨offset + chunk.length, tail⟩, ctx.spend value.need)

def Returns (big : Bool) (levels : Nat) : Prop :=
  ∀ {sig past rest : List UInt8} {value : Value} {w w' : Writer} {parsed : Nat} {dict : Bool},
    marshalType big levels sig value w = some (past, w') → parsed ≤ maxDepth + 1 →
    parseType parsed dict sig = some rest →
    rest = past ∧ ∃ chunk, w'.bytes = w.bytes ++ chunk ∧
      Back big levels sig past value w.bytes.length chunk

section Rows

variable {big : Bool} {levels : Nat} {w w' : Writer} {values : List Value}

theorem marshalRun_back (hlevels : Returns big levels)
    (h : marshalRun (marshalType big levels) stop sig values w = some (past, w'))
    {parsed : Nat} (hparsed : parsed ≤ maxDepth + 1)
    (hparse : parseRun (parseType parsed false) stop fuel sig = some (count, rest)) :
    (rest = past ∧ count = values.length) ∧ ∃ chunk, w'.bytes = w.bytes ++ chunk ∧
      values.length ≤ chunk.length ∧
      (∀ tail, validateRun (validateType big levels) stop fuel sig ⟨w.bytes.length, chunk ++ tail⟩ =
        some (past, ⟨w'.bytes.length, tail⟩)) ∧
      ∀ tail ctx, ctx.Holds (needs values) → decodeRun (decodeType big levels) values.length sig
        ⟨w.bytes.length, chunk ++ tail⟩ ctx =
          some (canonicals values, past, ⟨w'.bytes.length, tail⟩, ctx.spend (needs values)) := by
  induction values generalizing sig w fuel count rest with
  | nil =>
    simp only [marshalRun, ite_none_right_eq_some, some.injEq, Prod.mk.injEq] at h
    obtain ⟨hstop, rfl, rfl⟩ := h
    have hrun : parseRun (parseType parsed false) stop fuel sig = some (0, sig) := by
      cases fuel <;> simp [parseRun, hstop]
    obtain ⟨rfl, rfl⟩ := Prod.mk.inj (some.inj (hrun.symm.trans hparse))
    refine ⟨⟨rfl, rfl⟩, [], by simp, le_rfl, fun tail => ?_, fun tail ctx _ => ?_⟩
    · cases fuel <;> simp [validateRun, hstop]
    · simp [decodeRun, needs, canonicals, Context.spend_zero]
  | cons value values ih =>
    simp only [marshalRun, ite_none_left_eq_some, bind_eq_bind, bind_eq_some_iff, Prod.exists] at h
    obtain ⟨hstop, sig1, w1, hfirst, hmore⟩ := h
    rcases fuel with _ | fuel
    · simp [parseRun, hstop] at hparse
    simp only [parseRun, if_neg hstop, bind_eq_bind, bind_eq_some_iff, Prod.exists,
      some.injEq, Prod.mk.injEq] at hparse
    obtain ⟨next, hnext, count, rest', hrun, rfl, rfl⟩ := hparse
    obtain ⟨rfl, chunk1, hchunk1, hback1⟩ := hlevels hfirst hparsed hnext
    obtain ⟨⟨rfl, rfl⟩, chunk2, hchunk2, hmany, hvalid2, hdecode2⟩ := ih hmore hrun
    have hpos := hback1.nonempty
    have hlen : w1.bytes.length = w.bytes.length + chunk1.length := by rw [hchunk1, length_append]
    refine ⟨⟨rfl, rfl⟩, chunk1 ++ chunk2, by rw [hchunk2, hchunk1, append_assoc],
      by simp; omega, fun tail => ?_, fun tail ctx hctx => ?_⟩
    · simp [validateRun, if_neg hstop, hback1.valid, ← hlen, hvalid2]
    · rw [needs] at hctx ⊢
      rw [canonicals]
      obtain ⟨hhere, hrest⟩ := hctx.split
      simp [decodeRun, hback1.decoded _ ctx hhere, ← hlen, hdecode2 tail _ hrest,
        Context.spend_spend]

theorem marshalElements_back (hlevels : Returns big levels) {childEnd : List UInt8}
    (hchild : nextType true sig = some childEnd)
    (h : marshalElements (marshalType big levels sig) childEnd values w = some w') :
    ∃ chunk, w'.bytes = w.bytes ++ chunk ∧
      (∀ tail fuel, chunk.length < fuel → validateElements (validateType big levels sig) childEnd
        w'.bytes.length fuel ⟨w.bytes.length, chunk ++ tail⟩ =
          some (values.length, ⟨w'.bytes.length, tail⟩)) ∧
      ∀ tail ctx, ctx.Holds (needs values) → decodeElements (decodeType big levels sig) childEnd
        values.length ⟨w.bytes.length, chunk ++ tail⟩ ctx =
          some (canonicals values, ⟨w'.bytes.length, tail⟩, ctx.spend (needs values)) := by
  induction values generalizing w with
  | nil =>
    obtain rfl : w = w' := some.inj h
    refine ⟨[], by simp, fun tail fuel hfuel => ?_, fun tail ctx _ => ?_⟩
    · obtain ⟨fuel, rfl⟩ : ∃ k, fuel = k + 1 := ⟨fuel - 1, by omega⟩
      simp [validateElements]
    · simp [decodeElements, needs, canonicals, Context.spend_zero]
  | cons value values ih =>
    simp only [marshalElements, bind_eq_bind, bind_eq_some_iff, Prod.exists,
      ite_none_right_eq_some] at h
    obtain ⟨past, w1, hfirst, rfl, hmore⟩ := h
    obtain ⟨-, chunk1, hchunk1, hback1⟩ := hlevels hfirst le_rfl hchild
    obtain ⟨chunk2, hchunk2, hvalid2, hdecode2⟩ := ih hmore
    have hlen : w1.bytes.length = w.bytes.length + chunk1.length := by rw [hchunk1, length_append]
    have hlen' : w'.bytes.length = w1.bytes.length + chunk2.length := by rw [hchunk2, length_append]
    have hpos := hback1.nonempty
    refine ⟨chunk1 ++ chunk2, by rw [hchunk2, hchunk1, append_assoc],
      fun tail fuel hfuel => ?_, fun tail ctx hctx => ?_⟩
    · rw [length_append] at hfuel
      obtain ⟨fuel, rfl⟩ : ∃ k, fuel = k + 1 := ⟨fuel - 1, by omega⟩
      have hbefore : w.bytes.length < w'.bytes.length := by omega
      have hwithin : w1.bytes.length ≤ w'.bytes.length := by omega
      simp [validateElements, if_pos hbefore, hback1.valid, ← hlen, if_pos hwithin,
        hvalid2 tail fuel (by omega)]
    · rw [needs] at hctx ⊢
      rw [canonicals]
      obtain ⟨hhere, hrest⟩ := hctx.split
      simp [decodeElements, hback1.decoded _ ctx hhere, ← hlen, hdecode2 tail _ hrest,
        Context.spend_spend]

theorem readArray_back {chunk : List UInt8} {w1 w2 w3 w4 : Writer}
    (h1 : alignWriter 4 w = some w1) (h2 : writeBytes (wordBytes big 4 0) w1 = some w2)
    (h3 : alignWriter ((sig.head?.map code).getD .other).alignment w2 = some w3)
    (h4 : w4.bytes = w3.bytes ++ chunk) (hshort : chunk.length < 2 ^ 32) :
    ∃ front, w4.bytes.take w1.bytes.length ++ wordBytes big 4 chunk.length ++
        w4.bytes.drop (w1.bytes.length + 4) = w.bytes ++ (front ++ chunk) ∧
      w.bytes.length + front.length = w3.bytes.length ∧ 0 < front.length ∧
      ∀ tail, readArray big sig ⟨w.bytes.length, front ++ (chunk ++ tail)⟩ =
        some (chunk.length, ⟨w3.bytes.length, chunk ++ tail⟩) := by
  obtain ⟨pad1, hpad1, hread1⟩ := alignWriter_back h1
  have hword := writeBytes_eq h2
  obtain ⟨pad2, hpad2, hread2⟩ := alignWriter_back h3
  have hzero := wordBytes_length big 4 0
  have hlen := wordBytes_length big 4 chunk.length
  have hlen2 : w2.bytes.length = w1.bytes.length + 4 := by rw [hword, length_append, hzero]
  refine ⟨pad1 ++ (wordBytes big 4 chunk.length ++ pad2), ?_, ?_, by simp [hlen], fun tail => ?_⟩
  · rw [h4, hpad2, hword]
    have hdrop : (w1.bytes ++ (wordBytes big 4 0 ++ (pad2 ++ chunk))).drop (w1.bytes.length + 4) =
        pad2 ++ chunk := by
      rw [← drop_drop, drop_left, drop_left' hzero]
    simp only [append_assoc, take_left, hdrop]
    rw [hpad1, append_assoc]
  · rw [hpad2, hword, hpad1]
    simp only [length_append, hlen, hzero]
    omega
  · have hword' : readWord big 4 ⟨w1.bytes.length,
        wordBytes big 4 chunk.length ++ (pad2 ++ (chunk ++ tail))⟩ = some _ :=
      readWord_back hshort _
    simp only [readArray, append_assoc, hread1, bind_eq_bind, bind_some, hword', ← hlen2, hread2]
    rw [if_pos (by simp)]

end Rows

theorem nextType_of_signature (h : signatureValidate sig = some 1) :
    ∃ rest, nextType false sig = some rest := by
  simp only [signatureValidate, ite_none_right_eq_some, map_eq_some_iff, Prod.exists] at h
  obtain ⟨-, count, rest, hrun, rfl⟩ := h
  rcases hfuel : sig.length with _ | fuel
  · rw [hfuel, parseRun] at hrun
    split at hrun <;> simp at hrun
  rw [hfuel, parseRun] at hrun
  split at hrun
  · simp at hrun
  simp only [bind_eq_bind, bind_eq_some_iff] at hrun
  obtain ⟨next, hnext, -⟩ := hrun
  exact ⟨next, hnext⟩

theorem marshalType_back (big : Bool) (levels : Nat) : Returns big levels := by
  induction levels with
  | zero =>
    intro sig past rest value w w' parsed dict h
    simp [marshalType] at h
  | succ levels ih =>
    intro sig past rest value w w' parsed dict h hparsed hparse
    obtain ⟨parsed, rfl⟩ : ∃ k, parsed = k + 1 := by
      cases parsed with
      | zero => simp [parseType] at hparse
      | succ k => exact ⟨k, rfl⟩
    have hfull : ∀ {dict sig rest}, parseType parsed dict sig = some rest →
        nextType dict sig = some rest := parseType_mono (by omega)
    rcases sig with _ | ⟨c, sig⟩
    · simp [marshalType] at h
    simp only [marshalType] at h
    simp only [parseType] at hparse
    split at h
    · rename_i hbasic
      rw [if_pos hbasic] at hparse
      cases hparse
      obtain ⟨w1, hwrite, hpast⟩ := map_eq_some_iff.mp h
      cases hpast
      obtain ⟨chunk, hchunk, hback⟩ := marshalBasic_back hwrite
      refine ⟨rfl, chunk, hchunk, hback.nonempty, fun tail => ?_, fun tail ctx hctx => ?_⟩
      · simp [validateType, if_pos hbasic, hback.valid]
      · simp [decodeType, if_pos hbasic, hback.decoded tail ctx hctx]
    rename_i hbasic
    rw [if_neg hbasic] at hparse
    split at h
    · rename_i signature child hcode
      rw [hcode] at hparse hbasic
      cases hparse
      simp only [ite_none_right_eq_some, bind_eq_bind, bind_eq_some_iff,
        Prod.exists, some.injEq, Prod.mk.injEq] at h
      obtain ⟨hone, w1, hsig, past', w2, hchild, rfl, rfl, rfl⟩ := h
      obtain ⟨chunk1, hchunk1, hpos, hread⟩ := writeSignature_back (by rw [hone]; rfl) hsig
      obtain ⟨next, hnext⟩ := nextType_of_signature hone
      obtain ⟨rfl, chunk2, hchunk2, hback⟩ := ih hchild le_rfl hnext
      have hlen : w.bytes.length + (chunk1 ++ chunk2).length =
          w1.bytes.length + chunk2.length := by
        rw [hchunk1, length_append, length_append]
        omega
      refine ⟨rfl, chunk1 ++ chunk2, by rw [hchunk2, hchunk1, append_assoc], by simp; omega,
        fun tail => ?_, fun tail ctx hctx => ?_⟩
      · simp only [validateType, hcode, if_neg hbasic, append_assoc, hread,
          bind_eq_bind, bind_some, Text.ofBytes_bytes, if_pos hone, hback.valid,
          hlen, if_true]
      · simp only [Value.need, needs, add_zero, length_singleton] at hctx ⊢
        simp only [Value.canonical, canonicals]
        obtain ⟨htext, hrest⟩ := hctx.split
        obtain ⟨hslot, hchild'⟩ := hrest.split
        simp only [decodeType, hcode, if_neg hbasic, append_assoc, hread,
          bind_eq_bind, bind_some, Text.ofBytes_bytes, if_pos hone, Context.take,
          if_pos htext, if_pos hslot, hback.decoded tail _ hchild', hlen, if_true]
        rw [Context.spend_spend, Context.spend_spend]
    · rename_i children hcode
      rw [hcode] at hparse hbasic
      simp only [bind_eq_bind, bind_eq_some_iff, ite_none_right_eq_some,
        some.injEq, Prod.mk.injEq] at h
      obtain ⟨childEnd, hchild, w1, h1, w2, h2, w3, h3, w4, h4, hshort, rfl, rfl⟩ := h
      obtain rfl := some.inj ((hfull hparse).symm.trans hchild)
      obtain ⟨chunk, hchunk, hvalid, hdecode⟩ := marshalElements_back ih hchild h4
      have hpayload : w4.bytes.length - w3.bytes.length = chunk.length := by
        rw [hchunk, length_append]
        omega
      rw [hpayload] at hshort ⊢
      obtain ⟨front, hfront, hoffset, hpos, hread⟩ := readArray_back h1 h2 h3 hchunk hshort
      have hend : w3.bytes.length + chunk.length = w4.bytes.length := by rw [hchunk, length_append]
      have hlen : w.bytes.length + (front ++ chunk).length = w4.bytes.length := by
        rw [length_append]
        omega
      refine ⟨rfl, front ++ chunk, hfront, by simp; omega, fun tail => ?_, fun tail ctx hctx => ?_⟩
      · simp only [validateType, hcode, if_neg hbasic, hchild,
          append_assoc, hread, hend, bind_eq_bind, bind_some,
          hvalid tail _ (Nat.lt_succ_self _), hlen]
      · rw [Value.need] at hctx ⊢
        rw [Value.canonical]
        obtain ⟨hslots, hrest⟩ := hctx.split
        simp only [decodeType, hcode, if_neg hbasic, hchild,
          append_assoc, hread, hend, bind_eq_bind, bind_some,
          hvalid tail _ (Nat.lt_succ_self _), Context.take,
          if_pos hslots, hdecode tail _ hrest, hlen, if_true, Context.spend_spend]
    · rename_i children hcode
      rw [hcode] at hparse hbasic
      simp only [bind_eq_bind, bind_eq_some_iff, ite_none_right_eq_some,
        Prod.exists, some.injEq, Prod.mk.injEq] at h hparse
      obtain ⟨w1, h1, close, w2, hrun, hclose, rfl, rfl⟩ := h
      obtain ⟨count, rest', hfields, ⟨hcount, -⟩, rfl⟩ := hparse
      obtain ⟨⟨rfl, rfl⟩, chunk, hchunk, hmany, hvalid, hdecode⟩ :=
        marshalRun_back ih hrun (by omega) hfields
      obtain ⟨pad, hpad, hread⟩ := alignWriter_back h1
      have hscan := parseRun_mono (fun _ _ => hfull) hfields
      have hlen : w.bytes.length + (pad ++ chunk).length = w2.bytes.length := by
        rw [hchunk, hpad]
        simp
      refine ⟨rfl, pad ++ chunk, by rw [hchunk, hpad, append_assoc], by simp; omega,
        fun tail => ?_, fun tail ctx hctx => ?_⟩
      · simp only [validateType, hcode, if_neg hbasic, append_assoc,
          hread, bind_eq_bind, bind_some, hvalid, if_pos hclose, hlen]
      · rw [Value.need] at hctx ⊢
        rw [Value.canonical]
        obtain ⟨hslots, hrest⟩ := hctx.split
        simp only [decodeType, hcode, if_neg hbasic,
          append_assoc, hread, hscan, bind_eq_bind, bind_some, if_pos hclose,
          Context.take, if_pos hslots, hdecode tail _ hrest, hlen, Context.spend_spend]
    · rename_i key item hcode
      rw [hcode] at hparse hbasic
      simp only [bind_eq_bind, bind_eq_some_iff, ite_none_right_eq_some,
        Prod.exists, some.injEq, Prod.mk.injEq] at h
      obtain ⟨w1, h1, sig1, w2, hkey, sig2, w3, hitem, hclose, rfl, rfl⟩ := h
      rcases sig with _ | ⟨k, sig⟩
      · cases hparse
      simp only [ite_none_right_eq_some, bind_eq_bind, bind_eq_some_iff, some.injEq] at hparse
      obtain ⟨⟨-, hbasic'⟩, rest', hrest', -, rfl⟩ := hparse
      have hfirst : parseType 1 false (k :: sig) = some sig := by simp [parseType, hbasic']
      obtain ⟨rfl, chunk1, hchunk1, hback1⟩ := ih hkey (by decide) hfirst
      obtain ⟨rfl, chunk2, hchunk2, hback2⟩ := ih hitem (by omega) hrest'
      obtain ⟨pad, hpad, hread⟩ := alignWriter_back h1
      have hpos := hback1.nonempty
      have hlen1 : w1.bytes.length + chunk1.length = w2.bytes.length := by
        rw [hchunk1, length_append]
      have hlen2 : w.bytes.length + (pad ++ (chunk1 ++ chunk2)).length =
          w2.bytes.length + chunk2.length := by
        rw [hchunk1, hpad]
        simp [Nat.add_assoc]
      refine ⟨rfl, pad ++ (chunk1 ++ chunk2),
        by rw [hchunk2, hchunk1, hpad]; simp only [append_assoc], by simp; omega,
        fun tail => ?_, fun tail ctx hctx => ?_⟩
      · simp only [validateType, hcode, if_neg hbasic,
          append_assoc, hread, bind_eq_bind, bind_some, hback1.valid, hlen1,
          hback2.valid, if_pos hclose]
        rw [hlen2]
      · simp only [Value.need, needs, add_zero, length_cons, length_nil] at hctx ⊢
        simp only [Value.canonical, canonicals]
        obtain ⟨hslots, hrest⟩ := hctx.split
        obtain ⟨hkey', hitem'⟩ := hrest.split
        simp only [decodeType, hcode, if_neg hbasic, append_assoc,
          hread, bind_eq_bind, bind_some, Context.take, if_pos hslots,
          hback1.decoded _ _ hkey', hlen1, hback2.decoded tail _ hitem', if_pos hclose]
        rw [hlen2, Context.spend_spend, Context.spend_spend, add_assoc]
    · cases h

theorem parseRun_stops (h : parseRun step stop fuel sig = some (count, rest)) : stop rest := by
  induction fuel generalizing sig count with
  | zero =>
    simp only [parseRun, ite_none_right_eq_some, some.injEq, Prod.mk.injEq] at h
    obtain ⟨hstop, -, rfl⟩ := h
    exact hstop
  | succ fuel ih =>
    rw [parseRun] at h
    split at h
    · cases h
      assumption
    simp only [bind_eq_bind, bind_eq_some_iff, Prod.exists, some.injEq, Prod.mk.injEq] at h
    obtain ⟨next, -, count', rest', hrun, -, rfl⟩ := h
    exact ih hrun

/-- Whatever is marshalled passes validation as a whole, and with enough storage it is unmarshalled
to the values it was made of, with their booleans as zero or one. -/
theorem unmarshal_marshal {big : Bool} {sig : Text} {values : List Value} {capacity : Nat}
    {body : List UInt8} (h : marshal big sig values capacity = some body) {ctx : Context}
    (hctx : ctx.Holds ((values.length, 0) + needs values)) :
    validate big sig body = some body.length ∧
      unmarshal big sig body ctx = some (canonicals values) := by
  simp only [marshal, bind_eq_bind, bind_eq_some_iff, ite_none_right_eq_some,
    Prod.exists, some.injEq] at h
  obtain ⟨count, hcount, rfl, past, w, hrun, rfl⟩ := h
  have hsig := hcount
  simp only [signatureValidate, ite_none_right_eq_some, map_eq_some_iff, Prod.exists] at hsig
  obtain ⟨-, count, rest, hparse, -⟩ := hsig
  obtain ⟨⟨rfl, rfl⟩, chunk, hchunk, -, hvalid, hdecode⟩ :=
    marshalRun_back (marshalType_back big (maxDepth + 1)) hrun le_rfl hparse
  obtain rfl : rest = [] := by simpa using parseRun_stops hparse
  rw [nil_append] at hchunk
  have hvalidated : validate big sig w.bytes = some w.bytes.length := by
    have hwhole := hvalid []
    rw [append_nil, ← hchunk] at hwhole
    simp only [validate, hcount, bind_eq_bind, bind_some]
    rw [show (⟨0, w.bytes⟩ : Reader) = ⟨([] : List UInt8).length, w.bytes⟩ from rfl, hwhole]
    rfl
  refine ⟨hvalidated, ?_⟩
  obtain ⟨hslots, hrest⟩ := hctx.split
  have hwhole := hdecode [] _ hrest
  rw [append_nil, ← hchunk] at hwhole
  simp only [unmarshal, hcount, hvalidated, Context.take, if_pos hslots, bind_eq_bind, bind_some]
  rw [show (⟨0, w.bytes⟩ : Reader) = ⟨([] : List UInt8).length, w.bytes⟩ from rfl, hwhole]
  rfl

/-- A table of one entry, `a\x7bsv\x7d`, with a pair `(yb)` in its variant. -/
theorem unmarshal_marshal_table : unmarshal true (.ofBytes [97, 123, 115, 118, 125])
      [0, 0, 0, 24, 0, 0, 0, 0, 0, 0, 0, 1, 107, 0, 4, 40, 121, 98, 41, 0, 0, 0, 0, 0,
        7, 0, 0, 0, 0, 0, 0, 1] ⟨7, some 7⟩ =
      some [.array [.dictEntry [.text .string (.ofBytes [107]),
        .variant (.ofBytes [40, 121, 98, 41]) [.struct [.number .byte 7, .boolean 1]]]]] := by
  have hmarshal : marshal true (.ofBytes [97, 123, 115, 118, 125])
      [.array [.dictEntry [.text .string (.ofBytes [107]),
        .variant (.ofBytes [40, 121, 98, 41]) [.struct [.number .byte 7, .boolean 5]]]]] 64 =
      some [0, 0, 0, 24, 0, 0, 0, 0, 0, 0, 0, 1, 107, 0, 4, 40, 121, 98, 41, 0, 0, 0, 0, 0,
        7, 0, 0, 0, 0, 0, 0, 1] := by
    decide +kernel
  exact (unmarshal_marshal hmarshal (by decide +kernel)).2

/-- A boolean that is neither zero nor one is marshalled, and comes back as another value. -/
theorem unmarshal_boolean_two : marshal false (.ofBytes [98]) [.boolean 2] 4 = some [1, 0, 0, 0] ∧
      validate false (.ofBytes [98]) [1, 0, 0, 0] = some 4 ∧
      unmarshal false (.ofBytes [98]) [1, 0, 0, 0] ⟨1, none⟩ = some [.boolean 1] ∧
      [Value.boolean 1] ≠ [.boolean 2] := by
  refine ⟨by decide +kernel, by decide +kernel, by rfl, ?_⟩
  simp

end XsCore.Libc.Dbus
