import XsCore.Foundation.Bytes

/-! # Signal frames and the return from a handler

A handler returns through the `sigreturn` system call: the kernel reads a signal frame from the
user stack, checks its magic number, and copies the saved words into the trap frame that the
system-call exit path pops.  The six architectures share one shape and differ in the word size,
in the number of saved words and in which frame word goes to which slot of the trap frame.
-/

namespace XsCore.Signal

open Bytes List

inductive Arch where
  | x86_64 | i386 | aarch64 | arm32 | riscv64 | riscv32

variable (arch : Arch)

def Arch.wordBytes : Arch → Nat
  | .x86_64 | .aarch64 | .riscv64 => 8
  | .i386 | .arm32 | .riscv32 => 4

def Arch.frameWords : Arch → Nat
  | .x86_64 => 20
  | .i386 => 12
  | .aarch64 | .riscv64 | .riscv32 => 34
  | .arm32 => 17

def siginfoSize : Nat := 128

def Arch.frameSize : Nat :=
  arch.frameWords * arch.wordBytes + 8 + siginfoSize

def sigframeMagic : Nat := 0x53494746

abbrev SignalSet := BitVec 32

def sigKill : Nat := 9
def sigStop : Nat := 19

/-! ## User memory -/

def pageSize : Nat := 4096

/-- User memory as the usercopy routines meet it.  A page is readable or writable when it is mapped
for the user with that right once the page-fault handler has had its try. -/
structure UserMemory where
  byte : Nat → UInt8
  readable : Nat → Bool
  writable : Nat → Bool

def rangePrepare (pageOk : Nat → Bool) (address length : Nat) : Bool :=
  address != 0 && decide (address + length ≤ 2 ^ 64 - 1) &&
    (range ((address + length - 1) / pageSize + 1 - address / pageSize)).all
      fun i => pageOk (address / pageSize + i)

def copyFromUser (memory : UserMemory) (source length : Nat) : Option (List UInt8) :=
  if rangePrepare memory.readable source length then some (load memory.byte source length)
  else none

def copyToUser (memory : UserMemory) (destination : Nat) (bytes : List UInt8) : Option UserMemory :=
  if rangePrepare memory.writable destination bytes.length then
    some { memory with byte := store memory.byte destination bytes }
  else none

/-! ## Trap state -/

structure TrapState where
  /-- Words of the trap frame of the system call. -/
  ctx : Nat → Nat
  /-- `fork_context`, when it is allocated. -/
  forkContext : Option (Nat → Nat)
  /-- `SP_EL0` on AArch64, `user_rsp` of the transition record on ARM. -/
  userSp : Nat
  /-- `ELR_EL1` and `SPSR_EL1` on AArch64. -/
  elr : Nat
  spsr : Nat
  /-- The copies of both that the AArch64 entry code pushed above the trap frame. -/
  entryElr : Nat
  entrySpsr : Nat
  signalMask : SignalSet
  forkResume : Bool

/-! ## Reading a frame -/

structure Sigframe where
  word : Nat → Nat
  signalMask : SignalSet
  magic : Nat

def decodeSigframe (bytes : List UInt8) : Sigframe where
  word := leWordAt arch.wordBytes bytes
  signalMask := BitVec.ofNat 32 (leValue ((bytes.drop (arch.frameWords * arch.wordBytes)).take 4))
  magic := leValue ((bytes.drop (arch.frameWords * arch.wordBytes + 4)).take 4)

def readSigframe (memory : UserMemory) (address : Nat) : Option Sigframe :=
  match copyFromUser memory address arch.frameSize with
  | none => none
  | some bytes =>
    let frame := decodeSigframe arch bytes
    if frame.magic = sigframeMagic then some frame else none

/-- Where the kernel looks for the frame, in order.  The i386 handler may have been entered with
or without its arguments on the stack, so three places are tried. -/
def frameAddresses (st : TrapState) : List Nat :=
  match arch with
  | .x86_64 => [st.ctx 18]
  | .i386 => [(st.ctx 9 + 12) % 2 ^ 32, (st.ctx 9 + 4) % 2 ^ 32, st.ctx 9]
  | .aarch64 | .arm32 => [st.userSp]
  | .riscv64 | .riscv32 => [st.ctx 28]

def findSigframe (memory : UserMemory) (st : TrapState) : Option Sigframe :=
  (frameAddresses arch st).findSome? (readSigframe arch memory)

/-! ## Restoring a context -/

/-- The trap-frame slots `sigreturn` fills, each with the frame word it takes. -/
def restoredWords : Arch → List (Nat × Nat)
  | .x86_64 => (range 20).map fun i => (i, i)
  | .i386 => (range 11).map fun i => (i, i)
  | .aarch64 => (0, 0) :: (range 30).map fun i => (i + 2, i + 1)
  | .arm32 => (range 13).map (fun i => (i + 1, i)) ++ [(14, 14), (0, 16)]
  | .riscv64 | .riscv32 =>
    [(0, 1), (1, 5), (2, 6), (3, 7), (4, 8), (5, 9), (6, 10), (7, 11), (8, 12), (9, 13), (10, 14),
      (11, 15), (12, 16), (13, 17)] ++ (range 10).map (fun i => (14 + i, 18 + i)) ++
      [(24, 28), (25, 29), (26, 30), (27, 31), (28, 2), (29, 32)]

def restoreCtx (frame : Sigframe) (slots : List (Nat × Nat)) (ctx : Nat → Nat) : Nat → Nat :=
  slots.foldl (fun ctx slot => Function.update ctx slot.1 (frame.word slot.2)) ctx

/-- The words of `fork_context` that follow the trap frame: all of it on x86 and RISC-V, only the
words just restored on ARM. -/
def restoreForkContext (frame : Sigframe) (ctx forkContext : Nat → Nat) : Nat → Nat :=
  match arch with
  | .x86_64 => fun i => if i < 20 then ctx i else forkContext i
  | .i386 => fun i => if i < 11 then ctx i else forkContext i
  | .riscv64 | .riscv32 => fun i => if i < 32 then ctx i else forkContext i
  | .aarch64 | .arm32 => restoreCtx frame (restoredWords arch) forkContext

def resultWord : Arch → Nat
  | .x86_64 => 14
  | .i386 => 11
  | .aarch64 | .arm32 => 0
  | .riscv64 | .riscv32 => 10

/-- The register writes `sigreturn` makes outside the trap frame. -/
def restoreSystem (frame : Sigframe) (st : TrapState) : TrapState :=
  match arch with
  | .aarch64 => { st with elr := frame.word 31, userSp := frame.word 32, spsr := frame.word 33 }
  | .arm32 => { st with userSp := frame.word 15 }
  | .x86_64 | .i386 | .riscv64 | .riscv32 => st

def einval : Int := -22

/-- `xscore_process_sigreturn`: the new state and the result, a word of the frame or `-EINVAL`. -/
def sigreturn (memory : UserMemory) (st : TrapState) : TrapState × Int :=
  match st.forkContext with
  | none => (st, einval)
  | some forkContext =>
    match findSigframe arch memory st with
    | none => (st, einval)
    | some frame =>
      let ctx := restoreCtx frame (restoredWords arch) st.ctx
      ({ restoreSystem arch frame st with
          ctx := ctx
          forkContext := some (restoreForkContext arch frame ctx forkContext)
          signalMask := frame.signalMask
          forkResume := true },
        frame.word (resultWord arch))

def acceptedFrame (memory : UserMemory) (st : TrapState) : Option Sigframe :=
  st.forkContext.bind fun _ => findSigframe arch memory st

theorem sigreturn_rejected {arch : Arch} {memory : UserMemory} {st : TrapState}
    (h : acceptedFrame arch memory st = none) : sigreturn arch memory st = (st, einval) := by
  unfold acceptedFrame at h
  unfold sigreturn
  cases hcontext : st.forkContext with
  | none => rfl
  | some forkContext =>
    rw [hcontext, Option.bind_some] at h
    rw [h]

theorem sigreturn_accepted {arch : Arch} {memory : UserMemory} {st : TrapState} {frame : Sigframe}
    (h : acceptedFrame arch memory st = some frame) :
    (sigreturn arch memory st).1.ctx = restoreCtx frame (restoredWords arch) st.ctx ∧
    (sigreturn arch memory st).1.entrySpsr = st.entrySpsr ∧
    (sigreturn arch memory st).1.signalMask = frame.signalMask ∧
    (sigreturn arch memory st).2 = frame.word (resultWord arch) := by
  unfold acceptedFrame at h
  unfold sigreturn
  cases hcontext : st.forkContext with
  | none =>
    rw [hcontext] at h
    cases h
  | some forkContext =>
    rw [hcontext, Option.bind_some] at h
    rw [h]
    exact ⟨rfl, by cases arch <;> rfl, rfl, rfl⟩

/-! ## Leaving the kernel -/

/-- The slot the exit path overwrites with the result; i386 leaves it in `eax`. -/
def resultSlot : Arch → Option Nat
  | .x86_64 => some 14
  | .i386 => none
  | .aarch64 => some 0
  | .arm32 => some 1
  | .riscv64 | .riscv32 => some 6

def Arch.register (value : Int) : Nat :=
  (value % (256 ^ arch.wordBytes : Nat)).toNat

/-- The results that make the exit path leave the thread instead of returning to it. -/
def exitsToKernel (result : Nat) : Bool :=
  match arch with
  | .x86_64 | .aarch64 => result == 2 ^ 63
  | .riscv64 => result == 0x7fffffff || result == 2 ^ 63
  | .i386 | .arm32 | .riscv32 => result == 0x7fffffff

/-- The system-call exit path up to the return instruction.  AArch64 reloads `ELR_EL1` and
`SPSR_EL1` from the copies pushed at entry. -/
def leaveKernel (st : TrapState) (result : Int) : Option TrapState :=
  if exitsToKernel arch (arch.register result) then none
  else
    let ctx := match resultSlot arch with
      | some slot => Function.update st.ctx slot (arch.register result)
      | none => st.ctx
    match arch with
    | .aarch64 => some { st with ctx := ctx, elr := st.entryElr, spsr := st.entrySpsr }
    | .x86_64 | .i386 | .arm32 | .riscv64 | .riscv32 => some { st with ctx := ctx }

def resumedContext (memory : UserMemory) (st : TrapState) : Option TrapState :=
  leaveKernel arch (sigreturn arch memory st).1 (sigreturn arch memory st).2

end XsCore.Signal
