import XsCore.Signal.Frame

/-! # Entering a signal handler on x86-64

`xscore_process_dispatch_user_signal` saves the interrupted registers in a signal frame on the user
stack and redirects the trap frame to the handler.  It is called with the trap frame of a system
call, or with the frame of a timer interrupt, which holds two more words.
-/

namespace XsCore.Signal

open Bytes Function

variable (ctx : Nat → Nat) (forkContext : Option (Nat → Nat))

def sigSegv : Nat := 11
def sigChld : Nat := 17
def sigCont : Nat := 18
def sigTstp : Nat := 20
def signalMin : Nat := 1
def signalMax : Nat := 31

def sigDfl : Nat := 0
def sigIgn : Nat := 1

def saSiginfo : BitVec 32 := 0x00000004#32
def saNodefer : BitVec 32 := 0x40000000#32
def saResethand : BitVec 32 := 0x80000000#32

structure Sigaction where
  handler : Nat
  mask : SignalSet
  flags : BitVec 32
  restorer : Nat

def signalBit (signal : Nat) : SignalSet := 1#32 <<< signal

structure Process where
  pendingSignal : Nat
  pendingCode : Int
  pendingAddress : Nat
  senderPid : Nat
  senderUid : Nat
  signalMask : SignalSet
  ignoredSignals : SignalSet
  actions : Nat → Sigaction
  signalTrampoline : Nat
  /-- The signal recorded by `xscore_process_record_termination_signal`, zero for none. -/
  terminationSignal : Nat
  /-- The status `xscore_thread_record_user_exit` leaves for the time the thread ends. -/
  exitStatus : Nat
  forkResume : Bool

variable (p : Process)

def validSignal (signal : Nat) : Bool :=
  decide (signalMin ≤ signal) && decide (signal ≤ signalMax)

def Process.exitForSignal (signal : Nat) : Process :=
  { p with terminationSignal := signal, exitStatus := 128 + signal }

/-! ## The frame that is written -/

/-- The siginfo record: signal, errno, code, reserved, address, padding. -/
def encodeSiginfo (signal : Nat) (code : Int) (address : Nat) : List UInt8 :=
  leWords 4 [signal, 0, (code % 2 ^ 32).toNat, 0] ++ leWords 8 [address] ++
    List.replicate (siginfoSize - 16 - 8) 0

/-- The saved registers in the order of `struct xscore_sigframe`; the accumulator is not saved. -/
def savedWords (ctx : Nat → Nat) : List Nat :=
  (List.range 20).map fun i => if i = 14 then 0 else ctx i

def encodeSigframe (words : List Nat) (mask : SignalSet) (siginfo : List UInt8) : List UInt8 :=
  leWords 8 words ++ (leBytes 4 mask.toNat ++ (leBytes 4 sigframeMagic ++ siginfo))

/-- The stack address of the frame: below the stack pointer, aligned to sixteen bytes. -/
def frameAddress (userSp : Nat) : Nat :=
  (userSp + 2 ^ 64 - Arch.x86_64.frameSize) % 2 ^ 64 / 16 * 16

def enterHandler (action : Sigaction) (signal sp : Nat) (ctx : Nat → Nat) : Nat → Nat :=
  let entered := update (update (update ctx 18 sp) 15 action.handler) 9
    signal
  if action.flags &&& saSiginfo ≠ 0 then
    update (update entered 8 (sp + 8 + (Arch.x86_64.frameSize - siginfoSize))) 11
      (sp + 8)
  else entered

structure Entered where
  process : Process
  ctx : Nat → Nat
  forkContext : Option (Nat → Nat)
  memory : UserMemory
  stores : List (Nat × List UInt8)

inductive DispatchResult where
  /-- No handler is entered and nothing changes. -/
  | skipped
  /-- The stack takes no frame: the signal is dropped and `SIGSEGV` is recorded as the reason the
  thread ends, but the caller is told that nothing was dispatched and the thread runs on. -/
  | refused (process : Process) (memory : UserMemory)
  | entered (result : Entered)

def handlerDue (p : Process) : Bool :=
  p.pendingSignal != 0 && validSignal p.pendingSignal &&
    !p.signalMask.getLsbD p.pendingSignal &&
    (p.actions p.pendingSignal).handler != sigDfl && (p.actions p.pendingSignal).handler != sigIgn

/-- The mask and the handler table while the handler runs. -/
def Process.startHandler (signal : Nat) : Process :=
  let action := p.actions signal
  let mask := p.signalMask ||| action.mask
  { p with
    signalMask := if action.flags &&& saNodefer = 0 then mask ||| signalBit signal else mask
    actions :=
      if action.flags &&& saResethand ≠ 0 then
        update p.actions signal { action with handler := sigDfl }
      else p.actions
    forkResume := true }

def signalFrame (ctx : Nat → Nat) : List UInt8 :=
  encodeSigframe (savedWords ctx) p.signalMask
    (encodeSiginfo p.pendingSignal p.pendingCode p.pendingAddress)

def restorer (p : Process) : Nat :=
  let action := p.actions p.pendingSignal
  if action.restorer = 0 then p.signalTrampoline else action.restorer

def returnSlot (sp : Nat) : Nat := (sp + 2 ^ 64 - 8) % 2 ^ 64

/-- Write the frame at `sp` and the return address at `slot`; `false` when the stack takes one of
them not. -/
def pushFrame (memory : UserMemory) (sp slot : Nat) (frame returnAddress : List UInt8) :
    UserMemory × Bool :=
  match copyToUser memory sp frame with
  | none => (memory, false)
  | some memory =>
    match copyToUser memory slot returnAddress with
    | none => (memory, false)
    | some memory => (memory, true)

def enteredState (ctx : Nat → Nat) (forkContext : Option (Nat → Nat)) (memory : UserMemory) :
    Entered :=
  let signal := p.pendingSignal
  let action := p.actions signal
  let sp := frameAddress (ctx 18)
  { process := { p with pendingSignal := 0 }.startHandler signal
    ctx := enterHandler action signal (returnSlot sp) ctx
    forkContext := forkContext.map (enterHandler action signal (returnSlot sp))
    memory := memory
    stores := [(sp, signalFrame p ctx), (returnSlot sp, leBytes 8 (restorer p))] }

def pushSignalFrame (ctx : Nat → Nat) (memory : UserMemory) : UserMemory × Bool :=
  let sp := frameAddress (ctx 18)
  pushFrame memory sp (returnSlot sp) (signalFrame p ctx) (leBytes 8 (restorer p))

def finishDispatch (ctx : Nat → Nat) (forkContext : Option (Nat → Nat)) :
    UserMemory × Bool → DispatchResult
  | (memory, true) => .entered (enteredState p ctx forkContext memory)
  | (memory, false) => .refused ({ p with pendingSignal := 0 }.exitForSignal sigSegv) memory

/-- `xscore_process_dispatch_user_signal` on x86-64; `ctx` is the trap frame it was given. -/
def dispatchUserSignal (ctx : Nat → Nat) (forkContext : Option (Nat → Nat)) (memory : UserMemory) :
    DispatchResult :=
  if handlerDue p then
    finishDispatch p ctx forkContext (pushSignalFrame p ctx memory)
  else .skipped

theorem dispatch_entered {p : Process} {ctx : Nat → Nat} {forkContext : Option (Nat → Nat)}
    {memory : UserMemory} {d : Entered}
    (h : dispatchUserSignal p ctx forkContext memory = .entered d) :
    ∃ memory', pushSignalFrame p ctx memory = (memory', true) ∧
      d = enteredState p ctx forkContext memory' := by
  unfold dispatchUserSignal at h
  -- the pushed frame is named before the case split, so that nothing evaluates its address
  generalize pushSignalFrame p ctx memory = pushed at h ⊢
  split at h
  · rcases pushed with ⟨memory', _ | _⟩
    · simp [finishDispatch] at h
    · exact ⟨memory', rfl, (DispatchResult.entered.inj h).symm⟩
  · cases h

theorem dispatch_enters {p : Process} {ctx : Nat → Nat} {memory : UserMemory}
    (hdue : handlerDue p) (hpush : (pushSignalFrame p ctx memory).2) :
    ∃ d, dispatchUserSignal p ctx forkContext memory = .entered d := by
  unfold dispatchUserSignal
  generalize pushSignalFrame p ctx memory = pushed at hpush ⊢
  obtain ⟨memory', written⟩ := pushed
  dsimp only at hpush
  rw [if_pos hdue, hpush]
  exact ⟨_, rfl⟩

theorem dispatch_skipped {p : Process} (memory : UserMemory) (hdue : handlerDue p = false) :
    dispatchUserSignal p ctx forkContext memory = .skipped := by
  rw [dispatchUserSignal, hdue, if_neg (by simp)]

/-! ## Trap frames -/

/-- The user registers in the order the kernel pushes them: `r15` to `r8`, `rsi`, `rdi`, `rbp`,
`rdx`, `rcx`, `rbx`, `rax`, then `rip`, `cs`, `rflags`, `rsp`, `ss`. -/
abbrev Registers := Nat → UInt64

inductive Layout where
  /-- `int 0x80`: the registers and the hardware frame. -/
  | syscall
  /-- An interrupt stub pushes the vector and an error code between the two. -/
  | interrupt (vector error : Nat)

def Layout.trapFrame (layout : Layout) (regs : Registers) : Nat → Nat :=
  match layout with
  | .syscall => fun i => (regs i).toNat
  | .interrupt vector error => fun i =>
    if i < 15 then (regs i).toNat
    else if i = 15 then vector
    else if i = 16 then error
    else (regs (i - 2)).toNat

end XsCore.Signal
