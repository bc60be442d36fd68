import XsCore.Signal.Dispatch

/-! # A handler and the program it interrupts

The frame that dispatching writes is read back by `sigreturn` word for word, so what the program
resumes with is what dispatching read from its trap frame.  At a system call that is every register
but the accumulator.  The frame starts right below the stack pointer, inside the 128 bytes the
x86-64 ABI reserves for the program, and the frame of a timer interrupt is read at the offsets of a
system-call frame.
-/

namespace XsCore.Signal

open Bytes Function List

variable {words : List Nat} {mask : SignalSet} {siginfo : List UInt8} {address sp : Nat}
  {memory memory' after : UserMemory} {st : TrapState}

/-! ## The frame codec -/

theorem decode_encode_magic (mask : SignalSet) (siginfo : List UInt8) (hwords : words.length = 20) :
    (decodeSigframe .x86_64 (encodeSigframe words mask siginfo)).magic = sigframeMagic := by
  have hbefore : (leWords 8 words ++ leBytes 4 mask.toNat).length = 164 := by simp [hwords]
  have hfield := leValue_field 4 sigframeMagic siginfo hbefore
  rw [append_assoc] at hfield
  exact hfield

theorem decode_encode_mask (hwords : words.length = 20) :
    (decodeSigframe .x86_64 (encodeSigframe words mask siginfo)).signalMask = mask := by
  have hbefore : (leWords 8 words).length = 160 := by simp [hwords]
  have hfield := leValue_field 4 mask.toNat (leBytes 4 sigframeMagic ++ siginfo) hbefore
  have hvalue : (decodeSigframe .x86_64 (encodeSigframe words mask siginfo)).signalMask =
      BitVec.ofNat 32 (mask.toNat % 256 ^ 4) := congrArg (BitVec.ofNat 32) hfield
  have hbound : mask.toNat < 256 ^ 4 := mask.isLt
  rw [hvalue, Nat.mod_eq_of_lt hbound, BitVec.ofNat_toNat]
  exact BitVec.setWidth_eq mask

variable {ctx : Nat → Nat} {d : Entered} {p : Process}

theorem decode_encode_word {i : Nat} (hi : i < 20) :
    (decodeSigframe .x86_64 (encodeSigframe (savedWords ctx) mask siginfo)).word i =
      (if i = 14 then 0 else ctx i) % 2 ^ 64 := by
  have hlength : i < (savedWords ctx).length := by simpa [savedWords] using hi
  have hword := leWordAt_leWords 8 (leBytes 4 mask.toNat ++ (leBytes 4 sigframeMagic ++ siginfo))
    hlength
  have hsaved : (savedWords ctx).get ⟨i, hlength⟩ = if i = 14 then 0 else ctx i := by
    simp [savedWords]
  rw [hsaved] at hword
  exact hword

/-! ## What dispatching leaves behind -/

theorem copyToUser_some {bytes : List UInt8} (h : copyToUser memory address bytes = some memory') :
    address ≠ 0 ∧ address + bytes.length ≤ 2 ^ 64 - 1 ∧
    memory'.byte = store memory.byte address bytes := by
  unfold copyToUser at h
  split at h
  · rename_i hrange
    cases h
    simp only [rangePrepare, Bool.and_eq_true, bne_iff_ne, decide_eq_true_eq] at hrange
    exact ⟨hrange.1.1, hrange.1.2, rfl⟩
  · cases h

/-- The handler starts with a signal frame just above its return address. -/
structure FrameWritten (p : Process) (ctx : Nat → Nat) (d : Entered) : Prop where
  address_pos : 0 < frameAddress (ctx 18)
  address_fits : frameAddress (ctx 18) + Arch.x86_64.frameSize ≤ 2 ^ 64 - 1
  stack : d.ctx 18 + 8 = frameAddress (ctx 18)
  frame : ∃ siginfo, load d.memory.byte (frameAddress (ctx 18)) Arch.x86_64.frameSize =
    encodeSigframe (savedWords ctx) p.signalMask siginfo
  stored : ∃ bytes rest, d.stores = (frameAddress (ctx 18), bytes) :: rest ∧
    bytes.length = Arch.x86_64.frameSize

theorem returnSlot_eq (hlow : 8 ≤ sp) (hhigh : sp ≤ 2 ^ 64 - 1) : returnSlot sp = sp - 8 := by
  unfold returnSlot
  omega

theorem enterHandler_stack (action : Sigaction) (signal sp : Nat) (ctx : Nat → Nat) :
    enterHandler action signal sp ctx 18 = sp := by
  unfold enterHandler
  split <;> rfl

theorem frameAddress_aligned {userSp : Nat} (h : frameAddress userSp ≠ 0) :
    16 ≤ frameAddress userSp := by
  unfold frameAddress at h ⊢
  omega

theorem signalFrame_length (p : Process) (ctx : Nat → Nat) :
    (signalFrame p ctx).length = Arch.x86_64.frameSize := by
  simp [signalFrame, encodeSigframe, savedWords, encodeSiginfo, Arch.frameSize, Arch.frameWords,
    Arch.wordBytes, siginfoSize]

theorem pushFrame_load {slot : Nat} {frame returnAddress : List UInt8}
    (h : pushFrame memory sp slot frame returnAddress = (memory', true)) :
    sp ≠ 0 ∧ sp + frame.length ≤ 2 ^ 64 - 1 ∧
    (slot + returnAddress.length ≤ sp → load memory'.byte sp frame.length = frame) := by
  unfold pushFrame at h
  split at h
  · cases h
  rename_i memory₁ hframe
  obtain ⟨hne, hfits, hbytes⟩ := copyToUser_some hframe
  split at h
  · cases h
  rename_i memory₂ hslot
  obtain ⟨-, -, hbytes₂⟩ := copyToUser_some hslot
  cases h
  refine ⟨hne, hfits, ?_⟩
  intro hbelow
  have hkeep : load memory'.byte sp frame.length = load memory₁.byte sp frame.length := by
    apply load_congr
    intro a hlow _
    rw [hbytes₂]
    exact store_outside (Or.inr (by omega))
  rw [hkeep, hbytes, load_store]

theorem dispatch_frameWritten {forkContext : Option (Nat → Nat)}
    (h : dispatchUserSignal p ctx forkContext memory = .entered d) : FrameWritten p ctx d := by
  obtain ⟨memory', hpush, rfl⟩ := dispatch_entered h
  rw [pushSignalFrame] at hpush
  obtain ⟨hne, hfits, hload⟩ := pushFrame_load hpush
  have hlow := frameAddress_aligned hne
  rw [signalFrame_length] at hfits hload
  have hslot := returnSlot_eq (show 8 ≤ frameAddress (ctx 18) by omega) (by omega)
  rw [hslot, leBytes_length] at hload
  refine ⟨by omega, hfits, ?_, ⟨_, hload (by omega)⟩, ⟨_, _, rfl, signalFrame_length p ctx⟩⟩
  have hstack : (enteredState p ctx forkContext memory').ctx 18 =
      returnSlot (frameAddress (ctx 18)) := enterHandler_stack _ _ _ _
  rw [hstack, hslot]
  omega

/-! ## Returning to the program -/

/-- The handler returned: its return address is popped, the frame on the stack is as dispatching
left it, and the thread is in the `sigreturn` system call. -/
structure HandlerReturned (d : Entered) (after : UserMemory) (st : TrapState) : Prop where
  stack : st.ctx 18 = d.ctx 18 + 8
  untouched : load after.byte (d.ctx 18 + 8) Arch.x86_64.frameSize =
    load d.memory.byte (d.ctx 18 + 8) Arch.x86_64.frameSize
  readable : rangePrepare after.readable (d.ctx 18 + 8) Arch.x86_64.frameSize = true
  context : st.forkContext.isSome = true

theorem restoreCtx_range (frame : Sigframe) (n : Nat) (ctx : Nat → Nat) (i : Nat) :
    restoreCtx frame ((range n).map fun i => (i, i)) ctx i =
      if i < n then frame.word i else ctx i := by
  induction n with
  | zero => rfl
  | succ n ih =>
    rw [restoreCtx] at ih ⊢
    rw [range_succ, map_append, foldl_append]
    simp only [map_cons, map_nil, foldl_cons, foldl_nil]
    by_cases hi : i = n
    · subst hi
      simp
    · rw [update_of_ne hi, ih]
      exact if_congr (by omega) rfl rfl

theorem handler_frame_accepted (hwritten : FrameWritten p ctx d)
    (hreturned : HandlerReturned d after st) : ∃ siginfo, acceptedFrame .x86_64 after st =
      some (decodeSigframe .x86_64 (encodeSigframe (savedWords ctx) p.signalMask siginfo)) := by
  obtain ⟨siginfo, hframe⟩ := hwritten.frame
  obtain ⟨forkContext, hcontext⟩ := Option.isSome_iff_exists.mp hreturned.context
  have hmagic := decode_encode_magic p.signalMask siginfo
    (show (savedWords ctx).length = 20 by simp [savedWords])
  have huntouched := hreturned.untouched
  have hreadable := hreturned.readable
  rw [hwritten.stack] at huntouched hreadable
  refine ⟨siginfo, ?_⟩
  have hread : readSigframe .x86_64 after (frameAddress (ctx 18)) =
      some (decodeSigframe .x86_64 (encodeSigframe (savedWords ctx) p.signalMask siginfo)) := by
    rw [readSigframe, copyFromUser, hreadable, if_pos rfl, huntouched, hframe]
    exact if_pos hmagic
  rw [acceptedFrame, hcontext, Option.bind_some, findSigframe, frameAddresses, hreturned.stack,
    hwritten.stack, findSome?_cons, hread]

/-- The program resumes with the words dispatching read from its trap frame, a cleared accumulator,
and the mask of the time of the dispatch. -/
theorem handler_resumes (hwritten : FrameWritten p ctx d) (hreturned : HandlerReturned d after st) :
    ∃ resumed, resumedContext .x86_64 after st = some resumed ∧
      (∀ i < 20, resumed.ctx i = (if i = 14 then 0 else ctx i) % 2 ^ 64) ∧
      resumed.signalMask = p.signalMask := by
  obtain ⟨siginfo, haccepted⟩ := handler_frame_accepted hwritten hreturned
  obtain ⟨hctx, -, hmask, hresult⟩ := sigreturn_accepted haccepted
  have hzero : (sigreturn .x86_64 after st).2 = 0 := by
    rw [hresult, resultWord, decode_encode_word (by omega)]
    rfl
  refine ⟨{ (sigreturn .x86_64 after st).1 with
    ctx := update (sigreturn .x86_64 after st).1.ctx 14 0 }, ?_, ?_, ?_⟩
  · rw [resumedContext, hzero]
    rfl
  · intro i hi
    show update (sigreturn .x86_64 after st).1.ctx 14 0 i = _
    by_cases haccumulator : i = 14
    · subst haccumulator
      rfl
    · rw [update_of_ne haccumulator, hctx, restoredWords, restoreCtx_range, if_pos hi,
        decode_encode_word hi]
  · show (sigreturn .x86_64 after st).1.signalMask = _
    rw [hmask, decode_encode_mask (by simp [savedWords])]

/-! ## Transparency -/

/-- A byte of the 128 below the stack pointer, addresses taken modulo the address space. -/
def InRedZone (sp a : Nat) : Prop :=
  ∃ k, 1 ≤ k ∧ k ≤ 128 ∧ a = (sp + 2 ^ 64 - k) % 2 ^ 64

def Overwritten (stores : List (Nat × List UInt8)) (a : Nat) : Prop :=
  ∃ block ∈ stores, block.1 ≤ a ∧ a < block.1 + block.2.length

/-- The interrupted program does not notice the handler: when the handler returns and has left its
frame alone, every register and the mask are back, and the red zone was not written. -/
def Transparent (regs : Registers) (mask : SignalSet) (d : Entered) : Prop :=
  (∀ after st, HandlerReturned d after st →
    ∃ resumed, resumedContext .x86_64 after st = some resumed ∧
      (∀ i < 20, resumed.ctx i = (regs i).toNat) ∧ resumed.signalMask = mask) ∧
  ∀ a, InRedZone (regs 18).toNat a → ¬ Overwritten d.stores a

theorem frame_end_inRedZone (hsp : sp < 2 ^ 64)
    (hfits : frameAddress sp + Arch.x86_64.frameSize ≤ 2 ^ 64 - 1) :
    InRedZone sp (frameAddress sp + (Arch.x86_64.frameSize - 1)) := by
  have hsize : Arch.x86_64.frameSize = 296 := rfl
  rw [frameAddress, hsize] at hfits ⊢
  exact ⟨(sp + 2 ^ 64 - 296) % 2 ^ 64 % 16 + 1, by omega, by omega, by omega⟩

theorem frame_end_overwritten (hwritten : FrameWritten p ctx d) :
    Overwritten d.stores (frameAddress (ctx 18) + (Arch.x86_64.frameSize - 1)) := by
  obtain ⟨bytes, rest, hstores, hlength⟩ := hwritten.stored
  refine ⟨(frameAddress (ctx 18), bytes), by simp [hstores], Nat.le_add_right _ _, ?_⟩
  have hsize : 0 < Arch.x86_64.frameSize := by decide
  show _ < frameAddress (ctx 18) + bytes.length
  omega

theorem exists_handlerReturned (hwritten : FrameWritten p ctx d) :
    ∃ after st, HandlerReturned d after st := by
  have hrange : rangePrepare (fun _ => true) (d.ctx 18 + 8) Arch.x86_64.frameSize := by
    have hpos := hwritten.address_pos
    have hfits := hwritten.address_fits
    rw [← hwritten.stack] at hpos hfits
    simp only [rangePrepare, all_eq_true, implies_true, Bool.and_eq_true, bne_iff_ne,
      decide_eq_true_eq]
    exact ⟨⟨by omega, hfits⟩, trivial⟩
  exact ⟨{ d.memory with readable := fun _ => true },
    { ctx := fun _ => d.ctx 18 + 8, forkContext := some fun _ => 0, userSp := 0, elr := 0, spsr := 0,
      entryElr := 0, entrySpsr := 0, signalMask := 0, forkResume := true },
    ⟨rfl, rfl, hrange, rfl⟩⟩

/-- The stack pointer that dispatching takes from the trap frame: the interrupt frame has the code
selector in its place. -/
theorem trapFrame_stack (layout : Layout) (regs : Registers) :
    ∃ r, layout.trapFrame regs 18 = (regs r).toNat := by
  cases layout with
  | syscall => exact ⟨18, rfl⟩
  | interrupt vector error => exact ⟨16, rfl⟩

/-- No dispatch is transparent: a program that gets its stack pointer back had its red zone
overwritten, since the frame was written right below that stack pointer. -/
theorem dispatch_not_transparent (layout : Layout) (regs : Registers) (p : Process)
    (forkContext : Option (Nat → Nat)) (memory : UserMemory) (d : Entered)
    (h : dispatchUserSignal p (layout.trapFrame regs) forkContext memory = .entered d) :
    ¬ Transparent regs p.signalMask d := by
  rintro ⟨hrestored, hredZone⟩
  have hwritten := dispatch_frameWritten h
  obtain ⟨after, st, hreturned⟩ := exists_handlerReturned hwritten
  obtain ⟨resumed, hresumed, hregs, -⟩ := hrestored after st hreturned
  obtain ⟨resumed', hresumed', hwords, -⟩ := handler_resumes hwritten hreturned
  have hsame : resumed = resumed' := Option.some.inj (hresumed.symm.trans hresumed')
  obtain ⟨r, hstack⟩ := trapFrame_stack layout regs
  have hbound : layout.trapFrame regs 18 < 2 ^ 64 := by
    rw [hstack]
    exact (regs r).toNat_lt
  have hsp : (regs 18).toNat = layout.trapFrame regs 18 := by
    rw [← hregs 18 (by omega), hsame, hwords 18 (by omega), if_neg (by omega),
      Nat.mod_eq_of_lt hbound]
  have hzone := frame_end_inRedZone hbound hwritten.address_fits
  rw [← hsp] at hzone
  exact hredZone _ hzone (by rw [hsp]; exact frame_end_overwritten hwritten)

/-! ## A handler at a system call -/

/-- A program that asks for system call 20 with `SIGINT` pending and a handler for it. -/
def callRegisters : Registers := fun i =>
  if i = 14 then 20 else if i = 15 then 0x400000 else if i = 16 then 0x23 else if i = 17 then 0x202
  else if i = 18 then 0x7008 else if i = 19 then 0x1b else 0

def interruptedProcess : Process where
  pendingSignal := 2
  pendingCode := 0
  pendingAddress := 0
  senderPid := 0
  senderUid := 0
  signalMask := 0
  ignoredSignals := 0
  actions := fun _ => { handler := 0x401000, mask := 0, flags := 0, restorer := 0x402000 }
  signalTrampoline := 0
  terminationSignal := 0
  exitStatus := 0
  forkResume := false

def mappedMemory : UserMemory where
  byte := fun _ => 0
  readable := fun _ => true
  writable := fun _ => true

theorem callRegisters_enter_handler :
    ∃ d, dispatchUserSignal interruptedProcess (Layout.syscall.trapFrame callRegisters) none
      mappedMemory = .entered d :=
  dispatch_enters none (by decide) (by decide +kernel)

theorem dispatch_not_transparent_callRegisters :
    ∃ d, dispatchUserSignal interruptedProcess (Layout.syscall.trapFrame callRegisters) none
        mappedMemory = .entered d ∧
      ¬ Transparent callRegisters interruptedProcess.signalMask d := by
  obtain ⟨d, h⟩ := callRegisters_enter_handler
  exact ⟨d, h, dispatch_not_transparent .syscall callRegisters interruptedProcess none mappedMemory
    d h⟩

/-- The system call number in the accumulator does not survive the handler. -/
theorem handler_clears_accumulator :
    ∃ d, dispatchUserSignal interruptedProcess (Layout.syscall.trapFrame callRegisters) none
        mappedMemory = .entered d ∧
      ∃ after st resumed, HandlerReturned d after st ∧
        resumedContext .x86_64 after st = some resumed ∧
        resumed.ctx 14 = 0 ∧ (callRegisters 14).toNat = 20 ∧
        ¬ Transparent callRegisters interruptedProcess.signalMask d := by
  obtain ⟨d, h⟩ := callRegisters_enter_handler
  have hwritten := dispatch_frameWritten h
  obtain ⟨after, st, hreturned⟩ := exists_handlerReturned hwritten
  obtain ⟨resumed, hresumed, hwords, -⟩ := handler_resumes hwritten hreturned
  have hcleared : resumed.ctx 14 = 0 := hwords 14 (by omega)
  refine ⟨d, h, after, st, resumed, hreturned, hresumed, hcleared, rfl, ?_⟩
  rintro ⟨hrestored, -⟩
  obtain ⟨resumed', hresumed', hregs, -⟩ := hrestored after st hreturned
  have hsame : resumed = resumed' := Option.some.inj (hresumed.symm.trans hresumed')
  have hcall : resumed.ctx 14 = 20 := by
    rw [hsame, hregs 14 (by omega)]
    rfl
  omega

end XsCore.Signal
