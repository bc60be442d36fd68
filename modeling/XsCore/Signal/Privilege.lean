import XsCore.Signal.Frame

/-! # What a forged signal frame can restore

`sigreturn` copies every saved word of the frame into the trap frame and takes the signal mask as
it stands.  On x86 the words include the selectors and the flags, on 32-bit ARM the status
register; AArch64 and RISC-V keep the status word that was captured at entry.  So a resumed context
is a user context exactly when the frame says so, and the restored mask blocks what the frame says.
-/

namespace XsCore.Signal

def PlainFlags (flags : Nat) : Prop :=
  flags.testBit 9 = true ∧ flags.testBit 12 = false ∧ flags.testBit 13 = false

instance (flags : Nat) : Decidable (PlainFlags flags) :=
  inferInstanceAs (Decidable (_ ∧ _ ∧ _))

/-- The trap frame `ctx` together with the AArch64 status register selects user mode. -/
def UserMode (arch : Arch) (ctx : Nat → Nat) (spsr : Nat) : Prop :=
  match arch with
  | .x86_64 => ctx 16 = 0x23 ∧ ctx 19 = 0x1b ∧ PlainFlags (ctx 17)
  | .i386 => ctx 7 = 0x1b ∧ ctx 10 = 0x23 ∧ PlainFlags (ctx 8)
  | .aarch64 => spsr % 32 = 0
  | .arm32 => ctx 0 % 32 = 0x10
  | .riscv64 | .riscv32 => (ctx 30).testBit 8 = false

instance (arch : Arch) (ctx : Nat → Nat) (spsr : Nat) : Decidable (UserMode arch ctx spsr) :=
  match arch with
  | .x86_64 | .i386 => inferInstanceAs (Decidable (_ ∧ _ ∧ _))
  | .aarch64 | .arm32 => inferInstanceAs (Decidable (_ % 32 = _))
  | .riscv64 | .riscv32 => inferInstanceAs (Decidable (_ = false))

/-- Neither of the two signals that no process may block. -/
def MaskAllowed (mask : SignalSet) : Prop :=
  mask.getLsbD sigKill = false ∧ mask.getLsbD sigStop = false

instance (mask : SignalSet) : Decidable (MaskAllowed mask) := inferInstanceAs (Decidable (_ ∧ _))

/-- The saved words of a frame that select the mode of the resumed context. -/
def Sigframe.UserMode (arch : Arch) (frame : Sigframe) : Prop :=
  match arch with
  | .x86_64 => frame.word 16 = 0x23 ∧ frame.word 19 = 0x1b ∧ PlainFlags (frame.word 17)
  | .i386 => frame.word 7 = 0x1b ∧ frame.word 10 = 0x23 ∧ PlainFlags (frame.word 8)
  | .arm32 => frame.word 16 % 32 = 0x10
  | .aarch64 | .riscv64 | .riscv32 => True

instance (arch : Arch) (frame : Sigframe) : Decidable (frame.UserMode arch) :=
  match arch with
  | .x86_64 | .i386 => inferInstanceAs (Decidable (_ ∧ _ ∧ _))
  | .arm32 => inferInstanceAs (Decidable (_ % 32 = _))
  | .aarch64 | .riscv64 | .riscv32 => inferInstanceAs (Decidable True)

/-- `sigreturn` gives no privilege: the context that is resumed, if any, is a user context, and the
mask leaves `SIGKILL` and `SIGSTOP` deliverable. -/
def KeepsPrivilege (arch : Arch) (memory : UserMemory) (st : TrapState) : Prop :=
  (∀ resumed, resumedContext arch memory st = some resumed →
    UserMode arch resumed.ctx resumed.spsr) ∧
  MaskAllowed (sigreturn arch memory st).1.signalMask

/-- An accepted frame asks for no privilege; with none accepted the mask stays as it is. -/
def Harmless (arch : Arch) (mask : SignalSet) : Option Sigframe → Prop
  | none => MaskAllowed mask
  | some frame =>
    MaskAllowed frame.signalMask ∧
      (exitsToKernel arch (arch.register (frame.word (resultWord arch))) = true ∨
        frame.UserMode arch)

instance (arch : Arch) (mask : SignalSet) :
    (frame : Option Sigframe) → Decidable (Harmless arch mask frame)
  | none => inferInstanceAs (Decidable (MaskAllowed mask))
  | some _ => inferInstanceAs (Decidable (_ ∧ _))

/-- The frame on the user stack is one that asks for no privilege. -/
def HarmlessFrame (arch : Arch) (memory : UserMemory) (st : TrapState) : Prop :=
  Harmless arch st.signalMask (acceptedFrame arch memory st)

instance (arch : Arch) (memory : UserMemory) (st : TrapState) :
    Decidable (HarmlessFrame arch memory st) :=
  inferInstanceAs (Decidable (Harmless _ _ _))

/-- The exit path only touches the result slot, and the AArch64 status comes from the entry copy. -/
theorem leaveKernel_userMode {arch : Arch} {st resumed : TrapState} {result : Int}
    (h : leaveKernel arch st result = some resumed) :
    UserMode arch resumed.ctx resumed.spsr ↔ UserMode arch st.ctx st.entrySpsr := by
  unfold leaveKernel at h
  split_ifs at h
  · cases arch <;> cases h <;> rfl

/-- The mode after the frame is copied in is the one the frame asks for; AArch64 and RISC-V keep
the mode of the entry. -/
theorem restoreCtx_userMode {arch : Arch} {ctx : Nat → Nat} {spsr : Nat}
    (entry : UserMode arch ctx spsr) (frame : Sigframe) :
    UserMode arch (restoreCtx frame (restoredWords arch) ctx) spsr ↔ frame.UserMode arch := by
  cases arch with
  | x86_64 | i386 | arm32 => rfl
  | aarch64 | riscv64 | riscv32 => exact iff_of_true entry trivial

theorem leaveKernel_resumes_user (arch : Arch) (st : TrapState) (result : Int) :
    (∀ resumed, leaveKernel arch st result = some resumed →
      UserMode arch resumed.ctx resumed.spsr) ↔
    (exitsToKernel arch (arch.register result) ∨ UserMode arch st.ctx st.entrySpsr) := by
  rcases hexit : exitsToKernel arch (arch.register result) with _ | _
  swap
  · simp [leaveKernel, hexit]
  have hresumes : ∃ resumed, leaveKernel arch st result = some resumed := by
    cases arch <;> simp [leaveKernel, hexit]
  constructor
  · intro h
    obtain ⟨resumed, hresumed⟩ := hresumes
    exact Or.inr ((leaveKernel_userMode hresumed).mp (h resumed hresumed))
  · rintro (hfalse | huser) resumed hresumed
    · cases hfalse
    · exact (leaveKernel_userMode hresumed).mpr huser

/-- A process that enters the kernel from user mode through `sigreturn` keeps to user mode, with
`SIGKILL` and `SIGSTOP` deliverable, exactly when its frame asks for no more than that. -/
theorem sigreturn_keeps_privilege_iff (arch : Arch) (memory : UserMemory) (st : TrapState)
    (entry : UserMode arch st.ctx st.entrySpsr) :
    KeepsPrivilege arch memory st ↔ HarmlessFrame arch memory st := by
  unfold KeepsPrivilege HarmlessFrame resumedContext
  rw [leaveKernel_resumes_user]
  cases haccepted : acceptedFrame arch memory st with
  | none =>
    rw [sigreturn_rejected haccepted]
    exact and_iff_right (Or.inr entry)
  | some frame =>
    obtain ⟨hctx, hspsr, hmask, hresult⟩ := sigreturn_accepted haccepted
    rw [hctx, hspsr, hmask, hresult, restoreCtx_userMode entry frame]
    exact And.comm

/-- A thread in the middle of `sigreturn`, with its stack pointer at the frame. -/
def userTrap : TrapState where
  ctx := fun i =>
    if i = 16 then 0x23 else if i = 17 then 0x202 else if i = 18 then 0x1000
    else if i = 19 then 0x1b else 0
  forkContext := some fun _ => 0
  userSp := 0
  elr := 0
  spsr := 0
  entryElr := 0
  entrySpsr := 0
  signalMask := 0
  forkResume := false

/-- User memory that holds an x86-64 frame with the given selectors, flags and mask at `0x1000`. -/
def frameMemory (cs ss flags mask : Nat) : UserMemory where
  byte := Bytes.store (fun _ => 0) 0x1000
    (Bytes.leWords 8 (List.replicate 16 0 ++ [cs, flags, 0x2000, ss]) ++ Bytes.leBytes 4 mask ++
      Bytes.leBytes 4 sigframeMagic ++ List.replicate siginfoSize 0)
  readable := fun _ => true
  writable := fun _ => true

def plainFrame : UserMemory := frameMemory 0x23 0x1b 0x202 0

def forgedFrame : UserMemory := frameMemory 0x08 0x10 0x3002 0xffffffff

theorem sigreturn_keeps_privilege_plainFrame :
    (acceptedFrame .x86_64 plainFrame userTrap).isSome = true ∧
    KeepsPrivilege .x86_64 plainFrame userTrap := by
  have hentry : UserMode .x86_64 userTrap.ctx userTrap.entrySpsr := by decide
  refine ⟨by decide +kernel, ?_⟩
  apply (sigreturn_keeps_privilege_iff .x86_64 plainFrame userTrap hentry).mpr
  decide +kernel

/-- A frame with the kernel selectors and a mask of all ones is restored as it stands. -/
theorem sigreturn_restores_kernel_selectors : UserMode .x86_64 userTrap.ctx userTrap.entrySpsr ∧
    ¬ KeepsPrivilege .x86_64 forgedFrame userTrap := by
  refine ⟨by decide, ?_⟩
  rintro ⟨huser, -⟩
  have hresumes : (resumedContext .x86_64 forgedFrame userTrap).any
      (·.ctx 16 == 0x08) := by
    decide +kernel
  obtain ⟨resumed, hresumed, hforged⟩ := (Option.any_eq_true _ _).mp hresumes
  have hselector : resumed.ctx 16 = 0x23 := (huser resumed hresumed).1
  rw [hselector] at hforged
  cases hforged

end XsCore.Signal
