import XsCore.Signal.CallReports

/-! # Dispositions at the delivery points

Five paths of the kernel notice a pending signal, and each decides for itself what becomes of it.
The disposition of the signal is what `sigaction` and the standard defaults make of it.
-/

namespace XsCore.Signal

/-! ## What a signal is meant to do -/

inductive Disposition where
  | handler | ignore | terminate
  /-- The default action stops or continues the process, or is none of its business. -/
  | spare
  deriving DecidableEq

/-- The signals whose default action does not end a process: `SIGCHLD`, `SIGCONT`, the four stop
signals, `SIGURG` and `SIGWINCH`. -/
def sparedByDefault (signal : Nat) : Bool := signal ∈ [17, 18, 19, 20, 21, 22, 23, 28]

def Task.disposition (t : Task) : Disposition :=
  let signal := t.process.pendingSignal
  if t.ignores signal || (t.process.actions signal).handler == sigIgn then .ignore
  else if t.hasHandler then .handler
  else if signal == sigChld then .ignore
  else if sparedByDefault signal then .spare
  else .terminate

/-- The two tasks differ at most in the pending slot and in what has been recorded of it. -/
def Unaffected (before after : Task) : Prop :=
  before.clearSender.process = after.clearSender.process ∧ before.run = after.run ∧
    before.waitStatus = after.waitStatus

/-! ## What the kernel does -/

inductive Site where
  | callEntry | afterRead | afterWrite | wait | timer
  deriving DecidableEq

inductive Verdict where
  | goesOn (task : Task)
  /-- The call returns `EINTR` and the signal stays pending for the next delivery point. -/
  | interrupted (task : Task)
  | handles (d : Entered)
  | ends

def Check.verdict : Check → Verdict
  | .passes t _ => .goesOn t
  | .enters _ d => .handles d
  | .ends _ _ => .ends

/-- The check of every loop that waits inside a call. -/
def waitVerdict (t : Task) : Verdict :=
  match signalPendingCurrent t with
  | (t, false) => .goesOn t
  | (t, true) => .interrupted t

/-- `xscore_process_deliver_pending_signal` with its result.  A default action sends the thread to
the trampoline with its termination recorded. -/
def timerVerdict (t : Task) (frame : Nat → Nat) (forkContext : Option (Nat → Nat))
    (memory : UserMemory) : Verdict :=
  let signal := t.process.pendingSignal
  if signal = 0 ∨ t.blocks signal = true then .goesOn t
  else if t.ignores signal then .goesOn t.clearPending
  else if t.childNotice then .goesOn (t.clearSender.record [.delivered signal])
  else if t.hasHandler then
    match dispatchUserSignal t.process frame forkContext memory with
    | .entered d => .handles d
    | .skipped => .goesOn t
    | .refused process _ => .goesOn { t with process := process }
  else if t.process.signalTrampoline = 0 then .goesOn t.clearPending
  else .ends

/-- What the path makes of the pending signal, given the registers it reads. -/
def Site.verdict (site : Site) (t : Task) (ctx : Nat → Nat) (forkContext : Option (Nat → Nat))
    (memory : UserMemory) : Verdict :=
  match site with
  | .callEntry | .afterRead => (deliverCheck t ctx forkContext memory).verdict
  | .afterWrite => (takeCheck t memory).verdict
  | .wait => waitVerdict t
  | .timer => timerVerdict t ctx forkContext memory

/-- The frame a path hands to the dispatcher. -/
def Site.layout (vector error : Nat) : Site → Layout
  | .timer => .interrupt vector error
  | _ => .syscall

/-- The word of the trap frame that holds a register. -/
def Layout.place : Layout → Nat → Nat
  | .syscall, i => i
  | .interrupt _ _, i => if i < 15 then i else i + 2

/-- The kernel returns to the handler: to its address, in the segment of the program, with the
signal as argument and the stack below the signal frame. -/
structure HandlerRuns (t : Task) (layout : Layout) (regs : Registers) (d : Entered) : Prop where
  address : d.ctx (layout.place 15) = (t.process.actions t.process.pendingSignal).handler
  segment : d.ctx (layout.place 16) = (regs 16).toNat
  argument : d.ctx (layout.place 9) = t.process.pendingSignal
  stack : d.ctx (layout.place 18) = returnSlot (frameAddress (regs 18).toNat)

def Honoured (t : Task) (layout : Layout) (regs : Registers) (verdict : Verdict) : Prop :=
  match t.disposition with
  | .handler => (∃ d, verdict = .handles d ∧ HandlerRuns t layout regs d) ∨
      verdict = .interrupted t
  | .ignore => ∃ t', verdict = .goesOn t' ∧ Unaffected t t'
  | .terminate => True
  | .spare => verdict ≠ .ends

/-- The default action of the timer interrupt has nowhere to send the thread. -/
def Site.Toothless (site : Site) (t : Task) : Prop :=
  site = .timer ∧ t.process.signalTrampoline = 0

instance (site : Site) (t : Task) : Decidable (site.Toothless t) :=
  inferInstanceAs (Decidable (_ ∧ _))

/-- When the path honours the disposition; `room` says that the user stack takes the frame. -/
def Site.Honours (site : Site) (t : Task) (room : Bool) : Prop :=
  match t.disposition with
  | .handler => site = .wait ∨ ((site = .callEntry ∨ site = .afterRead) ∧ room = true)
  | .ignore => t.ignores t.process.pendingSignal = true ∨
      (t.childNotice = true ∧ site ≠ .afterWrite) ∨ (t.childNotice = false ∧ site.Toothless t)
  | .terminate => True
  | .spare => site = .wait ∨ site.Toothless t

theorem unaffected_clearPending (t : Task) : Unaffected t t.clearPending := ⟨rfl, rfl, rfl⟩

theorem unaffected_childNotice (t : Task) (events : List Event) :
    Unaffected t (t.clearSender.record events) := ⟨rfl, rfl, rfl⟩

section Noticed

variable {t : Task} (site : Site) (ctx : Nat → Nat) (forkContext : Option (Nat → Nat))
  (memory : UserMemory)

theorem verdict_ignored (hpending : t.process.pendingSignal ≠ 0)
    (hunmasked : t.blocks t.process.pendingSignal = false)
    (hignored : t.ignores t.process.pendingSignal) :
    site.verdict t ctx forkContext memory = .goesOn t.clearPending := by
  cases site <;>
    simp [Site.verdict, Check.verdict, deliverCheck, takeCheck, waitVerdict, timerVerdict,
      signalPendingCurrent, takePendingSignal, hpending, hunmasked, hignored]

/-- Only the check after `write` does not know the default action of `SIGCHLD`. -/
theorem verdict_childNotice (hpending : t.process.pendingSignal ≠ 0)
    (hunmasked : t.blocks t.process.pendingSignal = false)
    (hheard : t.ignores t.process.pendingSignal = false) (hchild : t.childNotice) :
    site.verdict t ctx forkContext memory =
      if site = .afterWrite then .ends
      else .goesOn (t.clearSender.record [.delivered t.process.pendingSignal]) := by
  cases site <;>
    simp [Site.verdict, Check.verdict, deliverCheck, takeCheck, waitVerdict, timerVerdict,
      signalPendingCurrent, takePendingSignal, hpending, hunmasked, hheard, hchild]

theorem verdict_default (hends : t.endsByDefault) : site.verdict t ctx forkContext memory =
      if site = .wait then .interrupted t
      else if site.Toothless t then .goesOn t.clearPending
      else .ends := by
  simp only [Task.endsByDefault, Bool.and_eq_true, Bool.not_eq_true', bne_iff_ne] at hends
  obtain ⟨⟨⟨⟨hpending, hunmasked⟩, hheard⟩, hchild⟩, hhandler⟩ := hends
  have hskipped := dispatch_skipped ctx forkContext memory (not_handlerDue_of_no_handler hhandler)
  cases site <;>
    simp [Site.verdict, Check.verdict, deliverCheck, takeCheck, waitVerdict, timerVerdict,
      signalPendingCurrent, takePendingSignal, hpending, hunmasked, hheard, hchild, hhandler,
      hskipped, Site.Toothless]

theorem takeCheck_lets_go (t : Task) (memory : UserMemory) :
    (∀ d, (takeCheck t memory).verdict ≠ .handles d) ∧
      ∀ t', (takeCheck t memory).verdict ≠ .interrupted t' := by
  unfold takeCheck
  split <;> simp [Check.verdict]

theorem enterHandler_address (action : Sigaction) (signal sp : Nat) (ctx : Nat → Nat) :
    enterHandler action signal sp ctx 15 = action.handler := by
  unfold enterHandler
  split <;> rfl

theorem enterHandler_argument (action : Sigaction) (signal sp : Nat) (ctx : Nat → Nat) :
    enterHandler action signal sp ctx 9 = signal := by
  unfold enterHandler
  split <;> rfl

theorem enterHandler_segment (action : Sigaction) (signal sp : Nat) (ctx : Nat → Nat) :
    enterHandler action signal sp ctx 16 = ctx 16 := by
  unfold enterHandler
  split <;> rfl

theorem handlerRuns_syscall (regs : Registers) {d : Entered}
    (h : dispatchUserSignal t.process (Layout.syscall.trapFrame regs) forkContext memory =
      .entered d) : HandlerRuns t .syscall regs d := by
  obtain ⟨memory', -, rfl⟩ := dispatch_entered h
  exact ⟨enterHandler_address _ _ _ _, enterHandler_segment _ _ _ _, enterHandler_argument _ _ _ _,
    enterHandler_stack _ _ _ _⟩

theorem returnSlot_ne (n : UInt64) : returnSlot (frameAddress n.toNat) ≠ n.toNat := by
  have hlt := n.toNat_lt
  unfold returnSlot frameAddress Arch.frameSize
  simp only [Arch.frameWords, Arch.wordBytes, siginfoSize]
  omega

/-- In the frame of an interrupt the dispatcher takes the code segment for the stack pointer, and
puts the new stack pointer into its place. -/
theorem not_handlerRuns_interrupt (vector error : Nat) (regs : Registers) {d : Entered}
    (h : dispatchUserSignal t.process ((Layout.interrupt vector error).trapFrame regs) forkContext
      memory = .entered d) : ¬ HandlerRuns t (.interrupt vector error) regs d := by
  obtain ⟨memory', -, rfl⟩ := dispatch_entered h
  intro hruns
  exact returnSlot_ne (regs 16) ((enterHandler_stack _ _ _ _).symm.trans hruns.segment)

theorem dispatch_enters_iff (hvalid : validSignal t.process.pendingSignal) (hcaught : t.caught) :
    (∃ d, dispatchUserSignal t.process ctx forkContext memory = .entered d) ↔
      stackTakes memory (ctx 18) := by
  rw [← pushSignalFrame_written t.process ctx memory]
  constructor
  · rintro ⟨d, hentered⟩
    obtain ⟨memory', hpushed, -⟩ := dispatch_entered hentered
    rw [hpushed]
  · exact dispatch_enters forkContext ((handlerDue_of_caught hcaught).trans hvalid)

/-- A handler runs where a call looks for one and the stack has room. -/
theorem verdict_caught (vector error : Nat) (regs : Registers)
    (hvalid : validSignal t.process.pendingSignal) (hcaught : t.caught)
    (hchild : t.childNotice = false) :
    ((∃ d, site.verdict t ((site.layout vector error).trapFrame regs) forkContext memory =
          .handles d ∧ HandlerRuns t (site.layout vector error) regs d) ∨
      site.verdict t ((site.layout vector error).trapFrame regs) forkContext memory =
        .interrupted t) ↔
    site = .wait ∨ ((site = .callEntry ∨ site = .afterRead) ∧
      stackTakes memory (regs 18).toNat) := by
  have henters := dispatch_enters_iff (Layout.syscall.trapFrame regs) forkContext memory hvalid
    hcaught
  have hruns := fun d => handlerRuns_syscall (t := t) forkContext memory regs (d := d)
  have hlost := fun d =>
    not_handlerRuns_interrupt (t := t) forkContext memory vector error regs (d := d)
  simp only [Task.caught, Bool.and_eq_true, Bool.not_eq_true', bne_iff_ne] at hcaught
  obtain ⟨⟨⟨hpending, hunmasked⟩, hheard⟩, hhandler⟩ := hcaught
  have hcurrent : signalPendingCurrent t = (t, true) := by
    simp [signalPendingCurrent, hpending, hunmasked, hheard, hchild]
  -- what remains depends only on how the dispatch ends
  cases site with
  | wait => simp [Site.verdict, waitVerdict, hcurrent]
  | afterWrite => simp [Site.verdict, takeCheck_lets_go]
  | timer =>
    simp only [Site.verdict, timerVerdict, hpending, hunmasked, hheard, hchild, hhandler,
      Site.layout]
    cases hout : dispatchUserSignal t.process ((Layout.interrupt vector error).trapFrame regs)
      forkContext memory <;> simp_all
  | callEntry | afterRead =>
    simp only [Site.verdict, deliverCheck, hcurrent, Site.layout]
    rw [show stackTakes memory (regs 18).toNat = true ↔ _ from henters.symm]
    cases hout : dispatchUserSignal t.process (Layout.syscall.trapFrame regs) forkContext
      memory with
    | entered d => simp [Check.verdict, hruns d hout]
    | skipped | refused process memory => simp [takeCheck_lets_go]

end Noticed

def childExitTask : Task :=
  { interruptedTask with process := { interruptedProcess with
      pendingSignal := sigChld
      actions := fun _ => { handler := sigDfl, mask := 0, flags := 0, restorer := 0 } } }

end XsCore.Signal
