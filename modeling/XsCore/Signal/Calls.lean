import XsCore.Signal.Pending
import XsCore.Signal.Transparency

/-! # Signals around a system call

`xscore_syscall_dispatch` looks for a pending signal before it runs a call, and the bodies of `read`,
`write` and `kill` look again before they return.  A handler entered by one of these checks takes the
place of the return to the program.  When the handler is done, `sigreturn` resumes the program with
the accumulator of the signal frame, which was saved as zero.
-/

namespace XsCore.Signal

open Bytes Signal.Task

variable (ctx : Nat → Nat) (forkContext : Option (Nat → Nat))
variable {t : Task}

/-! ## The checks -/

inductive Check where
  | passes (task : Task) (memory : UserMemory)
  | enters (task : Task) (d : Entered)
  /-- The thread leaves the kernel for good; `task` is the process before its end is recorded. -/
  | ends (task : Task) (memory : UserMemory)

def Check.after : Check → Task
  | .passes t _ => t
  | .enters t d => afterDispatch t (.entered d)
  | .ends t _ => takeAndExit t

def Check.memory : Check → UserMemory
  | .passes _ memory | .ends _ memory => memory
  | .enters _ d => d.memory

/-- The check after `write`, and the last part of the others: a signal that is taken ends the
thread, whatever its disposition. -/
def takeCheck (t : Task) (memory : UserMemory) : Check :=
  match takePendingSignal t with
  | (t', none) => .passes t' memory
  | (_, some _) => .ends t memory

/-- `check_and_deliver_pending_signals` with its result. -/
def deliverCheck (t : Task) (ctx : Nat → Nat) (forkContext : Option (Nat → Nat))
    (memory : UserMemory) : Check :=
  match signalPendingCurrent t with
  | (t, false) => .passes t memory
  | (t, true) =>
    match dispatchUserSignal t.process ctx forkContext memory with
    | .entered d => .enters t d
    | .skipped => takeCheck t memory
    | .refused process memory => takeCheck { t with process := process } memory

/-! ## What a check does -/

def Task.caught (t : Task) : Bool :=
  t.process.pendingSignal != 0 && !t.blocks t.process.pendingSignal &&
    !t.ignores t.process.pendingSignal && t.hasHandler

def Task.endsByDefault (t : Task) : Bool :=
  t.process.pendingSignal != 0 && !t.blocks t.process.pendingSignal &&
    !t.ignores t.process.pendingSignal && !t.childNotice && !t.hasHandler

/-- The user stack can take the signal frame and the return address below it. -/
def stackTakes (memory : UserMemory) (userSp : Nat) : Bool :=
  rangePrepare memory.writable (frameAddress userSp) Arch.x86_64.frameSize &&
    rangePrepare memory.writable (returnSlot (frameAddress userSp)) 8

def Spared (t : Task) (ctx : Nat → Nat) (memory : UserMemory) : Prop :=
  t.caught = true →
    validSignal t.process.pendingSignal = true ∧ stackTakes memory (ctx 18) = false

theorem pushFrame_written (memory : UserMemory) (sp slot : Nat) (frame returnAddress : List UInt8) :
    (pushFrame memory sp slot frame returnAddress).2 =
      (rangePrepare memory.writable sp frame.length &&
        rangePrepare memory.writable slot returnAddress.length) := by
  unfold pushFrame copyToUser
  by_cases hframe : rangePrepare memory.writable sp frame.length
  · by_cases hslot : rangePrepare memory.writable slot returnAddress.length = true <;>
      simp [hframe, hslot]
  · simp [hframe]

theorem pushSignalFrame_written (p : Process) (ctx : Nat → Nat) (memory : UserMemory) :
    (pushSignalFrame p ctx memory).2 = stackTakes memory (ctx 18) := by
  rw [pushSignalFrame, pushFrame_written, signalFrame_length, leBytes_length]
  rfl

theorem handlerDue_of_caught (hcaught : t.caught) :
    handlerDue t.process = validSignal t.process.pendingSignal := by
  simp only [caught, blocks, hasHandler, Bool.and_eq_true, Bool.not_eq_true', bne_iff_ne] at hcaught
  obtain ⟨⟨⟨hpending, hblocked⟩, -⟩, hdefault, hignore⟩ := hcaught
  rw [handlerDue, bne_iff_ne.mpr hpending, hblocked, bne_iff_ne.mpr hdefault,
    bne_iff_ne.mpr hignore]
  simp

theorem not_handlerDue_of_no_handler (hnone : t.hasHandler = false) :
    handlerDue t.process = false := by
  simp only [hasHandler, Bool.and_eq_false_iff, bne_eq_false_iff_eq] at hnone
  rcases hnone with h | h <;> simp [handlerDue, h]

theorem takeCheck_ends (memory : UserMemory) (hpending : t.process.pendingSignal ≠ 0)
    (hblocked : t.blocks t.process.pendingSignal = false)
    (hignored : t.ignores t.process.pendingSignal = false) :
    takeCheck t memory = .ends t memory := by
  simp [takeCheck, takePendingSignal, hpending, hblocked, hignored]

theorem takeCheck_refused (t : Task) (p : Process) (memory : UserMemory)
    (hgone : p.pendingSignal = 0) :
    takeCheck { t with process := p } memory = .passes { t with process := p } memory := by
  simp [takeCheck, takePendingSignal, hgone]

/-- With a handler waiting, the check enters it, ends the thread if the signal has no valid number,
or passes if the stack has no room. -/
theorem deliverCheck_caught (memory : UserMemory) (hcaught : t.caught) :
    (validSignal t.process.pendingSignal = false ∧
      deliverCheck t ctx forkContext memory = .ends t memory) ∨
    (validSignal t.process.pendingSignal ∧ stackTakes memory (ctx 18) = false ∧
      ∃ t' memory', deliverCheck t ctx forkContext memory = .passes t' memory') ∨
    (validSignal t.process.pendingSignal ∧ stackTakes memory (ctx 18) ∧
      ∃ d, dispatchUserSignal t.process ctx forkContext memory = .entered d ∧
        deliverCheck t ctx forkContext memory = .enters t d) := by
  have hdue := handlerDue_of_caught hcaught
  simp only [caught, Bool.and_eq_true, Bool.not_eq_true', bne_iff_ne] at hcaught
  obtain ⟨⟨⟨hpending, hblocked⟩, hignored⟩, hhandler⟩ := hcaught
  have hnotice : t.childNotice = false := by
    by_contra hchild
    simp only [childNotice, Bool.not_eq_false, Bool.and_eq_true, beq_iff_eq] at hchild
    simp [hasHandler, hchild.1, hchild.2] at hhandler
  have hcurrent : signalPendingCurrent t = (t, true) := by
    simp [signalPendingCurrent, hpending, hblocked, hignored, hnotice]
  have hwritten := pushSignalFrame_written t.process ctx memory
  unfold deliverCheck
  rw [hcurrent]
  dsimp only
  rcases hvalid : validSignal t.process.pendingSignal with _ | _
  · rw [hvalid] at hdue
    rw [dispatch_skipped ctx forkContext memory hdue]
    exact .inl ⟨rfl, takeCheck_ends memory hpending hblocked hignored⟩
  rw [hvalid] at hdue
  rcases hroom : stackTakes memory (ctx 18) with _ | _
  swap
  · rw [hroom] at hwritten
    obtain ⟨d, hentered⟩ := dispatch_enters forkContext hdue hwritten
    rw [hentered]
    exact .inr (.inr ⟨rfl, rfl, d, rfl, rfl⟩)
  rw [hroom] at hwritten
  have hrefused : ∃ memory', dispatchUserSignal t.process ctx forkContext memory =
      .refused ({ t.process with pendingSignal := 0 }.exitForSignal sigSegv) memory' := by
    unfold dispatchUserSignal
    generalize pushSignalFrame t.process ctx memory = pushed at hwritten ⊢
    obtain ⟨memory', written⟩ := pushed
    dsimp only at hwritten
    rw [if_pos hdue, hwritten]
    exact ⟨memory', rfl⟩
  obtain ⟨memory', hrefused⟩ := hrefused
  rw [hrefused]
  exact .inr (.inl ⟨rfl, rfl, _, _, takeCheck_refused t _ memory' rfl⟩)

/-- With no handler waiting, the check passes unless the default action ends the process. -/
theorem deliverCheck_uncaught (memory : UserMemory) (hcaught : t.caught = false) :
    (t.endsByDefault = false ∧
      ∃ t' memory', deliverCheck t ctx forkContext memory = .passes t' memory') ∨
    (t.endsByDefault ∧ deliverCheck t ctx forkContext memory = .ends t memory) := by
  unfold deliverCheck
  by_cases hheld : t.process.pendingSignal = 0 ∨ t.blocks t.process.pendingSignal
  · have hends : t.endsByDefault = false := by
      rcases hheld with h | h <;> simp [endsByDefault, h]
    refine .inl ⟨hends, t, memory, ?_⟩
    rw [signalPendingCurrent, if_pos hheld]
  rcases hignored : t.ignores t.process.pendingSignal with _ | _
  swap
  · have hcurrent : signalPendingCurrent t = (t.clearPending, false) := by
      rw [signalPendingCurrent, if_neg hheld, if_pos hignored]
    rw [hcurrent]
    exact .inl ⟨by simp [endsByDefault, hignored], _, _, rfl⟩
  obtain ⟨hpending, hblocked⟩ := not_or.mp hheld
  have hblocked : t.blocks t.process.pendingSignal = false := by simpa using hblocked
  have hhandler : t.hasHandler = false := by
    simpa [caught, hpending, hblocked, hignored] using hcaught
  cases hnotice : t.childNotice with
  | true =>
    have hcurrent : ∃ t', signalPendingCurrent t = (t', false) := by
      rw [signalPendingCurrent, if_neg hheld, if_neg (by simp [hignored]), if_pos hnotice]
      exact ⟨_, rfl⟩
    obtain ⟨t', hcurrent⟩ := hcurrent
    rw [hcurrent]
    exact .inl ⟨by simp [endsByDefault, hnotice], _, _, rfl⟩
  | false =>
    have hcurrent : signalPendingCurrent t = (t, true) := by
      simp [signalPendingCurrent, hpending, hblocked, hignored, hnotice]
    rw [hcurrent]
    dsimp only
    rw [dispatch_skipped ctx forkContext memory (not_handlerDue_of_no_handler hhandler)]
    have hends : t.endsByDefault := by
      simp [endsByDefault, hpending, hblocked, hignored, hnotice, hhandler]
    exact .inr ⟨hends, takeCheck_ends memory hpending hblocked hignored⟩

/-- The check after `write` ends a thread whose handler waits. -/
theorem takeCheck_caught (memory : UserMemory) (hcaught : t.caught) :
    takeCheck t memory = .ends t memory ∧ t.hasHandler := by
  simp only [caught, Bool.and_eq_true, Bool.not_eq_true', bne_iff_ne] at hcaught
  obtain ⟨⟨⟨hpending, hblocked⟩, hignored⟩, hhandler⟩ := hcaught
  exact ⟨takeCheck_ends memory hpending hblocked hignored, hhandler⟩

theorem takeCheck_uncaught (memory : UserMemory) (hcaught : t.caught = false) :
    (∃ t', takeCheck t memory = .passes t' memory) ∨
    (takeCheck t memory = .ends t memory ∧ t.hasHandler = false) := by
  unfold takeCheck
  by_cases hheld : t.process.pendingSignal = 0 ∨ t.blocks t.process.pendingSignal
  · refine .inl ⟨t, ?_⟩
    rw [takePendingSignal, if_pos hheld]
  cases hignored : t.ignores t.process.pendingSignal with
  | true =>
    refine .inl ⟨t.clearPending, ?_⟩
    rw [takePendingSignal, if_neg hheld, if_pos hignored]
  | false =>
    obtain ⟨hpending, hblocked⟩ := not_or.mp hheld
    have hhandler : t.hasHandler = false := by
      simpa [caught, hpending, hblocked, hignored] using hcaught
    refine .inr ⟨?_, hhandler⟩
    rw [takePendingSignal, if_neg hheld, if_neg (by simp [hignored])]

/-! ## Calls -/

/-- An error number.  A call that fails returns its negation. -/
structure Errno where
  number : Nat
  pos : 0 < number
  small : number < 4096

def Errno.word (e : Errno) : Nat := 2 ^ 64 - e.number

def badDescriptor : Errno := ⟨9, by decide, by decide⟩
def noMemory : Errno := ⟨12, by decide, by decide⟩
def badAddress : Errno := ⟨14, by decide, by decide⟩
def invalidArgument : Errno := ⟨22, by decide, by decide⟩

def maxIo : Nat := 32768

/-- What a call works on; `world` is everything of the kernel that signals do not touch. -/
structure CallState (W : Type) where
  world : W
  task : Task
  memory : UserMemory

/-- The check a body makes before it returns. -/
inductive Recheck where
  | none | deliver | take

structure Done (W : Type) where
  state : CallState W
  effect : Option Nat
  result : Nat
  recheck : Recheck

variable {W : Type}

def CallState.refuse (s : CallState W) (e : Errno) : Done W :=
  { state := s, effect := none, result := e.word, recheck := .none }

/-- The arguments of `read`, and what the rest of the kernel does for it: other threads run and
signals arrive while `xscore_fd_read` waits for its bytes. -/
structure ReadCall (W : Type) where
  hasTable : Bool
  buffer : Nat
  length : Nat
  /-- The heap has room for the bounce buffer. -/
  allocated : Bool
  fdRead : Nat → CallState W → CallState W × Except Errno (List UInt8)
  fdRead_length : ∀ n s bytes, (fdRead n s).2 = .ok bytes → bytes.length ≤ n

def ReadCall.copyOut (c : ReadCall W) : CallState W × Except Errno (List UInt8) → Done W
  | (s, .error e) => { state := s, effect := some e.word, result := e.word, recheck := .deliver }
  | (s, .ok bytes) =>
    if bytes.length = 0 then { state := s, effect := some 0, result := 0, recheck := .deliver }
    else
      match copyToUser s.memory c.buffer bytes with
      | none =>
        { state := s, effect := some bytes.length, result := badAddress.word, recheck := .deliver }
      | some memory =>
        { state := { s with memory := memory }, effect := some bytes.length,
          result := bytes.length, recheck := .deliver }

def ReadCall.count (c : ReadCall W) : Nat := min c.length maxIo

def syscallRead (c : ReadCall W) (s : CallState W) : Done W :=
  if c.hasTable = false then s.refuse badDescriptor
  else if c.length = 0 then { state := s, effect := some 0, result := 0, recheck := .none }
  else if rangePrepare s.memory.writable c.buffer c.count = false then s.refuse badAddress
  else if c.allocated = false then s.refuse noMemory
  else c.copyOut (c.fdRead c.count s)

/-- The arguments of `write` and the rest of the kernel. -/
structure WriteCall (W : Type) where
  hasTable : Bool
  buffer : Nat
  length : Nat
  allocated : Bool
  fdWrite : List UInt8 → CallState W → CallState W × Except Errno Nat

def WriteCall.count (c : WriteCall W) : Nat := min c.length maxIo

def resultWordOf : Except Errno Nat → Nat
  | .error e => e.word
  | .ok n => n

def syscallWrite (c : WriteCall W) (s : CallState W) : Done W :=
  if c.hasTable = false then s.refuse badDescriptor
  else if c.length = 0 then { state := s, effect := some 0, result := 0, recheck := .none }
  else if c.allocated = false then s.refuse noMemory
  else
    match copyFromUser s.memory c.buffer c.count with
    | none => s.refuse badAddress
    | some bytes =>
      let written := c.fdWrite bytes s
      { state := written.1, effect := some (resultWordOf written.2),
        result := resultWordOf written.2, recheck := .take }

/-- The arguments of `kill`; `send` is the signal to one process or to a group. -/
structure KillCall (W : Type) where
  target : Nat
  signal : Nat
  send : CallState W → CallState W × Option Errno

def syscallKill (c : KillCall W) (s : CallState W) : Done W :=
  if c.target = 0 ∨ validSignal c.signal = false then s.refuse invalidArgument
  else
    match c.send s with
    | (s, none) => { state := s, effect := some 0, result := 0, recheck := .deliver }
    | (s, some e) => { state := s, effect := some e.word, result := e.word, recheck := .none }

/-- What the body of another call did and what it returns for it.  A call with an `output`, such as
`thread_join` or `waitpid`, copies that to the program when the action is done. -/
structure Reply where
  effect : Option Nat
  word : Nat
  output : Option (Nat × List UInt8)

inductive Call (W : Type) where
  /-- `exit` and `sigreturn`, which are not preceded by a check. -/
  | unchecked (body : CallState W → CallState W × Reply)
  | read (c : ReadCall W)
  | write (c : WriteCall W)
  | kill (c : KillCall W)
  | other (body : CallState W → CallState W × Reply)

def Call.checked : Call W → Bool
  | .unchecked _ => false
  | _ => true

def runBody : CallState W × Reply → Done W
  | (s, ⟨effect, word, none⟩) => { state := s, effect := effect, result := word, recheck := .none }
  | (s, ⟨effect, word, some (address, bytes)⟩) =>
    match copyToUser s.memory address bytes with
    | none => { state := s, effect := effect, result := badAddress.word, recheck := .none }
    | some memory =>
      { state := { s with memory := memory }, effect := effect, result := word, recheck := .none }

def Call.perform : Call W → CallState W → Done W
  | .unchecked body, s => runBody (body s)
  | .read c, s => syscallRead c s
  | .write c, s => syscallWrite c s
  | .kill c, s => syscallKill c s
  | .other body, s => runBody (body s)

/-! ## The dispatcher -/

inductive Leaving where
  | returns (word : Nat)
  | handled (d : Entered)
  /-- The thread ends; `task` is the process before its end is recorded. -/
  | ended (task : Task)

structure Outcome (W : Type) where
  state : CallState W
  effect : Option Nat
  leaving : Leaving

def Done.return (done : Done W) (s : CallState W) : Outcome W :=
  { state := s, effect := done.effect, leaving := .returns done.result }

def Check.leave (s : CallState W) (effect : Option Nat) (goOn : CallState W → Outcome W)
    (check : Check) : Outcome W :=
  let s := { s with task := check.after, memory := check.memory }
  match check with
  | .passes _ _ => goOn s
  | .enters _ d => { state := s, effect := effect, leaving := .handled d }
  | .ends t _ => { state := s, effect := effect, leaving := .ended t }

def Done.leave (done : Done W) (ctx : Nat → Nat) (forkContext : Option (Nat → Nat)) : Outcome W :=
  let s := done.state
  match done.recheck with
  | .none => done.return s
  | .deliver => (deliverCheck s.task ctx forkContext s.memory).leave s done.effect done.return
  | .take => (takeCheck s.task s.memory).leave s done.effect done.return

/-- `xscore_syscall_dispatch` for a thread of a process; `ctx` is its trap frame. -/
def syscallDispatch (call : Call W) (ctx : Nat → Nat) (forkContext : Option (Nat → Nat))
    (s : CallState W) : Outcome W :=
  if call.checked then
    (deliverCheck s.task ctx forkContext s.memory).leave s none
      fun s => (call.perform s).leave ctx forkContext
  else (call.perform s).leave ctx forkContext

end XsCore.Signal
