import XsCore.Signal.Dispatch

/-! # The pending signal of a process

A process holds one pending signal.  Four senders write the slot, five consumers clear it, and two
calls change which signals are ignored.  The model keeps a log of what was sent to the process while
it was not ignored, and of what reached it.
-/

namespace XsCore.Signal

/-- The states in which a process can be found by its number. -/
inductive RunState where
  | ready | running | stopped | exited
  deriving DecidableEq

inductive Event where
  /-- A sender accepted the signal for this process. -/
  | sent (signal : Nat)
  /-- A handler was entered, or the default action was taken. -/
  | delivered (signal : Nat)
  /-- A signal descriptor took the signal. -/
  | taken (signal : Nat)

/-- Whether a signal still waits after one more event. -/
def Event.waits (signal : Nat) (before : Bool) : Event → Bool
  | .sent n => before || n == signal
  | .delivered n | .taken n => before && n != signal

def outstanding (log : List Event) (signal : Nat) : Bool :=
  log.foldl (Event.waits signal) false

/-- A process as its signals see it. -/
structure Task where
  process : Process
  run : RunState
  /-- `exit_status`, as `waitpid` reports it. -/
  waitStatus : Nat
  uid : Nat
  effectiveUid : Nat
  log : List Event

variable (t : Task)

def Task.record (events : List Event) : Task := { t with log := t.log ++ events }

def Task.ignores (signal : Nat) : Bool := t.process.ignoredSignals.getLsbD signal

def sigInt : Nat := 2

def siUser : Int := 0
def siKernel : Int := 0x80

def eperm : Int := -1

/-- `USER_SIGNAL_TRAMPOLINE_ADDRESS`: the page whose code ends the process. -/
def exitTrampoline : Nat := 0x8000000000 + 0x02800000

/-! ## Senders -/

def Task.storePending (signal : Nat) (code : Int) (senderPid senderUid : Nat) : Task :=
  { t with process := { t.process with
      pendingSignal := signal
      pendingCode := code
      pendingAddress := 0
      senderPid := senderPid
      senderUid := senderUid } }

def Task.stop (signal : Nat) : Task :=
  { t with run := .stopped, waitStatus := 0x7f ||| (signal <<< 8) }

def Task.continue : Task := { t with run := .ready, waitStatus := 0xffff }

structure Sender where
  pid : Nat
  effectiveUid : Nat

/-- A caller without privilege reaches only processes of its own user. -/
def Sender.refused (sender : Sender) (t : Task) : Bool :=
  sender.effectiveUid != 0 && sender.effectiveUid != t.uid && sender.effectiveUid != t.effectiveUid

def processSignal (caller : Option Sender) (signal : Nat) : Task × Int :=
  if validSignal signal = false then (t, einval)
  else if caller.any (·.refused t) then (t, eperm)
  else if t.ignores signal then (t, 0)
  else if (signal = sigStop ∨ signal = sigTstp) ∧ (t.run = .ready ∨ t.run = .running) then
    ((t.stop signal).record [.sent signal, .delivered signal], 0)
  else if signal = sigCont ∧ t.run = .stopped then
    (t.continue.record [.sent signal, .delivered signal], 0)
  else
    ((t.storePending signal siUser (caller.elim 0 Sender.pid)
      (caller.elim 0 Sender.effectiveUid)).record [.sent signal], 0)

/-- `xscore_process_signal_pgrp` for one member of the group.  The interactive shell of the terminal
is passed over for `SIGINT` and `SIGTSTP`. -/
def signalPgrp (interactiveShell : Bool) (signal : Nat) : Task × Bool :=
  if validSignal signal = false then (t, false)
  else if t.run = .exited ∨ t.ignores signal = true then (t, false)
  else if (signal = sigInt ∨ signal = sigTstp) ∧ interactiveShell = true then (t, false)
  else if signal = sigStop ∨ signal = sigTstp then
    ((t.stop signal).record [.sent signal, .delivered signal], true)
  else if signal = sigCont ∧ t.run = .stopped then
    (t.continue.record [.sent signal, .delivered signal], true)
  else ((t.storePending signal siKernel 0 0).record [.sent signal], true)

/-- The part of `process_mark_exited` that tells the parent: an occupied slot is left alone. -/
def childExited (childPid childUid : Nat) : Task :=
  if t.run = .exited ∨ t.ignores sigChld = true ∨ (t.process.actions sigChld).handler = sigIgn then t
  else if t.process.pendingSignal = 0 then
    (t.storePending sigChld siKernel childPid childUid).record [.sent sigChld]
  else t.record [.sent sigChld]

def Task.terminate (signal : Nat) : Task :=
  { t with process := t.process.exitForSignal signal, run := .exited }

/-- An exception in user mode that no handler of the kernel repairs. -/
def processFault (signal : Nat) : Task :=
  (t.terminate signal).record [.sent signal, .delivered signal]

/-! ## Dispositions and masks -/

def setSignalIgnored (signal : Nat) (ignored : Bool) : Task × Int :=
  if validSignal signal = false then (t, einval)
  else
    let set := t.process.ignoredSignals
    ({ t with process := { t.process with
        ignoredSignals := if ignored then set ||| signalBit signal else set &&& ~~~ signalBit signal } },
      if t.ignores signal then 1 else 0)

def Task.installAction (signal : Nat) (action : Sigaction) : Task :=
  let p := t.process
  { t with process := { p with
      actions := Function.update p.actions signal action
      ignoredSignals :=
        if action.handler = sigIgn then p.ignoredSignals ||| signalBit signal
        else p.ignoredSignals &&& ~~~ signalBit signal
      pendingSignal :=
        if action.handler = sigIgn ∧ p.pendingSignal = signal then 0 else p.pendingSignal
      signalTrampoline := if action.restorer ≠ 0 then action.restorer else p.signalTrampoline } }

def sigaction (signal : Nat) (act : Option Sigaction) : Task × Int :=
  if validSignal signal = false then (t, einval)
  else
    match act with
    | none => (t, 0)
    | some action =>
      if signal = sigKill ∨ signal = sigStop then (t, einval)
      else (t.installAction signal action, 0)

inductive MaskChange where
  | block | unblock | setMask

def updateSignalMask (how : MaskChange) (mask : SignalSet) : Task :=
  let changed := match how with
    | .block => t.process.signalMask ||| mask
    | .unblock => t.process.signalMask &&& ~~~ mask
    | .setMask => mask
  { t with process := { t.process with
      signalMask := changed &&& ~~~ (signalBit sigKill ||| signalBit sigStop) } }

def restoreSignalMask (mask : SignalSet) : Task :=
  { t with process := { t.process with signalMask := mask } }

def execReset (t : Task) : Task :=
  { t with process := { t.process with
      pendingSignal := 0
      senderPid := 0
      senderUid := 0
      terminationSignal := 0
      signalTrampoline := exitTrampoline
      forkResume := false
      actions := fun signal =>
        let action := t.process.actions signal
        if action.handler = sigIgn then action
        else { handler := sigDfl, mask := 0, flags := 0, restorer := 0 } } }

/-! ## Consumers -/

def Task.clearPending : Task :=
  { t with process := { t.process with pendingSignal := 0 } }

def Task.clearSender : Task :=
  { t with process := { t.process with pendingSignal := 0, senderPid := 0, senderUid := 0 } }

def Task.blocks (signal : Nat) : Bool := t.process.signalMask.getLsbD signal

/-- A pending `SIGCHLD` without a disposition of its own: the default action is to ignore it. -/
def Task.childNotice : Bool :=
  t.process.pendingSignal == sigChld && (t.process.actions sigChld).handler == sigDfl

def signalPendingCurrent (t : Task) : Task × Bool :=
  let signal := t.process.pendingSignal
  if signal = 0 ∨ t.blocks signal = true then (t, false)
  else if t.ignores signal then (t.clearPending, false)
  else if t.childNotice then (t.clearSender.record [.delivered signal], false)
  else (t, true)

def takePendingSignal (t : Task) : Task × Option Nat :=
  let signal := t.process.pendingSignal
  if signal = 0 ∨ t.blocks signal = true then (t, none)
  else if t.ignores signal then (t.clearPending, none)
  else (t.clearPending, some signal)

/-- Take the pending signal and end the process by it, as the system-call path does. -/
def takeAndExit (t : Task) : Task :=
  match takePendingSignal t with
  | (t, none) => t
  | (t, some signal) => (t.terminate signal).record [.delivered signal]

/-- What a handler entry, or the lack of one, means for the task. -/
def afterDispatch (t : Task) : DispatchResult → Task
  | .entered d => { t with process := d.process }.record [.delivered t.process.pendingSignal]
  | .skipped => takeAndExit t
  | .refused process _ => takeAndExit { t with process := process }

/-- `check_and_deliver_pending_signals`, before and after a system call. -/
def checkAndDeliver (ctx : Nat → Nat) (forkContext : Option (Nat → Nat)) (memory : UserMemory) :
    Task :=
  match signalPendingCurrent t with
  | (t, false) => t
  | (t, true) => afterDispatch t (dispatchUserSignal t.process ctx forkContext memory)

/-- A default action from the timer interrupt: the thread is sent to the trampoline.  Only the
trampoline the kernel installs ends the process; `sigaction` may have replaced it. -/
def Task.defaultAction : Task :=
  let signal := t.process.pendingSignal
  let trampoline := t.process.signalTrampoline
  if trampoline = 0 then t.clearPending
  else
    let ended := { t.clearPending with
      process := { t.clearPending.process with terminationSignal := signal } }
    if trampoline = exitTrampoline then ended.record [.delivered signal] else ended

/-- The handler of a timer interrupt, entered with the interrupt frame. -/
def afterInterruptDispatch (t : Task) : DispatchResult → Task
  | .entered d => { t with process := d.process }.record [.delivered t.process.pendingSignal]
  | .skipped => t
  | .refused process _ => { t with process := process }

def Task.hasHandler : Bool :=
  (t.process.actions t.process.pendingSignal).handler != sigDfl &&
    (t.process.actions t.process.pendingSignal).handler != sigIgn

def deliverPendingSignal (frame : Nat → Nat) (forkContext : Option (Nat → Nat))
    (memory : UserMemory) : Task :=
  let signal := t.process.pendingSignal
  if signal = 0 ∨ t.blocks signal = true then t
  else if t.ignores signal then t.clearPending
  else if t.childNotice then t.clearSender.record [.delivered signal]
  else if t.hasHandler then
    afterInterruptDispatch t (dispatchUserSignal t.process frame forkContext memory)
  else t.defaultAction

def Task.shows (mask : SignalSet) : Bool :=
  t.process.pendingSignal != 0 && decide (t.process.pendingSignal ≤ signalMax) &&
    mask.getLsbD t.process.pendingSignal

def signalfdPending (mask : SignalSet) : Task × Bool :=
  if t.shows mask = false then (t, false)
  else if t.ignores t.process.pendingSignal then (t.clearSender, false)
  else (t, true)

/-- `xscore_process_signalfd_take`: the signal, its sender and the sender's user. -/
def signalfdTake (mask : SignalSet) : Task × Option (Nat × Nat × Nat) :=
  let p := t.process
  if t.shows mask = false then (t, none)
  else if t.ignores p.pendingSignal then (t.clearSender, none)
  else (t.clearSender.record [.taken p.pendingSignal],
    some (p.pendingSignal, p.senderPid, p.senderUid))

/-! ## Histories -/

inductive SignalOp where
  | kill (caller : Option Sender) (signal : Nat)
  | killGroup (interactiveShell : Bool) (signal : Nat)
  | childExit (pid uid : Nat)
  | fault (signal : Nat)
  | setIgnored (signal : Nat) (ignored : Bool)
  | sigaction (signal : Nat) (act : Option Sigaction)
  | updateMask (how : MaskChange) (mask : SignalSet)
  | sigreturn (mask : SignalSet)
  | exec
  | systemCall (ctx : Nat → Nat) (forkContext : Option (Nat → Nat)) (memory : UserMemory)
  | writeCall
  | timerInterrupt (frame : Nat → Nat) (forkContext : Option (Nat → Nat)) (memory : UserMemory)
  | pollSignalfd (mask : SignalSet)
  | readSignalfd (mask : SignalSet)

def SignalOp.apply (t : Task) : SignalOp → Task
  | .kill caller signal => (processSignal t caller signal).1
  | .killGroup interactiveShell signal => (signalPgrp t interactiveShell signal).1
  | .childExit pid uid => childExited t pid uid
  | .fault signal => processFault t signal
  | .setIgnored signal ignored => (setSignalIgnored t signal ignored).1
  | .sigaction signal act => (Signal.sigaction t signal act).1
  | .updateMask how mask => updateSignalMask t how mask
  | .sigreturn mask => restoreSignalMask t mask
  | .exec => execReset t
  | .systemCall ctx forkContext memory => checkAndDeliver t ctx forkContext memory
  | .writeCall => takeAndExit t
  | .timerInterrupt frame forkContext memory => deliverPendingSignal t frame forkContext memory
  | .pollSignalfd mask => (signalfdPending t mask).1
  | .readSignalfd mask => (signalfdTake t mask).1

end XsCore.Signal
