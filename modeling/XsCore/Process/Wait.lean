import XsCore.Foundation.Machine
import XsCore.Sched.Threads
import Mathlib.Algebra.Group.Nat.Defs

/-! # Exits and waits

The process table of `kernel/process.c`: `process_mark_exited`, `xscore_process_waitpid_options`,
`xscore_process_wait` and `xscore_process_reap`, with what creates, stops and adopts processes.  A
step is one section under a lock.  A wait looks for a child, sleeps on the one it has chosen, reads
its status and reaps it; other steps come in between.
-/

namespace XsCore.Process

open XsCore.Sched

inductive ProcState where
  | unused
  | allocating
  | ready
  | running
  | stopped
  | exited
  | reaped
  deriving DecidableEq

def ProcState.visible : ProcState → Bool
  | .ready | .running | .stopped | .exited => true
  | .unused | .allocating | .reaped => false

def ProcState.ended : ProcState → Bool
  | .exited | .stopped => true
  | _ => false

/-- A state that makes a process a parent worth telling, or a reaper. -/
def ProcState.live : ProcState → Bool
  | .ready | .running | .stopped => true
  | _ => false

structure Proc where
  state : ProcState := .unused
  pid : Nat := 0
  parentPid : Nat := 0
  threadId : Nat := 0
  waiterThreadId : Nat := 0
  exitStatus : Nat := 0
  terminationSignal : Nat := 0
  pendingSignal : Nat := 0
  /-- `SIGCHLD` is in `ignored_signals` or its handler is `AKAOS_SIG_IGN`. -/
  ignoresChild : Bool := false

def userMaxProcesses : Nat := 64

def sigchld : Nat := 17

/-- What `xscore_process_waitpid_options` stores for a process that has ended, with the status that
`xscore_process_wait` read. -/
def Proc.word (p : Proc) (status : Nat) : Nat :=
  if p.terminationSignal ≠ 0 then p.terminationSignal % 128 else status % 256 * 256

inductive WaitPhase where
  /-- The scan has chosen a child. -/
  | chosen
  /-- Registered with the child; about to look at its state. -/
  | asleep
  /-- The child has not ended; `xscore_thread_block` comes next. -/
  | nodding
  | resumed
  | answered (status : Nat)
  | reaping (pid word : Nat)
  deriving DecidableEq

structure Call where
  caller : Nat
  wanted : Nat
  target : Nat
  phase : WaitPhase
  deriving DecidableEq

/-- `any_child`: all the spellings of -1 have their low 32 bits set. -/
def anyChild (pid : Nat) : Bool := pid % 2 ^ 32 = 2 ^ 32 - 1

structure Report where
  caller : Nat
  wanted : Nat
  pid : Nat
  word : Nat
  /-- The state of the child when the call looked at it last. -/
  state : ProcState
  parent : Nat
  deriving DecidableEq

structure Processes where
  procs : Nat → Proc
  nextPid : Nat
  reaperPid : Nat
  sched : Scheduler
  calls : Nat → Option Call
  exits : List (Nat × Nat)
  reports : List Report

variable (s : Processes)

namespace Processes

def boot : Processes where
  procs _ := {}
  nextPid := 1
  reaperPid := 0
  sched := .boot
  calls _ := none
  exits := []
  reports := []

def setProc (i : Nat) (p : Proc) : Processes :=
  { s with procs := Function.update s.procs i p }

def setCall (t : Nat) (c : Option Call) : Processes :=
  { s with calls := Function.update s.calls t c }

def wake (s : Processes) (t : Nat) : Processes :=
  { s with sched := (s.sched.wake t).getD s.sched }

/-! ### Creation -/

def freeSlot (s : Processes) : Option Nat :=
  (List.range userMaxProcesses).find? fun i =>
    (s.procs i).state = .unused || (s.procs i).state = .reaped

/-- `process_slot_reserve`, and the fields a creator fills in before it publishes the process. -/
def reserve (parentPid : Nat) (ignoresChild : Bool) : Processes :=
  match s.freeSlot with
  | none => s
  | some i =>
    { s.setProc i { state := .allocating, pid := s.nextPid, parentPid := parentPid,
                    exitStatus := 2 ^ 64 - 1, ignoresChild := ignoresChild } with
      nextPid := s.nextPid + 1 }

/-! ### Exit -/

/-- The process that takes over the children of the process in slot `i`; 0 for none. -/
def adopter (i : Nat) : Nat :=
  if s.reaperPid = (s.procs i).pid then 0
  else
    match (List.range userMaxProcesses).find? fun j => (s.procs j).pid = s.reaperPid with
    | some j => if (s.procs j).state.live then s.reaperPid else 0
    | none => 0

def adopt (i : Nat) : Processes :=
  let adopterPid := s.adopter i
  { s with
    procs := fun j =>
      if j ≠ i ∧ (s.procs j).state.visible ∧ (s.procs j).parentPid = (s.procs i).pid then
        { s.procs j with parentPid := adopterPid }
      else s.procs j
    reaperPid := if s.reaperPid = (s.procs i).pid then 0 else s.reaperPid }

def retire (i status : Nat) : Processes :=
  let p := s.procs i
  { s.setProc i { p with exitStatus := status, state := .exited } with
    exits := (p.pid, p.word status) :: s.exits }

/-- The parent gets a `SIGCHLD` unless another signal is pending; the thread to wake for it, or 0. -/
def notifyParent (i : Nat) : Processes × Nat :=
  let parentPid := (s.procs i).parentPid
  if parentPid = 0 then (s, 0)
  else
    match (List.range userMaxProcesses).find? fun j => j ≠ i && (s.procs j).pid = parentPid with
    | none => (s, 0)
    | some j =>
      let parent := s.procs j
      if parent.state.live && !parent.ignoresChild then
        let pending := if parent.pendingSignal = 0 then sigchld else parent.pendingSignal
        (s.setProc j { parent with pendingSignal := pending },
          if pending = sigchld then parent.threadId else 0)
      else (s, 0)

/-- `process_mark_exited`, called once, by the process's first thread.  That the other threads are
asked to exit is a move of each of them. -/
def markExited (i status : Nat) : Processes :=
  let waiterThread := (s.procs i).waiterThreadId
  let (s, parentThread) := ((s.adopt i).retire i status).notifyParent i
  (s.wake waiterThread).wake parentThread

def setReaper (i : Nat) : Processes :=
  let pid := (s.procs i).pid
  if pid ≠ 0 ∧ (s.procs i).state.live then
    { s with
      reaperPid := pid
      procs := fun j =>
        if j ≠ i ∧ (s.procs j).state.visible ∧ (s.procs j).parentPid = 0 then
          { s.procs j with parentPid := pid }
        else s.procs j }
  else s

/-! ### Stop and continue -/

/-- A stop signal, by `xscore_process_signal` or `xscore_process_signal_pgrp`. -/
def stop (i signal : Nat) : Processes :=
  if (s.procs i).state.live then
    (s.setProc i { s.procs i with state := .stopped, exitStatus := 127 + signal * 256 }).wake
      (s.procs i).waiterThreadId
  else s

def resume (i : Nat) : Processes :=
  if (s.procs i).state = .stopped then
    (s.setProc i { s.procs i with state := .ready, exitStatus := 65535 }).wake (s.procs i).threadId
  else s

/-! ### Waits -/

def isWanted (caller wanted i : Nat) : Bool :=
  (s.procs i).state.visible && (s.procs i).parentPid = caller &&
    (anyChild wanted || (s.procs i).pid = wanted)

/-- The scan: the first wanted child that has exited or stopped, or else the first wanted child. -/
def findChild (s : Processes) (caller wanted : Nat) : List Nat → Option Nat → Option Nat
  | [], found => found
  | i :: rest, found =>
    if s.isWanted caller wanted i then
      if (s.procs i).state.ended then some i
      else s.findChild caller wanted rest (found.or (some i))
    else s.findChild caller wanted rest found

/-- The scan of `xscore_process_waitpid_options`.  A caller without such a child gets `ECHILD`, one
that does not want to hang gets 0; both leave nothing behind. -/
def waitpid (t caller wanted options : Nat) : Processes :=
  match s.findChild caller wanted (List.range userMaxProcesses) none with
  | none => s
  | some i =>
    if options % 2 = 1 ∧ ¬ (s.procs i).state.ended then s
    else s.setCall t (some ⟨caller, wanted, i, .chosen⟩)

def enter (t : Nat) (c : Call) : Processes :=
  let p := s.procs c.target
  match p.state with
  | .ready | .running =>
    (s.setProc c.target { p with waiterThreadId := t }).setCall t (some { c with phase := .asleep })
  | .stopped => s.setCall t (some { c with phase := .answered p.exitStatus })
  | .exited => s.setCall t (some { c with phase := .resumed })
  | .unused | .allocating | .reaped => s.setCall t none

def check (t : Nat) (c : Call) : Processes :=
  s.setCall t (some { c with
    phase := if (s.procs c.target).state.ended then .resumed else .nodding })

def block (s : Processes) (t : Nat) (c : Call) : Processes :=
  { s with sched := s.sched.setThread t (s.sched.threads t).block.1 }.setCall t
    (some { c with phase := .asleep })

def report (c : Call) (pid word : Nat) : Report :=
  let p := s.procs c.target
  ⟨c.caller, c.wanted, pid, word, p.state, p.parentPid⟩

/-- The end of `xscore_process_waitpid_options` for a child that need not be reaped. -/
def answer (t : Nat) (r : Report) : Processes :=
  { s with reports := r :: s.reports }.setCall t none

/-- What follows `xscore_process_wait`: the state of the child decides what its status means and
whether it is reaped. -/
def finish (t : Nat) (c : Call) (status : Nat) : Processes :=
  let p := s.procs c.target
  if p.state = .stopped then s.answer t (s.report c p.pid status)
  else if p.state = .exited then
    s.setCall t (some { c with phase := .reaping p.pid (p.word status) })
  else s.answer t (s.report c p.pid (p.word status))

/-- `xscore_process_reap`, and the return of the call. -/
def reap (t : Nat) (c : Call) (pid word : Nat) : Processes :=
  let p := s.procs c.target
  let s' := s.answer t (s.report c pid word)
  if p.state = .exited then
    s'.setProc c.target { p with
      state := .reaped, parentPid := 0, threadId := 0, pendingSignal := 0, ignoresChild := false }
  else s'

/-- A move of the scheduler.  A thread in a wait blocks only there, and exits only where
`xscore_thread_block` finds that it is asked to. -/
def move (s : Processes) (t : Nat) (m : Move) : Processes :=
  let thread := s.sched.threads t
  let moved := { s with sched := s.sched.setThread t (thread.move m) }
  match m, s.calls t with
  | .block, some _ => s
  | .exit, some c => if c.phase = .asleep ∧ thread.exitRequested then moved.setCall t none else s
  | _, _ => moved

end Processes

inductive ReapOp where
  | reserve (parent : Option Nat)
  | publish (i thread : Nat)
  | release (i : Nat)
  | start (i : Nat)
  | record (i signal : Nat)
  | exit (i status : Nat)
  | stop (i signal : Nat)
  | resume (i : Nat)
  | setReaper (i : Nat)
  /-- Other calls change what matters for `SIGCHLD`. -/
  | signals (i pending : Nat) (ignored : Bool)
  | wait (t i wanted options : Nat)
  | proceed (t : Nat)
  | move (t : Nat) (m : Move)
  | create

namespace Processes

def proceed (t : Nat) (c : Call) : Processes :=
  match c.phase with
  | .chosen => s.enter t c
  | .asleep => s.check t c
  | .nodding => s.block t c
  | .resumed => s.setCall t (some { c with phase := .answered (s.procs c.target).exitStatus })
  | .answered status => s.finish t c status
  | .reaping pid word => s.reap t c pid word

def step (s : Processes) : ReapOp → Processes
  | .reserve none => s.reserve 0 false
  | .reserve (some i) =>
    if (s.procs i).state = .running then s.reserve (s.procs i).pid (s.procs i).ignoresChild else s
  | .publish i thread =>
    if (s.procs i).state = .allocating then
      s.setProc i { s.procs i with state := .ready, threadId := thread }
    else s
  | .release i =>
    if (s.procs i).state = .allocating then s.setProc i { s.procs i with state := .unused } else s
  | .start i =>
    if (s.procs i).state = .ready then s.setProc i { s.procs i with state := .running } else s
  | .record i signal =>
    if 1 ≤ signal ∧ signal ≤ 31 then
      s.setProc i { s.procs i with terminationSignal := signal }
    else s
  | .exit i status => if (s.procs i).state.live then s.markExited i status else s
  | .stop i signal => s.stop i signal
  | .resume i => s.resume i
  | .setReaper i => s.setReaper i
  | .signals i pending ignored =>
    s.setProc i { s.procs i with pendingSignal := pending, ignoresChild := ignored }
  | .wait t i wanted options =>
    if (s.sched.threads t).state = .running ∧ s.calls t = none ∧ (s.procs i).state = .running then
      s.waitpid t (s.procs i).pid wanted options
    else s
  | .proceed t =>
    match s.calls t with
    | some c => if (s.sched.threads t).state = .running then s.proceed t c else s
    | none => s
  | .move t m => s.move t m
  | .create => { s with sched := s.sched.create }

abbrev run (s : Processes) (ops : List ReapOp) : Processes := Machine.run step s ops

end Processes

end XsCore.Process
