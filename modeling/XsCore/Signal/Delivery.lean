import XsCore.Foundation.Machine
import XsCore.Signal.Pending

/-! # Which histories lose no signal

A process has room for one pending signal, so a second one takes the place of the first, whatever
the two are.  A history loses no signal as long as every signal is stored into an empty slot or over
itself, no pending signal becomes ignored, and every delivery that clears the slot also reaches the
program.
-/

namespace XsCore.Signal

open Machine

variable {signal n : Nat} {set : SignalSet} {ctx : Nat → Nat} {forkContext : Option (Nat → Nat)}
  {memory : UserMemory}

/-- Every signal that waits is the pending one, and the two signals no process may ignore are not
ignored. -/
def NoSignalLost (t : Task) : Prop :=
  (∀ signal, outstanding t.log signal = true → t.process.pendingSignal = signal) ∧
  t.ignores sigKill = false ∧ t.ignores sigStop = false

/-- A stop or a continuation that takes effect when it is sent. -/
def Task.ActsAtOnce (t : Task) (signal : Nat) : Prop :=
  ((signal = sigStop ∨ signal = sigTstp) ∧ (t.run = .ready ∨ t.run = .running)) ∨
  (signal = sigCont ∧ t.run = .stopped)

def Task.SlotFree (t : Task) (signal : Nat) : Prop :=
  t.process.pendingSignal = 0 ∨ t.process.pendingSignal = signal

/-- The pending signal is due and its disposition is the default one. -/
def Task.defaultDue (t : Task) : Bool :=
  t.process.pendingSignal != 0 && !t.blocks t.process.pendingSignal && !t.childNotice &&
    !t.hasHandler

/-- The condition under which one operation loses no signal. -/
def SignalOp.KeepsSignals (t : Task) : SignalOp → Prop
  -- a signal that is refused or passed over changes nothing
  | .kill caller signal => validSignal signal = true → caller.any (·.refused t) = false →
    t.SlotFree signal ∨ t.ignores signal = true ∨ t.ActsAtOnce signal
  | .killGroup interactiveShell signal => validSignal signal = true → t.run ≠ .exited →
    ¬ ((signal = sigInt ∨ signal = sigTstp) ∧ interactiveShell = true) →
    t.SlotFree signal ∨ t.ignores signal = true ∨ t.ActsAtOnce signal
  | .childExit _ _ => t.SlotFree sigChld ∨ t.ignores sigChld = true
  | .setIgnored signal ignored =>
    ignored = true →
      signal ≠ sigKill ∧ signal ≠ sigStop ∧ t.process.pendingSignal ≠ signal
  | .sigaction signal act =>
    ∀ action, act = some action → action.handler = sigIgn → t.process.pendingSignal ≠ signal
  | .exec => t.process.pendingSignal = 0
  | .systemCall ctx _ memory =>
    handlerDue t.process = true → (pushSignalFrame t.process ctx memory).2 = true
  | .timerInterrupt frame _ memory =>
    (handlerDue t.process = true → (pushSignalFrame t.process frame memory).2 = true) ∧
    (t.defaultDue = true → t.process.signalTrampoline = exitTrampoline)
  | .fault _ | .updateMask _ _ | .sigreturn _ | .writeCall | .pollSignalfd _ | .readSignalfd _ =>
    True

/-! ## Sets of signals -/

theorem getLsbD_signalBit (hn : n < 32) : (signalBit signal).getLsbD n = decide (n = signal) := by
  unfold signalBit
  rw [BitVec.getLsbD_shiftLeft]
  by_cases hlt : n < signal
  · have hne : n ≠ signal := by omega
    simp [hlt, hne]
  by_cases heq : n = signal
  · subst heq
    simp [hn]
  · have hpos : n - signal ≠ 0 := by omega
    simp [hlt, heq, hpos, BitVec.getLsbD_one]

theorem getLsbD_or_signalBit (hn : n < 32) (hne : n ≠ signal) :
    (set ||| signalBit signal).getLsbD n = set.getLsbD n := by
  rw [BitVec.getLsbD_or, getLsbD_signalBit hn, decide_eq_false hne, Bool.or_false]

theorem getLsbD_and_not_signalBit (h : set.getLsbD n = false) :
    (set &&& ~~~ signalBit signal).getLsbD n = false := by
  rw [BitVec.getLsbD_and, h, Bool.false_and]

/-! ## The invariant -/

structure SlotInv (t : Task) : Prop where
  waiting : ∀ signal, outstanding t.log signal = true →
    signal ≠ 0 ∧ t.process.pendingSignal = signal
  heard : t.process.pendingSignal ≠ 0 →
    validSignal t.process.pendingSignal = true ∧ t.ignores t.process.pendingSignal = false
  kill_heard : t.ignores sigKill = false
  stop_heard : t.ignores sigStop = false

theorem outstanding_append (log events : List Event) (signal : Nat) :
    outstanding (log ++ events) signal =
      events.foldl (Event.waits signal) (outstanding log signal) := by
  rw [outstanding, List.foldl_append]
  rfl

namespace SlotInv

variable {t t' : Task}

section

variable (h : SlotInv t)
include h

theorem of_same (t' : Task) (hpending : t'.process.pendingSignal = t.process.pendingSignal)
    (hignored : t'.process.ignoredSignals = t.process.ignoredSignals) (hlog : t'.log = t.log) :
    SlotInv t' := by
  have hignores : ∀ signal, t'.ignores signal = t.ignores signal := by
    intro signal
    rw [Task.ignores, hignored]
    rfl
  refine ⟨?_, ?_, ?_, ?_⟩
  · rw [hlog, hpending]
    exact h.waiting
  · rw [hpending, hignores]
    exact h.heard
  · rw [hignores]
    exact h.kill_heard
  · rw [hignores]
    exact h.stop_heard

theorem store (hfree : t.SlotFree signal) (hvalid : validSignal signal)
    (hheard : t.ignores signal = false) (code : Int) (senderPid senderUid : Nat) :
    SlotInv ((t.storePending signal code senderPid senderUid).record [.sent signal]) := by
  have hpos : signal ≠ 0 := by
    rintro rfl
    cases hvalid
  refine ⟨?_, fun _ => ⟨hvalid, hheard⟩, h.kill_heard, h.stop_heard⟩
  intro n hwaits
  have hevents : (outstanding t.log n || signal == n) := by
    simpa [Task.record, Task.storePending, outstanding_append, Event.waits] using hwaits
  rcases Bool.or_eq_true_iff.mp hevents with hold | hnew
  · obtain ⟨hne, hpending⟩ := h.waiting n hold
    rcases hfree with hempty | hsame
    · exact absurd (hpending.symm.trans hempty) hne
    · exact ⟨hne, hsame.symm.trans hpending⟩
  · have hsame := beq_iff_eq.mp hnew
    exact ⟨hsame ▸ hpos, hsame⟩

theorem sent_delivered (signal : Nat) : SlotInv (t.record [.sent signal, .delivered signal]) := by
  refine ⟨?_, h.heard, h.kill_heard, h.stop_heard⟩
  intro n hwaits
  have hevents : (outstanding t.log n || signal == n) ∧ signal ≠ n := by
    simpa [Task.record, outstanding_append, Event.waits] using hwaits
  rcases Bool.or_eq_true_iff.mp hevents.1 with hold | hnew
  · exact h.waiting n hold
  · exact absurd (beq_iff_eq.mp hnew) hevents.2

theorem sent_again (hpending : t.process.pendingSignal = signal) (hpos : signal ≠ 0) :
    SlotInv (t.record [.sent signal]) := by
  refine ⟨?_, h.heard, h.kill_heard, h.stop_heard⟩
  intro n hwaits
  have hevents : (outstanding t.log n || signal == n) := by
    simpa [Task.record, outstanding_append, Event.waits] using hwaits
  rcases Bool.or_eq_true_iff.mp hevents with hold | hnew
  · exact h.waiting n hold
  · have hsame := beq_iff_eq.mp hnew
    exact ⟨hsame ▸ hpos, hpending.trans hsame⟩

theorem consume {event : Event} (hlog : t'.log = t.log ++ [event])
    (hevent : event = .delivered t.process.pendingSignal ∨ event = .taken t.process.pendingSignal)
    (hpending : t'.process.pendingSignal = 0)
    (hignored : t'.process.ignoredSignals = t.process.ignoredSignals) : SlotInv t' := by
  have hignores : ∀ signal, t'.ignores signal = t.ignores signal := by
    intro signal
    rw [Task.ignores, hignored]
    rfl
  refine ⟨?_, fun hne => absurd hpending hne, ?_, ?_⟩
  · intro n hwaits
    have hevents : outstanding t.log n ∧ t.process.pendingSignal ≠ n := by
      rw [hlog, outstanding_append] at hwaits
      rcases hevent with rfl | rfl <;> simpa [Event.waits] using hwaits
    exact absurd (h.waiting n hevents.1).2 hevents.2
  · rw [hignores]
    exact h.kill_heard
  · rw [hignores]
    exact h.stop_heard

theorem setIgnored (hpending : t'.process.pendingSignal = t.process.pendingSignal)
    (hlog : t'.log = t.log) (hkeep : ∀ n, n = sigKill ∨ n = sigStop ∨ n = t.process.pendingSignal →
      n < 32 → t.ignores n = false → t'.ignores n = false) : SlotInv t' := by
  refine ⟨?_, ?_, ?_, ?_⟩
  · rw [hlog, hpending]
    exact h.waiting
  · rw [hpending]
    intro hne
    obtain ⟨hvalid, hheard⟩ := h.heard hne
    have hlt : t.process.pendingSignal < 32 := by
      simp only [validSignal, Bool.and_eq_true, decide_eq_true_eq] at hvalid
      exact Nat.lt_succ_of_le hvalid.2
    exact ⟨hvalid, hkeep _ (.inr (.inr rfl)) hlt hheard⟩
  · exact hkeep sigKill (.inl rfl) (by decide) h.kill_heard
  · exact hkeep sigStop (.inr (.inl rfl)) (by decide) h.stop_heard

end

end SlotInv

/-! ## One operation -/

variable {t : Task}

section

variable (h : SlotInv t)
include h

theorem processSignal_inv (caller : Option Sender)
    (hkeeps : SignalOp.KeepsSignals t (.kill caller signal)) :
    SlotInv (processSignal t caller signal).1 := by
  unfold processSignal
  split_ifs with hvalid hrefused hheard hstop hcont
  · exact h
  · exact h
  · exact h
  · exact (h.of_same (t.stop signal) rfl rfl rfl).sent_delivered signal
  · exact (h.of_same t.continue rfl rfl rfl).sent_delivered signal
  rcases hkeeps (by simpa using hvalid) (by simpa using hrefused) with
    hfree | hignored | hstops | hconts
  · exact h.store hfree (by simpa using hvalid) (by simpa using hheard) _ _ _
  · exact absurd hignored hheard
  · exact absurd hstops hstop
  · exact absurd hconts hcont

theorem signalPgrp_inv (interactiveShell : Bool)
    (hkeeps : SignalOp.KeepsSignals t (.killGroup interactiveShell signal)) :
    SlotInv (signalPgrp t interactiveShell signal).1 := by
  unfold signalPgrp
  split_ifs with hvalid hreached hpassed hstop hcont
  · exact h
  · exact h
  · exact h
  · exact (h.of_same (t.stop signal) rfl rfl rfl).sent_delivered signal
  · exact (h.of_same t.continue rfl rfl rfl).sent_delivered signal
  have hheard : t.ignores signal = false := by simpa using fun hignored => hreached (.inr hignored)
  rcases hkeeps (by simpa using hvalid) (fun hexited => hreached (.inl hexited)) hpassed with
    hfree | hignored | hstops | hconts
  · exact h.store hfree (by simpa using hvalid) hheard _ _ _
  · simp [hheard] at hignored
  · exact absurd hstops.1 hstop
  · exact absurd hconts hcont

theorem childExited_inv (pid uid : Nat) (hkeeps : t.SlotFree sigChld ∨ t.ignores sigChld) :
    SlotInv (childExited t pid uid) := by
  unfold childExited
  split
  · exact h
  rename_i hreached
  have hheard : t.ignores sigChld = false := by
    simpa using fun hignored => hreached (.inr (.inl hignored))
  have hfree : t.SlotFree sigChld := by
    rcases hkeeps with hfree | hignored
    · exact hfree
    · simp [hheard] at hignored
  split
  · exact h.store hfree (by decide) hheard _ _ _
  rename_i hoccupied
  rcases hfree with hempty | hsame
  · exact absurd hempty hoccupied
  · exact h.sent_again hsame (by decide)

theorem setSignalIgnored_inv {ignored : Bool}
    (hkeeps : ignored → signal ≠ sigKill ∧ signal ≠ sigStop ∧ t.process.pendingSignal ≠ signal) :
    SlotInv (setSignalIgnored t signal ignored).1 := by
  unfold setSignalIgnored
  split
  · exact h
  rcases ignored with _ | _
  · exact h.setIgnored rfl rfl fun n _ _ hheard => getLsbD_and_not_signalBit hheard
  obtain ⟨hkill, hstop, hpending⟩ := hkeeps rfl
  refine h.setIgnored rfl rfl fun n hn hlt hheard => ?_
  have hne : n ≠ signal := by
    rcases hn with rfl | rfl | rfl
    · exact Ne.symm hkill
    · exact Ne.symm hstop
    · exact hpending
  exact (getLsbD_or_signalBit hlt hne).trans hheard

theorem sigaction_inv {act : Option Sigaction}
    (hkeeps : ∀ action, act = some action → action.handler = sigIgn →
      t.process.pendingSignal ≠ signal) : SlotInv (sigaction t signal act).1 := by
  unfold sigaction
  split
  · exact h
  rcases act with _ | action
  · exact h
  dsimp only
  split
  · exact h
  rename_i hprotected
  refine h.setIgnored (if_neg fun hboth => hkeeps action rfl hboth.1 hboth.2) rfl
    fun n hn hlt hheard => ?_
  show (if action.handler = sigIgn then t.process.ignoredSignals ||| signalBit signal
    else t.process.ignoredSignals &&& ~~~ signalBit signal).getLsbD n = false
  split_ifs with hign
  · have hne : n ≠ signal := by
      rcases hn with rfl | rfl | rfl
      · exact fun hkill => hprotected (.inl hkill.symm)
      · exact fun hstop => hprotected (.inr hstop.symm)
      · exact hkeeps action rfl hign
    exact (getLsbD_or_signalBit hlt hne).trans hheard
  · exact getLsbD_and_not_signalBit hheard

theorem SlotInv.not_ignored
    (hdue : ¬ (t.process.pendingSignal = 0 ∨ t.blocks t.process.pendingSignal)) :
    t.ignores t.process.pendingSignal = false :=
  (h.heard fun hzero => hdue (.inl hzero)).2

theorem takeAndExit_inv : SlotInv (takeAndExit t) := by
  unfold takeAndExit takePendingSignal
  by_cases hdue : t.process.pendingSignal = 0 ∨ t.blocks t.process.pendingSignal
  · rw [if_pos hdue]
    exact h
  · rw [if_neg hdue, h.not_ignored hdue]
    exact h.consume rfl (.inl rfl) rfl rfl

section

variable (hkeeps : handlerDue t.process → (pushSignalFrame t.process ctx memory).2)
include hkeeps

/-- What a dispatch does to the task when the stack takes the frame. -/
theorem dispatch_inv :
    SlotInv (afterDispatch t (dispatchUserSignal t.process ctx forkContext memory)) ∧
    SlotInv (afterInterruptDispatch t (dispatchUserSignal t.process ctx forkContext memory)) := by
  rcases hdue : handlerDue t.process with _ | _
  · rw [dispatch_skipped ctx forkContext memory hdue]
    exact ⟨takeAndExit_inv h, h⟩
  obtain ⟨d, hentered⟩ := dispatch_enters forkContext hdue (hkeeps hdue)
  obtain ⟨memory', -, rfl⟩ := dispatch_entered hentered
  rw [hentered]
  exact ⟨h.consume rfl (.inl rfl) rfl rfl, h.consume rfl (.inl rfl) rfl rfl⟩

theorem checkAndDeliver_inv : SlotInv (checkAndDeliver t ctx forkContext memory) := by
  unfold checkAndDeliver signalPendingCurrent
  by_cases hdue : t.process.pendingSignal = 0 ∨ t.blocks t.process.pendingSignal
  · rw [if_pos hdue]
    exact h
  rw [if_neg hdue, h.not_ignored hdue]
  cases t.childNotice with
  | true => exact h.consume rfl (.inl rfl) rfl rfl
  | false => exact (dispatch_inv h hkeeps).1

end

theorem defaultAction_inv (htrampoline : t.process.signalTrampoline = exitTrampoline) :
    SlotInv t.defaultAction := by
  unfold Task.defaultAction
  rw [htrampoline, if_neg (by decide), if_pos rfl]
  exact h.consume rfl (.inl rfl) rfl rfl

theorem deliverPendingSignal_inv {frame : Nat → Nat}
    (hkeeps : handlerDue t.process → (pushSignalFrame t.process frame memory).2)
    (htrampoline : t.defaultDue → t.process.signalTrampoline = exitTrampoline) :
    SlotInv (deliverPendingSignal t frame forkContext memory) := by
  unfold deliverPendingSignal
  by_cases hdue : t.process.pendingSignal = 0 ∨ t.blocks t.process.pendingSignal
  · rw [if_pos hdue]
    exact h
  rw [if_neg hdue, h.not_ignored hdue]
  rcases hnotice : t.childNotice with _ | _
  swap
  · exact h.consume rfl (.inl rfl) rfl rfl
  cases hhandler : t.hasHandler with
  | true => exact (dispatch_inv h hkeeps).2
  | false =>
    have hdefault : t.defaultDue := by
      simp only [not_or, Bool.not_eq_true] at hdue
      simp [Task.defaultDue, hdue, hnotice, hhandler]
    exact defaultAction_inv h (htrampoline hdefault)

theorem signalfd_inv (mask : SignalSet) :
    SlotInv (signalfdPending t mask).1 ∧ SlotInv (signalfdTake t mask).1 := by
  unfold signalfdPending signalfdTake
  dsimp only
  split
  · exact ⟨h, h⟩
  next hshows =>
    rw [(h.heard fun hzero => hshows (by simp [Task.shows, hzero])).2]
    exact ⟨h, h.consume rfl (.inr rfl) rfl rfl⟩

/-- The step lemma: an operation that meets the condition keeps the invariant. -/
theorem SignalOp.apply_inv (op : SignalOp) (hkeeps : op.KeepsSignals t) : SlotInv (op.apply t) := by
  cases op with
  | kill caller signal => exact processSignal_inv h caller hkeeps
  | killGroup interactiveShell signal => exact signalPgrp_inv h interactiveShell hkeeps
  | childExit pid uid => exact childExited_inv h pid uid hkeeps
  | fault signal => exact (h.of_same (t.terminate signal) rfl rfl rfl).sent_delivered signal
  | setIgnored signal ignored => exact setSignalIgnored_inv h hkeeps
  | sigaction signal act => exact sigaction_inv h hkeeps
  | updateMask how mask | sigreturn mask => exact h.of_same _ rfl rfl rfl
  | exec => exact h.of_same (execReset t) hkeeps.symm rfl rfl
  | systemCall ctx forkContext memory => exact checkAndDeliver_inv h hkeeps
  | writeCall => exact takeAndExit_inv h
  | timerInterrupt frame forkContext memory => exact deliverPendingSignal_inv h hkeeps.1 hkeeps.2
  | pollSignalfd mask => exact (signalfd_inv h mask).1
  | readSignalfd mask => exact (signalfd_inv h mask).2

end

/-- A process nothing was sent to yet, and that may not have been told to ignore `SIGKILL` or
`SIGSTOP`. -/
structure Task.Quiet (t : Task) : Prop where
  empty : t.process.pendingSignal = 0
  unsent : t.log = []
  kill_heard : t.ignores sigKill = false
  stop_heard : t.ignores sigStop = false

theorem Task.Quiet.inv (h : t.Quiet) : SlotInv t := by
  refine ⟨?_, fun hne => absurd h.empty hne, h.kill_heard, h.stop_heard⟩
  intro signal hwaits
  rw [h.unsent] at hwaits
  simp [outstanding] at hwaits

/-- In every history whose operations meet the condition, no signal is lost. -/
theorem no_signal_lost (t : Task) (ops : List SignalOp) (start : t.Quiet)
    (h : Guarded SignalOp.apply SignalOp.KeepsSignals t ops) :
    NoSignalLost (run SignalOp.apply t ops) := by
  have hinv := h.invariant SlotInv (fun t op hinv hkeeps => op.apply_inv hinv hkeeps) start.inv
  exact ⟨fun signal hwaits => (hinv.waiting signal hwaits).2, hinv.kill_heard, hinv.stop_heard⟩

def quietTask : Task where
  process :=
    { pendingSignal := 0, pendingCode := 0, pendingAddress := 0, senderPid := 0, senderUid := 0
      signalMask := 0, ignoredSignals := 0
      actions := fun _ => { handler := sigDfl, mask := 0, flags := 0, restorer := 0 }
      signalTrampoline := exitTrampoline, terminationSignal := 0, exitStatus := 0
      forkResume := false }
  run := .running
  waitStatus := 0
  uid := 0
  effectiveUid := 0
  log := []

theorem quietTask_quiet : quietTask.Quiet := ⟨rfl, rfl, by decide, by decide⟩

theorem no_signal_lost_quietTask : Guarded SignalOp.apply SignalOp.KeepsSignals quietTask
      [.kill none sigInt, .setIgnored sigTstp true, .readSignalfd 4#32, .killGroup false sigKill] ∧
    NoSignalLost (run SignalOp.apply quietTask
      [.kill none sigInt, .setIgnored sigTstp true, .readSignalfd 4#32,
        .killGroup false sigKill]) := by
  refine ⟨?guarded, no_signal_lost quietTask _ quietTask_quiet ?guarded⟩
  exact ⟨fun _ _ => .inl (.inl rfl), fun _ => ⟨by decide, by decide, by decide⟩, trivial,
    fun _ _ _ => .inl (.inl (by decide)), trivial⟩

/-- `SIGINT` takes the place of a pending `SIGKILL`, and `SIGKILL` can be ignored. -/
theorem pending_kill_is_overwritten : quietTask.Quiet ∧ ¬ NoSignalLost (run SignalOp.apply quietTask
      [.kill none sigKill, .kill none sigInt]) ∧
    ¬ NoSignalLost (run SignalOp.apply quietTask [.setIgnored sigKill true]) := by
  refine ⟨quietTask_quiet, ?_, ?_⟩
  · rintro ⟨hwaiting, -⟩
    exact absurd (hwaiting sigKill (by decide)) (by decide)
  · rintro ⟨-, hkill, -⟩
    cases hkill

end XsCore.Signal
