import XsCore.Foundation.Machine
import XsCore.Sched.Threads

/-! # Stacks of exited threads

Exit, context switch and reaping on several processors.  A thread is marked as exited while its
processor is still on its stack, and `switch_to` names the next thread as the current one before
`xscore_context_switch` leaves the stack of the last; `xscore_thread_reap` looks at the current
thread of its own processor only.
-/

namespace XsCore.Sched

open Function Machine

/-- A processor runs its `current` thread, and is on the stack of another only inside a switch. -/
structure Processors where
  state : Nat → ThreadState
  owner : Nat → Nat
  current : Nat → Nat
  stack : Nat → Nat

inductive StackStep where
  /-- The first section of `xscore_thread_exit`; what follows is a switch. -/
  | exit (cpu : Nat)
  /-- `find_next_runnable` and the section of `switch_to`. -/
  | switch (cpu next : Nat)
  /-- `xscore_context_switch`. -/
  | leave (cpu : Nat)
  /-- The first section of `xscore_thread_reap`.  The sweeps over the siblings in a process and over
  detached threads choose a thread and come here. -/
  | reap (cpu thread : Nat)
  /-- The stack has been released and the slot becomes free. -/
  | reaped (thread : Nat)

namespace Processors

variable (s : Processors)

/-- Inside a switch a processor does nothing but leave the old stack. -/
def step : StackStep → Processors
  | .exit cpu =>
    if s.stack cpu ≠ s.current cpu then s
    else { s with state := update s.state (s.current cpu) .exited }
  | .switch cpu next =>
    if s.stack cpu ≠ s.current cpu ∨ s.state next ≠ .ready ∨ s.owner next ≠ cpu then s
    else
      let old := s.current cpu
      let state := if s.state old = .running then update s.state old .ready else s.state
      { s with state := update state next .running, current := update s.current cpu next }
  | .leave cpu => { s with stack := update s.stack cpu (s.current cpu) }
  | .reap cpu thread =>
    if s.stack cpu ≠ s.current cpu ∨ thread = 0 ∨ s.state thread ≠ .exited ∨
        thread = s.current cpu then s
    else { s with state := update s.state thread .reaping }
  | .reaped thread =>
    if s.state thread = .reaping then { s with state := update s.state thread .unused } else s

/-- A processor may be on the stack of the thread: it is released while the thread is reaped. -/
def StackHeld (thread : Nat) : Prop := s.state thread ≠ .reaping ∧ s.state thread ≠ .unused

/-- A thread is reaped by the processor it belongs to, or once that one runs another thread and is
on another stack. -/
def ReapedInTurn : StackStep → Prop
  | .reap cpu thread => s.owner thread = cpu ∨
      s.current (s.owner thread) ≠ thread ∧ s.stack (s.owner thread) ≠ thread
  | _ => True

def Home (cpu thread : Nat) : Prop := s.owner thread = cpu ∧ s.StackHeld thread

structure Held : Prop where
  current : ∀ cpu, s.Home cpu (s.current cpu)
  stack : ∀ cpu, s.Home cpu (s.stack cpu)

variable {s} {cpu thread : Nat} {st : ThreadState}

theorem Home.setState {t : Nat} (h : s.Home cpu t)
    (hst : st ≠ .reaping ∧ st ≠ .unused ∨ t ≠ thread) :
    Home { s with state := update s.state thread st } cpu t := by
  refine ⟨h.1, ?_⟩
  unfold StackHeld
  dsimp only
  by_cases heq : t = thread
  · rw [heq, update_self]
    exact hst.resolve_right (not_not_intro heq)
  · rw [update_of_ne heq]
    exact h.2

theorem Held.setState (h : Held s)
    (hst : st ≠ .reaping ∧ st ≠ .unused ∨ ∀ cpu, s.current cpu ≠ thread ∧ s.stack cpu ≠ thread) :
    Held { s with state := update s.state thread st } :=
  ⟨fun cpu => (h.current cpu).setState (hst.imp_right fun hne => (hne cpu).1),
    fun cpu => (h.stack cpu).setState (hst.imp_right fun hne => (hne cpu).2)⟩

theorem Held.switch (h : Held s) {next : Nat} (howner : s.owner next = cpu) :
    Held { s with state := update s.state next .running, current := update s.current cpu next } := by
  have hrunning : Held { s with state := update s.state next .running } :=
    h.setState (.inl ⟨by decide, by decide⟩)
  refine ⟨fun p => ?_, hrunning.stack⟩
  by_cases hp : p = cpu
  · subst hp
    simp [Home, StackHeld, howner]
  · have hkept := hrunning.current p
    simpa [Home, StackHeld, hp] using hkept

/-- Only the processor a thread belongs to can be on its stack. -/
theorem Held.reap (h : Held s) (hturn : s.ReapedInTurn (.reap cpu thread))
    (hsettled : s.stack cpu = s.current cpu) (hother : thread ≠ s.current cpu) (p : Nat) :
    s.current p ≠ thread ∧ s.stack p ≠ thread := by
  have hleft : s.current (s.owner thread) ≠ thread ∧ s.stack (s.owner thread) ≠ thread := by
    rcases hturn with hhome | hleft
    · rw [hhome, hsettled]
      exact ⟨hother.symm, hother.symm⟩
    · exact hleft
  constructor
  · intro hp
    exact hleft.1 (by rw [← hp, (h.current p).1])
  · intro hp
    exact hleft.2 (by rw [← hp, (h.stack p).1])

theorem Held.step (h : Held s) (op : StackStep) (hop : s.ReapedInTurn op) : Held (s.step op) := by
  cases op with
  | exit cpu =>
    rw [Processors.step]
    split_ifs
    · exact h
    · exact h.setState (.inl ⟨by decide, by decide⟩)
  | switch cpu next =>
    rw [Processors.step]
    split_ifs with hskip
    · exact h
    simp only [not_or, not_not] at hskip
    dsimp only
    split_ifs
    · exact (h.setState (.inl ⟨by decide, by decide⟩)).switch hskip.2.2
    · exact h.switch hskip.2.2
  | leave cpu =>
    refine ⟨h.current, fun p => ?_⟩
    by_cases hp : p = cpu
    · subst hp
      simpa [Processors.step, Home, StackHeld] using h.current p
    · simpa [Processors.step, Home, StackHeld, hp] using h.stack p
  | reap cpu thread =>
    rw [Processors.step]
    split_ifs with hskip
    · exact h
    · simp only [not_or, not_not] at hskip
      exact h.setState (.inr (h.reap hop hskip.1 hskip.2.2.2))
  | reaped thread =>
    rw [Processors.step]
    split_ifs with hreaping
    · refine h.setState (.inr fun p => ⟨?_, ?_⟩)
      · rintro rfl
        exact (h.current p).2.1 hreaping
      · rintro rfl
        exact (h.stack p).2.1 hreaping
    · exact h

theorem stacks_held (hstart : Held s) {steps : List StackStep}
    (hturn : Guarded Processors.step ReapedInTurn s steps) (cpu : Nat) :
    StackHeld (run Processors.step s steps) ((run Processors.step s steps).stack cpu) :=
  ((hturn.invariant Held (fun _ op h hop => h.step op hop) hstart).stack cpu).2

/-- Threads `2 * n` and `2 * n + 1` belong to processor `n`, which runs the first. -/
def twoPerProcessor : Processors :=
  ⟨fun thread => if thread % 2 = 0 then .running else .ready, (· / 2), (2 * ·), (2 * ·)⟩

theorem twoPerProcessor_held : Held twoPerProcessor := by
  have hhome : ∀ cpu, twoPerProcessor.Home cpu (2 * cpu) := by
    intro cpu
    simp [Home, StackHeld, twoPerProcessor]
  exact ⟨hhome, hhome⟩

/-- Thread 2 is reaped from processor 0 once processor 1 is on the stack of thread 3. -/
theorem stacks_held_after_switch :
    let steps : List StackStep := [.exit 1, .switch 1 3, .leave 1, .reap 0 2, .reaped 2]
    (run Processors.step twoPerProcessor steps).state 2 = .unused ∧
      StackHeld (run Processors.step twoPerProcessor steps)
        ((run Processors.step twoPerProcessor steps).stack 1) := by
  intro steps
  refine ⟨by decide, stacks_held twoPerProcessor_held ?_ 1⟩
  exact ⟨trivial, trivial, trivial, .inr (by decide), trivial, trivial⟩

/-- Thread 2 has exited, and its processor is on its stack when another one reaps it. -/
theorem stack_released_in_use :
    let s := run Processors.step twoPerProcessor [.exit 1, .reap 0 2]
    s.stack 1 = 2 ∧ ¬ StackHeld s 2 :=
  ⟨rfl, fun h => h.1 rfl⟩

end Processors

end XsCore.Sched
