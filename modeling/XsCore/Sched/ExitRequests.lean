import XsCore.Foundation.Machine
import XsCore.Sched.Threads

/-! # Exit requests

`xscore_thread_request_process_exit` beside blocks and wakes.  A request gets a blocked thread out
of its sleep and leaves a mark on the others; `xscore_thread_block` looks for a pending wake, not
for the mark.
-/

namespace XsCore.Sched

open Machine

variable {t : Thread}

namespace Scheduler

inductive ExitStep where
  | create
  | move (id : Nat) (m : Move)
  /-- `members` are the user threads of the process. -/
  | requestProcessExit (members : Nat → Bool)

def exitStep (s : Scheduler) : ExitStep → Scheduler
  | .create => s.create
  | .move id m => s.setThread id ((s.threads id).move m)
  | .requestProcessExit members =>
    { s with threads := fun id => if members id then (s.threads id).requestExit else s.threads id }

end Scheduler

open Scheduler

/-- The thread does not sleep once it has been asked to exit. -/
def Thread.Heard (t : Thread) : Prop := t.exitRequested = true → t.state ≠ .blocked

def Scheduler.Heard (s : Scheduler) : Prop := ∀ id, (s.threads id).Heard

/-- A running thread that has been asked to exit blocks only with a wake pending. -/
def Heeds (s : Scheduler) : ExitStep → Prop
  | .move id .block => (s.threads id).exitRequested = true → (s.threads id).state = .running →
      (s.threads id).wakePending = true
  | _ => True

theorem Thread.requestExit_heard (t : Thread) : t.requestExit.Heard := by
  obtain ⟨state, pending, exit⟩ := t
  cases state <;> simp [Thread.requestExit, Thread.Heard]

theorem Thread.Heard.move (h : t.Heard) {m : Move} (hm : m ≠ .block) : (t.move m).Heard := by
  obtain ⟨state, pending, exit⟩ := t
  cases m <;> cases state <;>
    simp_all [Thread.Heard, Thread.move, Thread.wake, Thread.requestExit]

theorem Thread.Heard.block_iff (h : t.Heard) :
    t.block.1.Heard ↔ (t.exitRequested → t.state = .running → t.wakePending) := by
  unfold Thread.block
  split_ifs with hrunning hpending
  · simp [h, hrunning]
  · simp_all [Thread.Heard]
  · simp [Thread.Heard, not_not.mp hrunning, hpending]

theorem Scheduler.Heard.setThread_iff {s : Scheduler} (h : s.Heard) (id : Nat) :
    (s.setThread id t).Heard ↔ t.Heard := by
  refine ⟨fun hall => by simpa using hall id, fun ht other => ?_⟩
  by_cases hother : other = id
  · subst hother
    simpa using ht
  · rw [setThread_of_ne hother]
    exact h other

theorem Scheduler.Heard.exitStep_iff {s : Scheduler} (h : s.Heard) (op : ExitStep) :
    (s.exitStep op).Heard ↔ Heeds s op := by
  cases op with
  | create => exact iff_of_true ((h.setThread_iff _).mpr (by simp [Thread.Heard])) trivial
  | requestProcessExit members =>
    refine iff_of_true (fun id => ?_) trivial
    simp only [exitStep]
    split_ifs
    · exact Thread.requestExit_heard _
    · exact h id
  | move id m =>
    refine (h.setThread_iff id).trans ?_
    by_cases hblock : m = .block
    · subst hblock
      exact (h id).block_iff
    · refine iff_of_true ((h id).move hblock) ?_
      cases m <;> trivial

/-- An exit request is slept through in a run exactly if a thread blocks after it. -/
theorem exit_requests_heard_iff (steps : List ExitStep) :
    (∀ n, (run exitStep boot (steps.take n)).Heard) ↔ Guarded exitStep Heeds boot steps := by
  refine guarded_iff Scheduler.Heard (fun s op h => h.exitStep_iff op) fun id => ?_
  by_cases hid : id = 1
  · subst hid
    simp [boot, Thread.Heard]
  · simp [boot_threads_of_ne hid, Thread.Heard]

/-- The process of thread 2 exits while the thread runs, and then the thread blocks. -/
theorem exit_request_slept_through : ¬ (run exitStep boot
    [.create, .move 2 .dispatch, .requestProcessExit (· == 2), .move 2 .block]).Heard := by
  intro h
  exact absurd (h 2 (by decide)) (by decide)

/-! ## Wakes -/

/-- The thread is awake and, while it lives, has a pending wake just if `woken`. -/
def Thread.Awake (t : Thread) (woken : Prop) : Prop :=
  t.state ≠ .blocked ∧ (t.Alive → (t.wakePending = true ↔ woken))

variable {woken : Prop} {moves : List Move}

theorem Thread.Awake.move (h : t.Awake woken) {m : Move} (hm : .block ≠ m) :
    (t.move m).Awake (woken ∨ .wake = m) := by
  obtain ⟨state, pending, exit⟩ := t
  cases m <;> cases state <;>
    simp_all [Awake, Thread.move, Thread.wake, Thread.requestExit, Alive]

theorem Thread.Awake.run (h : t.Awake woken) (hmoves : .block ∉ moves) :
    (run Thread.move t moves).Awake (woken ∨ .wake ∈ moves) := by
  induction moves generalizing t woken with
  | nil => simpa using h
  | cons m moves ih =>
    rw [List.mem_cons, not_or] at hmoves
    simpa [or_assoc] using ih (h.move hmoves.1) hmoves.2

/-- A thread that is awake sleeps in its next block exactly if no wake has come before it. -/
theorem block_sleeps_iff (hawake : t.state ≠ .blocked) (hmoves : .block ∉ moves) :
    (run Thread.move t moves).block.2 = true ↔ (run Thread.move t moves).state = .running ∧
      ¬ (t.wakePending = true ∨ .wake ∈ moves) := by
  have hrun := Thread.Awake.run ⟨hawake, fun _ => .rfl⟩ hmoves
  generalize run Thread.move t moves = u at hrun ⊢
  unfold Thread.block
  split_ifs with hidle hpending
  · simp [hidle]
  all_goals
    have hwoken := hrun.2 (.inr (.inl (not_not.mp hidle)))
    simp [not_not.mp hidle, ← hwoken, hpending]

theorem block_sleeps_preempted :
    (run Thread.move { state := .running } [.preempt, .wake, .dispatch]).block.2 ≠ true := by
  rw [Ne, block_sleeps_iff (by decide) (by simp)]
  simp

end XsCore.Sched
