import Mathlib.Logic.Function.Basic

/-! # Kernel threads

The part of `kernel/thread.c` that decides whether a thread may run.  Thread ids are handed out once,
by `next_thread_id`, so the table of control blocks is a map from ids; an id that no control block
carries is `unused`.  Each function below holds `thread_lock` from its first access to its last.
-/

namespace XsCore.Sched

open Function

inductive ThreadState where
  | unused
  | ready
  | running
  | blocked
  | exited
  /-- Reserved by a creator; the control block has no id yet. -/
  | allocating
  | reaping
  deriving DecidableEq

structure Thread where
  state : ThreadState := .unused
  /-- A wake that raced the edge from running to blocked. -/
  wakePending : Bool := false
  exitRequested : Bool := false

def maxThreads : Nat := 64

structure Scheduler where
  threads : Nat → Thread
  nextThreadId : Nat

namespace Scheduler

def setThread (s : Scheduler) (id : Nat) (t : Thread) : Scheduler :=
  { s with threads := update s.threads id t }

def boot : Scheduler where
  threads := update (fun _ => {}) 1 { state := .running }
  nextThreadId := 2

def threadState (s : Scheduler) (id : Nat) : ThreadState :=
  if id = 0 then .unused else (s.threads id).state

end Scheduler

/-- What `xscore_thread_wake` does to the control block it finds. -/
def Thread.wake (t : Thread) : Option Thread :=
  match t.state with
  | .blocked => some { t with state := .ready }
  | .ready | .running => some { t with wakePending := true }
  | .unused | .exited | .allocating | .reaping => none

/-- `xscore_thread_block` up to the point where the caller gives the processor away: the new control
block, and whether the thread sleeps. -/
def Thread.block (t : Thread) : Thread × Bool :=
  if t.state ≠ .running then (t, false)
  else if t.wakePending then ({ t with wakePending := false }, false)
  else ({ t with state := .blocked }, true)

def Thread.requestExit (t : Thread) : Thread :=
  match t.state with
  | .unused => t
  | .blocked => { t with state := .ready, wakePending := false, exitRequested := true }
  | _ => { t with exitRequested := true }

def Thread.Alive (t : Thread) : Prop :=
  t.state = .ready ∨ t.state = .running ∨ t.state = .blocked

instance (t : Thread) : Decidable t.Alive := inferInstanceAs (Decidable (_ ∨ _))

namespace Scheduler

def wake (s : Scheduler) (id : Nat) : Option Scheduler :=
  if id = 0 then none else (s.threads id).wake.map (s.setThread id)

def create (s : Scheduler) : Scheduler :=
  { s.setThread s.nextThreadId { state := .ready } with nextThreadId := s.nextThreadId + 1 }

end Scheduler

/-- The scheduler's own moves of one thread. -/
inductive Move where
  | dispatch
  | preempt
  /-- A wake from outside the futex code: an exit, a signal, a join. -/
  | wake
  /-- The thread blocks in some other kernel wait. -/
  | block
  | requestExit
  | exit
  /-- The two halves of `xscore_thread_reap`. -/
  | reap
  | reaped

def Thread.move (t : Thread) : Move → Thread
  | .dispatch => if t.state = .ready then { t with state := .running } else t
  | .preempt => if t.state = .running then { t with state := .ready } else t
  | .wake => t.wake.getD t
  | .block => t.block.1
  | .requestExit => t.requestExit
  | .exit => if t.state = .running then { t with state := .exited } else t
  | .reap => if t.state = .exited then { t with state := .reaping } else t
  | .reaped => if t.state = .reaping then {} else t

/-! ### Small facts about control blocks -/

variable {t : Thread}

theorem Thread.wake_of_alive (h : t.Alive) : ∃ t', t.wake = some t' := by
  rcases h with h | h | h
  all_goals
    rw [Thread.wake, h]
    exact ⟨_, rfl⟩

theorem Thread.wake_none (h : t.wake = none) : ¬ t.Alive := by
  intro halive
  obtain ⟨t', ht⟩ := Thread.wake_of_alive halive
  rw [ht] at h
  cases h

theorem Thread.not_alive_of_unused (h : t.state = .unused) : ¬ t.Alive := by
  intro halive
  rcases halive with h' | h' | h'
  all_goals
    rw [h] at h'
    cases h'

theorem Thread.alive_of_move {m : Move} (h : (t.move m).Alive) : t.Alive := by
  obtain ⟨state, pending, exit⟩ := t
  cases m <;> cases state <;>
    simp_all [Thread.move, Thread.wake, Thread.block, Thread.requestExit, Thread.Alive]

theorem Thread.move_unused (h : t.state = .unused) (m : Move) : (t.move m).state = .unused := by
  obtain ⟨state, pending, exit⟩ := t
  subst h
  cases m <;> rfl

/-- The thread came out of a wake: it does not sleep and, if it was awake before, will not go to
sleep in the wait it is about to start. -/
def Thread.Roused (t t' : Thread) : Prop :=
  t'.state ≠ .blocked ∧ (t.state ≠ .blocked → t'.wakePending = true)

structure Thread.Rises (t t' : Thread) : Prop where
  alive : t'.Alive ↔ t.Alive
  awake : t.state ≠ .blocked → t'.state = t.state
  pending : t.wakePending = true → t'.wakePending = true
  used : t'.state = .unused ↔ t.state = .unused
  asleep : t'.state = .blocked → t' = t

theorem Thread.Rises.refl (t : Thread) : t.Rises t :=
  ⟨Iff.rfl, fun _ => rfl, id, Iff.rfl, fun _ => rfl⟩

variable {u v : Thread}

theorem Thread.Rises.trans (h : t.Rises u) (h' : u.Rises v) : t.Rises v where
  alive := h'.alive.trans h.alive
  awake hne := by
    have hu := h.awake hne
    rw [h'.awake (hu ▸ hne), hu]
  pending hp := h'.pending (h.pending hp)
  used := h'.used.trans h.used
  asleep hv := by
    have huv := h'.asleep hv
    subst huv
    exact h.asleep hv

theorem Thread.wake_spec {t' : Thread} (h : t.wake = some t') :
    t.Alive ∧ t.Rises t' ∧ t.Roused t' := by
  obtain ⟨state, pending, exit⟩ := t
  cases state
  all_goals cases h
  case blocked =>
    refine ⟨.inr (.inr rfl), ?_, ?_⟩
    · constructor <;> simp [Thread.Alive]
    · constructor <;> simp
  case ready =>
    refine ⟨.inl rfl, ?_, ?_⟩
    · constructor <;> simp [Thread.Alive]
    · constructor <;> simp
  case running =>
    refine ⟨.inr (.inl rfl), ?_, ?_⟩
    · constructor <;> simp [Thread.Alive]
    · constructor <;> simp

theorem Thread.Roused.rises (h : t.Roused u) (h' : u.Rises v) : t.Roused v :=
  ⟨h'.awake h.1 ▸ h.1, fun hne => h'.pending (h.2 hne)⟩

theorem Thread.Rises.roused (h : t.Rises u) (h' : u.Roused v) : t.Roused v :=
  ⟨h'.1, fun hne => h'.2 (h.awake hne ▸ hne)⟩

namespace Scheduler

@[simp] theorem setThread_self (s : Scheduler) (id : Nat) (t : Thread) :
    (s.setThread id t).threads id = t := update_self ..

variable {id : Nat} {s : Scheduler}

theorem setThread_of_ne {other : Nat} (h : other ≠ id) (t : Thread) :
    (s.setThread id t).threads other = s.threads other := update_of_ne h ..

theorem boot_threads_of_ne (h : id ≠ 1) : boot.threads id = {} := by
  rw [boot]
  dsimp only
  rw [update_of_ne h]

structure Rises (s s' : Scheduler) : Prop where
  threads : ∀ id, (s.threads id).Rises (s'.threads id)
  next : s'.nextThreadId = s.nextThreadId

theorem Rises.refl (s : Scheduler) : s.Rises s := ⟨fun _ => .refl _, rfl⟩

variable {s' : Scheduler}

theorem Rises.trans {s'' : Scheduler} (h : s.Rises s') (h' : s'.Rises s'') : s.Rises s'' :=
  ⟨fun id => (h.threads id).trans (h'.threads id), h'.next.trans h.next⟩

theorem wake_spec (h : s.wake id = some s') :
    s.Rises s' ∧ (s.threads id).Roused (s'.threads id) ∧ (s.threads id).Alive := by
  rw [wake] at h
  split at h
  · cases h
  obtain ⟨t', hwake, rfl⟩ := Option.map_eq_some_iff.mp h
  obtain ⟨halive, hrises, hroused⟩ := Thread.wake_spec hwake
  rw [setThread_self]
  refine ⟨⟨fun other => ?_, rfl⟩, hroused, halive⟩
  by_cases heq : other = id
  · subst heq
    rw [setThread_self]
    exact hrises
  · rw [setThread_of_ne heq]
    exact .refl _

theorem wake_getD_rises (s : Scheduler) (id : Nat) : s.Rises ((s.wake id).getD s) := by
  cases h : s.wake id with
  | none => exact .refl s
  | some s' => exact (wake_spec h).1

theorem wake_none (hid : id ≠ 0) (h : s.wake id = none) : ¬ (s.threads id).Alive := by
  rw [wake, if_neg hid, Option.map_eq_none_iff] at h
  exact Thread.wake_none h

theorem wake_getD_roused (hid : id ≠ 0) (h : (s.threads id).Alive) :
    (s.threads id).Roused (((s.wake id).getD s).threads id) := by
  cases hwake : s.wake id with
  | none => exact absurd h (wake_none hid hwake)
  | some s' => exact (wake_spec hwake).2.1

structure Numbered (s : Scheduler) : Prop where
  fresh : ∀ id, s.nextThreadId ≤ id → (s.threads id).state = .unused
  zero : (s.threads 0).state = .unused
  started : 0 < s.nextThreadId

theorem boot_numbered : boot.Numbered where
  fresh id hid := by
    have hle : 2 ≤ id := hid
    rw [boot_threads_of_ne (by omega)]
  zero := rfl
  started := Nat.succ_pos 1

theorem Numbered.created (h : s.Numbered) (halive : (s.threads id).Alive) :
    id < s.nextThreadId := by
  by_contra hlt
  exact Thread.not_alive_of_unused (h.fresh id (Nat.le_of_not_lt hlt)) halive

theorem Numbered.nonzero (h : s.Numbered) (halive : (s.threads id).Alive) : id ≠ 0 := by
  rintro rfl
  exact Thread.not_alive_of_unused h.zero halive

theorem Numbered.rises (h : s.Numbered) (hrises : s.Rises s') : s'.Numbered where
  fresh id hid := by
    rw [hrises.next] at hid
    exact (hrises.threads id).used.mpr (h.fresh id hid)
  zero := (hrises.threads 0).used.mpr h.zero
  started := hrises.next ▸ h.started

theorem Numbered.setThread (h : s.Numbered) {t : Thread}
    (hunused : (s.threads id).state = .unused → t.state = .unused) :
    (s.setThread id t).Numbered := by
  have hkept : ∀ other, (s.threads other).state = .unused →
      ((s.setThread id t).threads other).state = .unused := by
    intro other hother
    by_cases heq : other = id
    · subst heq
      rw [setThread_self]
      exact hunused hother
    · rw [setThread_of_ne heq]
      exact hother
  exact ⟨fun other hother => hkept other (h.fresh other hother), hkept 0 h.zero, h.started⟩

theorem create_threads_of_ne (h : id ≠ s.nextThreadId) : s.create.threads id = s.threads id :=
  setThread_of_ne h _

theorem Numbered.create (h : s.Numbered) : s.create.Numbered where
  fresh id hid := by
    have hle : s.nextThreadId + 1 ≤ id := hid
    rw [create_threads_of_ne (by omega)]
    exact h.fresh id (by omega)
  zero := by
    have := h.started
    rw [create_threads_of_ne (by omega)]
    exact h.zero
  started := Nat.succ_pos _

end Scheduler

end XsCore.Sched
