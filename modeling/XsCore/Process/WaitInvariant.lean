import XsCore.Process.Wait

/-! # What waits and exits keep

The invariant of the process table while no process waits that has a stopped child, no two threads
wait for one child, and no child exits behind the back of a parent that has chosen another one:
every exited process is in the table until a wait of its parent returns it, and a wait for any child
whose caller has an exited child has chosen an exited child.
-/

namespace XsCore.Process

open XsCore.Sched Function List

def ProcState.occupied : ProcState → Bool
  | .unused | .reaped => false
  | _ => true

theorem ProcState.occupied_of_visible {st : ProcState} (h : st.visible) : st.occupied := by
  cases st <;> first | rfl | cases h

theorem ProcState.visible_of_live {st : ProcState} (h : st.live) : st.visible ∧ st ≠ .exited := by
  cases st <;> first | exact ⟨rfl, noConfusion⟩ | cases h

open ProcState

namespace Processes

def reported (s : Processes) (pid : Nat) : Nat := s.reports.countP fun r => r.pid = pid

def Zombie (s : Processes) (pid : Nat) : Prop :=
  ∃ i, (s.procs i).state = .exited ∧ (s.procs i).pid = pid

/-- No thread of the process is in a wait. -/
def Idle (s : Processes) (pid : Nat) : Prop := ∀ t c, s.calls t = some c → c.caller ≠ pid

def StoppedChild (s : Processes) (caller : Nat) : Prop :=
  ∃ j, (s.procs j).state = .stopped ∧ (s.procs j).parentPid = caller

/-- The steps that keep waits in order.  A process is stopped only while its parent does not wait,
and no process waits while a child of it is stopped, or where another thread waits for a child it
wants; a process that has exited is not given another reason; a process does not exit or become the
reaper while it waits.  A process that exits while its parent waits for any child is the one the
parent has chosen, unless that one has exited too; and it leaves no exited child to a process that
waits for any child, and no stopped one to a process that waits. -/
def Orderly (s : Processes) : ReapOp → Prop
  | .stop i _ => (s.procs i).state.live = true → s.Idle (s.procs i).parentPid
  | .record i _ => (s.procs i).state ≠ .exited
  | .wait _ i wanted _ => ¬ s.StoppedChild (s.procs i).pid ∧
    ∀ t c, s.calls t = some c → s.isWanted (s.procs i).pid wanted c.target = false
  | .setReaper i => s.Idle (s.procs i).pid
  | .exit i _ =>
    s.Idle (s.procs i).pid ∧
    (∀ t c, s.calls t = some c → anyChild c.wanted → c.caller = (s.procs i).parentPid →
      c.target = i ∨ (s.procs c.target).state = .exited) ∧
    (∀ j, j ≠ i → (s.procs j).state = .exited → (s.procs j).parentPid = (s.procs i).pid →
      ∀ t c, s.calls t = some c → anyChild c.wanted → c.caller ≠ s.adopter i) ∧
    (∀ j, j ≠ i → (s.procs j).state = .stopped → (s.procs j).parentPid = (s.procs i).pid →
      s.Idle (s.adopter i))
  | _ => True

end Processes

open Processes

def PhaseOk (p : Proc) : WaitPhase → Prop
  | .chosen | .asleep | .nodding => True
  | .resumed => p.state = .exited
  | .answered status => p.state = .exited ∧ status = p.exitStatus
  | .reaping pid word => p.state = .exited ∧ pid = p.pid ∧ word = p.word p.exitStatus

structure CallOk (p : Proc) (thread : Thread) (t : Nat) (c : Call) : Prop where
  alive : thread.Alive
  caller : c.caller ≠ 0
  visible : p.state.visible = true
  parent : p.parentPid = c.caller
  wanted : anyChild c.wanted = true ∨ p.pid = c.wanted
  phase : PhaseOk p c.phase
  registered : c.phase = .asleep ∨ c.phase = .nodding → p.waiterThreadId = t
  awake : c.phase ≠ .asleep ∨ p.state = .exited → thread.state ≠ .blocked
  pending : c.phase = .nodding → p.state = .exited → thread.wakePending = true

structure ReportOk (s : Processes) (r : Report) : Prop where
  exited : (r.pid, r.word) ∈ s.exits
  parent : r.parent = r.caller
  wanted : anyChild r.wanted = true ∨ r.pid = r.wanted

structure ReapOk (s : Processes) : Prop where
  numbered : s.sched.Numbered
  started : 0 < s.nextPid
  bounded : ∀ i, (s.procs i).state.occupied = true → i < userMaxProcesses
  pids : ∀ i, (s.procs i).state.occupied = true → 0 < (s.procs i).pid ∧ (s.procs i).pid < s.nextPid
  unique : ∀ i j, (s.procs i).state.occupied = true → (s.procs j).state.occupied = true →
    (s.procs i).pid = (s.procs j).pid → i = j
  zombies : ∀ i, (s.procs i).state = .exited →
    ((s.procs i).pid, (s.procs i).word (s.procs i).exitStatus) ∈ s.exits
  lives : ∀ i, (s.procs i).state.occupied = true → (s.procs i).state ≠ .exited →
    ∀ w, ((s.procs i).pid, w) ∉ s.exits
  unreported : ∀ i, (s.procs i).state.occupied = true → s.reported (s.procs i).pid = 0
  fresh : ∀ pid, s.nextPid ≤ pid → s.reported pid = 0 ∧ ∀ w, (pid, w) ∉ s.exits
  settled : ∀ pid w, (pid, w) ∈ s.exits → s.Zombie pid ∨ s.reported pid = 1
  reports : ∀ r ∈ s.reports, ReportOk s r
  calls : ∀ t c, s.calls t = some c → CallOk (s.procs c.target) (s.sched.threads t) t c
  alone : ∀ t t' c c', s.calls t = some c → s.calls t' = some c' → c.target = c'.target → t = t'
  served : ∀ t c, s.calls t = some c → anyChild c.wanted = true →
    ∀ i, (s.procs i).state = .exited → (s.procs i).parentPid = c.caller →
      (s.procs c.target).state = .exited
  calm : ∀ t c, s.calls t = some c → ¬ s.StoppedChild c.caller

theorem ReportOk.mono {s s' : Processes} {r : Report} (h : ReportOk s r)
    (hexits : s.exits ⊆ s'.exits) : ReportOk s' r :=
  ⟨hexits h.exited, h.parent, h.wanted⟩

structure SlotOk (s : Processes) (i : Nat) (p : Proc) : Prop where
  bounded : p.state.occupied = true → i < userMaxProcesses
  pids : p.state.occupied = true → 0 < p.pid ∧ p.pid < s.nextPid
  zombies : p.state = .exited → (p.pid, p.word p.exitStatus) ∈ s.exits
  lives : p.state.occupied = true → p.state ≠ .exited → ∀ w, (p.pid, w) ∉ s.exits
  unreported : p.state.occupied = true → s.reported p.pid = 0

theorem ReapOk.slot {s : Processes} (h : ReapOk s) (i : Nat) : SlotOk s i (s.procs i) :=
  ⟨h.bounded i, h.pids i, h.zombies i, h.lives i, h.unreported i⟩

theorem boot_ok : ReapOk boot where
  numbered := Scheduler.boot_numbered
  started := Nat.one_pos
  bounded _ h := Bool.noConfusion h
  pids _ h := Bool.noConfusion h
  unique _ _ h := Bool.noConfusion h
  zombies _ h := noConfusion h
  lives _ h := Bool.noConfusion h
  unreported _ h := Bool.noConfusion h
  fresh _ _ := ⟨rfl, fun _ => not_mem_nil⟩
  settled _ _ h := absurd h not_mem_nil
  reports _ h := absurd h not_mem_nil
  calls _ _ h := nomatch h
  alone _ _ _ _ h := nomatch h
  served _ _ h := nomatch h
  calm _ _ h := nomatch h

section Moves

variable {s : Processes} {i t : Nat}

variable {c : Call} {p : Proc} {thread : Thread}

section

variable (h : ReapOk s)
include h

theorem ReapOk.visible_of_call (hc : s.calls t = some c) : (s.procs c.target).state.occupied :=
  occupied_of_visible (h.calls t c hc).visible

theorem ReapOk.target_calm (hc : s.calls t = some c) : (s.procs c.target).state ≠ .stopped :=
  fun hstopped => h.calm t c hc ⟨c.target, hstopped, (h.calls t c hc).parent⟩

theorem ReapOk.calm_update (hp : p.state ≠ .stopped) (hc : s.calls t = some c) :
    ¬ (s.setProc i p).StoppedChild c.caller := by
  rintro ⟨j, hj, hparent⟩
  dsimp only [Processes.setProc] at hj hparent
  rw [update_apply] at hj hparent
  split_ifs at hj hparent
  · exact hp hj
  · exact h.calm t c hc ⟨j, hj, hparent⟩

/-! ### Threads move -/

omit h in
theorem CallOk.rises {thread' : Thread} (h : CallOk p thread t c) (hrises : thread.Rises thread') :
    CallOk p thread' t c :=
  { h with
    alive := hrises.alive.mpr h.alive
    awake := fun hor => hrises.awake (h.awake hor) ▸ h.awake hor
    pending := fun hphase hexited => hrises.pending (h.pending hphase hexited) }

theorem ReapOk.sched (sched : Scheduler) (hnumbered : sched.Numbered)
    (hcalls : ∀ t c, s.calls t = some c → CallOk (s.procs c.target) (sched.threads t) t c) :
    ReapOk { s with sched := sched } :=
  { h with
    numbered := hnumbered
    reports := fun r hr => (h.reports r hr).mono (fun _ => id)
    calls := hcalls }

theorem ReapOk.wake (t : Nat) : ReapOk (s.wake t) := by
  have hrises := s.sched.wake_getD_rises t
  apply h.sched _ (h.numbered.rises hrises)
  exact fun u c hc => (h.calls u c hc).rises (hrises.threads u)

theorem ReapOk.create : ReapOk { s with sched := s.sched.create } := by
  apply h.sched _ h.numbered.create
  intro u c hc
  have hok := h.calls u c hc
  rw [Scheduler.create_threads_of_ne (Nat.ne_of_lt (h.numbered.created hok.alive))]
  exact hok

theorem ReapOk.setThread (hunused : (s.sched.threads t).state = .unused → thread.state = .unused)
    (hcall : ∀ c, s.calls t = some c → CallOk (s.procs c.target) thread t c) :
    ReapOk { s with sched := s.sched.setThread t thread } := by
  apply h.sched _ (h.numbered.setThread hunused)
  intro u c hc
  by_cases heq : u = t
  · subst heq
    rw [Scheduler.setThread_self]
    exact hcall c hc
  · rw [Scheduler.setThread_of_ne heq]
    exact h.calls u c hc

omit h in
theorem CallOk.move (h : CallOk p thread t c) {m : Move} (hblock : m ≠ .block) (hexit : m ≠ .exit) :
    CallOk p (thread.move m) t c := by
  obtain ⟨state, pending, exit⟩ := thread
  have halive := h.alive
  have hawake := h.awake
  have hpending := h.pending
  refine { h with alive := ?_, awake := ?_, pending := ?_ }
  all_goals
    cases m <;> cases state <;>
      simp_all [Thread.move, Thread.wake, Thread.requestExit, Thread.Alive]

/-! ### Calls change -/

theorem ReapOk.setCall (t : Nat) (call : Option Call)
    (hcall : ∀ c, call = some c → CallOk (s.procs c.target) (s.sched.threads t) t c)
    (halone : ∀ c, call = some c → ∀ u c', s.calls u = some c' → c'.target = c.target → u = t)
    (hserved : ∀ c, call = some c → anyChild c.wanted →
      ∀ i, (s.procs i).state = .exited → (s.procs i).parentPid = c.caller →
        (s.procs c.target).state = .exited)
    (hcalm : ∀ c, call = some c → ¬ s.StoppedChild c.caller) : ReapOk (s.setCall t call) := by
  have hcalls : ∀ u c, (s.setCall t call).calls u = some c →
      u = t ∧ call = some c ∨ u ≠ t ∧ s.calls u = some c := by
    intro u c hc
    have hc : update s.calls t call u = some c := hc
    rw [update_apply] at hc
    split_ifs at hc with hu
    · exact .inl ⟨hu, hc⟩
    · exact .inr ⟨hu, hc⟩
  refine { h with
    reports := fun r hr => (h.reports r hr).mono (fun _ => id), calls := ?_, alone := ?_,
    served := ?_, calm := ?_ }
  · intro u c hc
    rcases hcalls u c hc with ⟨rfl, hnew⟩ | ⟨-, hold⟩
    · exact hcall c hnew
    · exact h.calls u c hold
  · intro u u' c c' hc hc' htarget
    rcases hcalls u c hc with ⟨rfl, hnew⟩ | ⟨-, hold⟩
    · rcases hcalls u' c' hc' with ⟨rfl, -⟩ | ⟨-, hold'⟩
      · rfl
      · exact (halone c hnew u' c' hold' htarget.symm).symm
    · rcases hcalls u' c' hc' with ⟨rfl, hnew'⟩ | ⟨-, hold'⟩
      · exact halone c' hnew' u c hold htarget
      · exact h.alone u u' c c' hold hold' htarget
  · intro u c hc
    rcases hcalls u c hc with ⟨-, hc⟩ | ⟨-, hc⟩
    · exact hserved c hc
    · exact h.served u c hc
  · intro u c hc
    rcases hcalls u c hc with ⟨-, hc⟩ | ⟨-, hc⟩
    · exact hcalm c hc
    · exact h.calm u c hc

theorem ReapOk.drop (t : Nat) : ReapOk (s.setCall t none) := by
  apply h.setCall t none <;> exact fun c hc => nomatch hc

theorem ReapOk.setPhase (hc : s.calls t = some c) {phase : WaitPhase}
    (hcall : CallOk (s.procs c.target) (s.sched.threads t) t { c with phase := phase }) :
    ReapOk (s.setCall t (some { c with phase := phase })) := by
  apply h.setCall t
  · rintro c' hc'
    cases hc'
    exact hcall
  · rintro c' hc' u v hv htarget
    cases hc'
    exact h.alone u t v c hv hc htarget
  · rintro c' hc'
    cases hc'
    exact h.served t c hc
  · rintro c' hc'
    cases hc'
    exact h.calm t c hc

end

/-! ### Processes change -/

/-- Two versions of a slot that differ in nothing the invariant speaks of, but perhaps in the thread
that waits for the process. -/
structure Alike (p q : Proc) : Prop where
  pid : q.pid = p.pid
  parent : q.parentPid = p.parentPid
  exited : q.state = .exited ↔ p.state = .exited
  occupied : q.state.occupied = p.state.occupied
  visible : p.state.visible = true → q.state.visible = true
  status : p.state = .exited →
    q.exitStatus = p.exitStatus ∧ q.terminationSignal = p.terminationSignal

theorem Alike.refl (p : Proc) : Alike p p :=
  ⟨rfl, rfl, Iff.rfl, rfl, id, fun _ => ⟨rfl, rfl⟩⟩

theorem Alike.word {q : Proc} (h : Alike p q) (hexited : p.state = .exited) :
    q.word q.exitStatus = p.word p.exitStatus := by
  obtain ⟨hstatus, hsignal⟩ := h.status hexited
  rw [Proc.word, Proc.word, hstatus, hsignal]

theorem CallOk.alike {q : Proc} (h : CallOk p thread t c) (halike : Alike p q)
    (hregistered : c.phase = .asleep ∨ c.phase = .nodding → q.waiterThreadId = t) :
    CallOk q thread t c where
  alive := h.alive
  caller := h.caller
  visible := halike.visible h.visible
  parent := halike.parent.trans h.parent
  wanted := halike.pid ▸ h.wanted
  phase := by
    have hphase := h.phase
    generalize c.phase = phase at hphase
    cases phase with
    | chosen | asleep | nodding => trivial
    | resumed => exact halike.exited.mpr hphase
    | answered status =>
      exact ⟨halike.exited.mpr hphase.1, hphase.2.trans (halike.status hphase.1).1.symm⟩
    | reaping pid word =>
      exact ⟨halike.exited.mpr hphase.1, hphase.2.1.trans halike.pid.symm,
        hphase.2.2.trans (halike.word hphase.1).symm⟩
  registered := hregistered
  awake hor := h.awake (hor.imp_right halike.exited.mp)
  pending hphase hexited := h.pending hphase (halike.exited.mp hexited)

section

variable (h : ReapOk s)
include h

theorem ReapOk.alike {procs : Nat → Proc} (reaper : Nat) (halike : ∀ i, Alike (s.procs i) (procs i))
    (hregistered : ∀ t c, s.calls t = some c → c.phase = .asleep ∨ c.phase = .nodding →
      (procs c.target).waiterThreadId = t)
    (hcalm : ∀ i, (procs i).state = .stopped →
      (s.procs i).state = .stopped ∨ s.Idle (s.procs i).parentPid) :
    ReapOk { s with procs := procs, reaperPid := reaper } where
  numbered := h.numbered
  started := h.started
  bounded i hi := h.bounded i ((halike i).occupied ▸ hi)
  pids i hi := by
    have := h.pids i ((halike i).occupied ▸ hi)
    rwa [← (halike i).pid] at this
  unique i j hi hj hpid := by
    apply h.unique i j ((halike i).occupied ▸ hi) ((halike j).occupied ▸ hj)
    rw [← (halike i).pid, ← (halike j).pid]
    exact hpid
  zombies i hi := by
    have hexited := (halike i).exited.mp hi
    have := h.zombies i hexited
    rwa [← (halike i).pid, ← (halike i).word hexited] at this
  lives i hi hne := by
    have := h.lives i ((halike i).occupied ▸ hi) fun hexited => hne ((halike i).exited.mpr hexited)
    rwa [← (halike i).pid] at this
  unreported i hi := by
    have := h.unreported i ((halike i).occupied ▸ hi)
    rwa [← (halike i).pid] at this
  fresh := h.fresh
  settled pid w hmem := by
    rcases h.settled pid w hmem with ⟨i, hexited, hpid⟩ | hone
    · exact .inl ⟨i, (halike i).exited.mpr hexited, (halike i).pid.trans hpid⟩
    · exact .inr hone
  reports r hr := (h.reports r hr).mono (fun _ => id)
  calls t c hc := (h.calls t c hc).alike (halike c.target) (hregistered t c hc)
  alone := h.alone
  served t c hc hany i hexited hparent := by
    apply (halike c.target).exited.mpr
    exact h.served t c hc hany i ((halike i).exited.mp hexited) ((halike i).parent ▸ hparent)
  calm t c hc := by
    rintro ⟨i, hstopped, hparent⟩
    have hparent : (s.procs i).parentPid = c.caller := (halike i).parent.symm.trans hparent
    rcases hcalm i hstopped with hstopped | hfree
    · exact h.calm t c hc ⟨i, hstopped, hparent⟩
    · exact hfree t c hc hparent.symm

theorem ReapOk.setProc (i : Nat) (halike : Alike (s.procs i) p)
    (hregistered : ∀ t c, s.calls t = some c → c.target = i →
      c.phase = .asleep ∨ c.phase = .nodding → p.waiterThreadId = t)
    (hcalm : p.state = .stopped →
      (s.procs i).state = .stopped ∨ s.Idle (s.procs i).parentPid) : ReapOk (s.setProc i p) := by
  apply h.alike s.reaperPid
  · intro j
    rw [update_apply]
    split_ifs with hj
    · subst hj
      exact halike
    · exact .refl _
  · intro t c hc hphase
    by_cases htarget : c.target = i
    · rw [htarget, update_self]
      exact hregistered t c hc htarget hphase
    · rw [update_of_ne htarget]
      exact (h.calls t c hc).registered hphase
  · intro j hstopped
    rw [update_apply] at hstopped
    split_ifs at hstopped with hj
    · subst hj
      exact hcalm hstopped
    · exact .inl hstopped

theorem ReapOk.amend (i : Nat) (halike : Alike (s.procs i) p)
    (hwaiter : p.waiterThreadId = (s.procs i).waiterThreadId)
    (hcalm : p.state = .stopped →
      (s.procs i).state = .stopped ∨ s.Idle (s.procs i).parentPid) : ReapOk (s.setProc i p) := by
  refine h.setProc i halike ?_ hcalm
  rintro t c hc rfl hphase
  exact hwaiter.trans ((h.calls t c hc).registered hphase)

theorem ReapOk.unique_update (hpid : p.state.occupied →
      ∀ j ≠ i, (s.procs j).state.occupied → (s.procs j).pid ≠ p.pid) (j k : Nat)
    (hj : (update s.procs i p j).state.occupied) (hk : (update s.procs i p k).state.occupied)
    (heq : (update s.procs i p j).pid = (update s.procs i p k).pid) : j = k := by
  by_cases hji : j = i
  · by_cases hki : k = i
    · rw [hji, hki]
    rw [update_of_ne hki] at hk heq
    rw [hji, update_self] at hj heq
    exact absurd heq.symm (hpid hj k hki hk)
  · rw [update_of_ne hji] at hj heq
    by_cases hki : k = i
    · rw [hki, update_self] at hk heq
      exact absurd heq (hpid hk j hji hj)
    · rw [update_of_ne hki] at hk heq
      exact h.unique j k hj hk heq

omit h in
theorem Processes.Zombie.update {s' : Processes} {pid : Nat} (hz : s.Zombie pid)
    (hprocs : s'.procs = Function.update s.procs i p) (hi : (s.procs i).state ≠ .exited) :
    s'.Zombie pid := by
  obtain ⟨j, hj, hpid⟩ := hz
  have hne : j ≠ i := by
    rintro rfl
    exact hi hj
  refine ⟨j, ?_⟩
  rw [hprocs, update_of_ne hne]
  exact ⟨hj, hpid⟩

theorem ReapOk.reserve (parentPid : Nat) (ignoresChild : Bool) :
    ReapOk (s.reserve parentPid ignoresChild) := by
  rw [Processes.reserve]
  rcases hslot : s.freeSlot with _ | i
  · exact h
  have hbound : i < userMaxProcesses := mem_range.mp (mem_of_find?_eq_some hslot)
  have hfree : (s.procs i).state.occupied = false := by
    have hor := List.find?_some hslot
    simp only [Bool.or_eq_true, decide_eq_true_eq] at hor
    rcases hor with hor | hor
    all_goals
      rw [hor]
      rfl
  have hexited : (s.procs i).state ≠ .exited := by
    intro heq
    rw [heq] at hfree
    cases hfree
  obtain ⟨hnone, hout⟩ := h.fresh s.nextPid (Nat.le_refl _)
  have htarget : ∀ t c, s.calls t = some c → c.target ≠ i := by
    rintro t c hc rfl
    rw [h.visible_of_call hc] at hfree
    cases hfree
  have hslots : ∀ j, SlotOk { s with nextPid := s.nextPid + 1 } j (update s.procs i
      { state := .allocating, pid := s.nextPid, parentPid := parentPid,
        exitStatus := 2 ^ 64 - 1, ignoresChild := ignoresChild } j) := by
    intro j
    rw [update_apply]
    split_ifs with heq
    · subst heq
      exact ⟨fun _ => hbound, fun _ => ⟨h.started, Nat.lt_succ_self _⟩,
        noConfusion, fun _ _ => hout, fun _ => hnone⟩
    · exact { h.slot j with pids := fun hj => (h.pids j hj).imp_right Nat.lt_succ_of_lt }
  refine ⟨h.numbered, Nat.succ_pos _, fun j => (hslots j).bounded, fun j => (hslots j).pids,
    h.unique_update fun _ j _ hj => Nat.ne_of_lt (h.pids j hj).2,
    fun j => (hslots j).zombies, fun j => (hslots j).lives, fun j => (hslots j).unreported,
    fun pid hpid => h.fresh pid (Nat.le_of_succ_le hpid),
    fun pid w hmem => (h.settled pid w hmem).imp_left (·.update rfl hexited),
    fun r hr => (h.reports r hr).mono (fun _ => id), ?_, h.alone, ?_,
    fun t c hc => h.calm_update noConfusion hc⟩
  all_goals dsimp only [Processes.setProc]
  · intro t c hc
    rw [update_of_ne (htarget t c hc)]
    exact h.calls t c hc
  · intro t c hc hany j hj hparent
    have hne : j ≠ i := by
      rintro rfl
      rw [update_self] at hj
      cases hj
    rw [update_of_ne hne] at hj hparent
    rw [update_of_ne (htarget t c hc)]
    exact h.served t c hc hany j hj hparent

/-- A slot becomes free; if its process had exited, a wait has just returned it. -/
theorem ReapOk.vacate {reports : List Report} (hp : p.state.occupied = false)
    (hi : (s.procs i).state.occupied) (hcalls : ∀ t c, s.calls t = some c → c.target ≠ i)
    (hother : ∀ pid, pid ≠ (s.procs i).pid → reports.countP (·.pid = pid) = s.reported pid)
    (hself : (s.procs i).state = .exited → reports.countP (fun r => r.pid = (s.procs i).pid) = 1)
    (hreports : ∀ r ∈ reports, ReportOk s r) :
    ReapOk { s.setProc i p with reports := reports } := by
  have hfree : ∀ st, st.occupied → p.state ≠ st := by
    rintro st hst rfl
    rw [hp] at hst
    cases hst
  have hslots : ∀ j, SlotOk { s with reports := reports } j (update s.procs i p j) := by
    intro j
    rw [update_apply]
    split_ifs with heq
    · subst heq
      exact ⟨fun hj => absurd rfl (hfree _ hj), fun hj => absurd rfl (hfree _ hj),
        fun hj => absurd hj (hfree _ rfl), fun hj => absurd rfl (hfree _ hj),
        fun hj => absurd rfl (hfree _ hj)⟩
    · refine { h.slot j with unreported := fun hj => ?_ }
      rw [reported, hother _ fun hpid => heq (h.unique j i hj hi hpid)]
      exact h.unreported j hj
  refine ⟨h.numbered, h.started, fun j => (hslots j).bounded, fun j => (hslots j).pids,
    h.unique_update fun hj => absurd rfl (hfree _ hj),
    fun j => (hslots j).zombies, fun j => (hslots j).lives, fun j => (hslots j).unreported,
    ?_, ?_, fun r hr => (hreports r hr).mono (fun _ => id), ?_, h.alone, ?_,
    fun t c hc => h.calm_update (hfree _ rfl) hc⟩
  all_goals dsimp only [Processes.setProc]
  · intro pid hpid
    have hlt := (h.pids i hi).2
    rw [reported, hother _ (by omega)]
    exact h.fresh pid hpid
  · intro pid w hmem
    rcases h.settled pid w hmem with ⟨j, hj, hpid⟩ | hone
    · by_cases heq : j = i
      · subst heq hpid
        exact .inr (hself hj)
      refine .inl ⟨j, ?_⟩
      dsimp only
      rw [update_of_ne heq]
      exact ⟨hj, hpid⟩
    · refine .inr ?_
      rw [reported, hother]
      · exact hone
      · rintro rfl
        rw [h.unreported i hi] at hone
        cases hone
  · intro t c hc
    rw [update_of_ne (hcalls t c hc)]
    exact h.calls t c hc
  · intro t c hc hany j hj hparent
    have heq : j ≠ i := by
      rintro rfl
      rw [update_self] at hj
      exact hfree _ rfl hj
    rw [update_of_ne heq] at hj hparent
    rw [update_of_ne (hcalls t c hc)]
    exact h.served t c hc hany j hj hparent

/-- Some processes get another parent.  None of them is waited for, and the new parent does not wait
for any child if one of them has exited, or at all if one of them is stopped. -/
theorem ReapOk.reparent (moves : Nat → Prop) (procs : Nat → Proc) {parent : Nat} (reaper : Nat)
    (hmoved : ∀ j, moves j → procs j = { s.procs j with parentPid := parent })
    (hkept : ∀ j, ¬ moves j → procs j = s.procs j)
    (hcalls : ∀ t c, s.calls t = some c → ¬ moves c.target)
    (hserved : ∀ j, moves j → (s.procs j).state = .exited →
      ∀ t c, s.calls t = some c → anyChild c.wanted → c.caller ≠ parent)
    (hcalm : ∀ j, moves j → (s.procs j).state = .stopped → s.Idle parent) :
    ReapOk { s with procs := procs, reaperPid := reaper } := by
  have hparent : ∀ j, procs j = { s.procs j with parentPid := (procs j).parentPid } := by
    intro j
    by_cases hj : moves j
    · rw [hmoved j hj]
    · rw [hkept j hj]
  have hstate : ∀ j, (procs j).state = (s.procs j).state := fun j => by rw [hparent j]
  have hpid : ∀ j, (procs j).pid = (s.procs j).pid := fun j => by rw [hparent j]
  have hslots : ∀ j, SlotOk s j (procs j) := by
    intro j
    have hslot := h.slot j
    rw [hparent j]
    exact { hslot with }
  refine ⟨h.numbered, h.started, fun j => (hslots j).bounded, fun j => (hslots j).pids, ?_,
    fun j => (hslots j).zombies, fun j => (hslots j).lives, fun j => (hslots j).unreported, h.fresh,
    ?_, fun r hr => (h.reports r hr).mono (fun _ => id), ?_, h.alone, ?_, ?_⟩
  all_goals dsimp only
  · intro j k hj hk hpids
    rw [hpid, hpid] at hpids
    exact h.unique j k (hstate j ▸ hj) (hstate k ▸ hk) hpids
  · intro pid w hmem
    rcases h.settled pid w hmem with ⟨j, hj, hpids⟩ | hone
    · exact .inl ⟨j, (hstate j).trans hj, (hpid j).trans hpids⟩
    · exact .inr hone
  · intro t c hc
    rw [hkept _ (hcalls t c hc)]
    exact h.calls t c hc
  · intro t c hc hany j hj hjparent
    rw [hstate] at hj ⊢
    by_cases hmoves : moves j
    · have hnew : (procs j).parentPid = parent := by rw [hmoved j hmoves]
      exact absurd (hjparent.symm.trans hnew) (hserved j hmoves hj t c hc hany)
    · rw [hkept j hmoves] at hjparent
      exact h.served t c hc hany j hj hjparent
  · rintro t c hc ⟨j, hj, hjparent⟩
    have hj : (s.procs j).state = .stopped := (hstate j).symm.trans hj
    by_cases hmoves : moves j
    · have hnew : (procs j).parentPid = parent := by rw [hmoved j hmoves]
      exact hcalm j hmoves hj t c hc (hjparent.symm.trans hnew)
    · exact h.calm t c hc ⟨j, hj, hkept j hmoves ▸ hjparent⟩

theorem ReapOk.retire (i status : Nat) (hlive : (s.procs i).state.live)
    (hroused : ∀ t c, s.calls t = some c → c.target = i → (s.sched.threads t).state ≠ .blocked ∧
      (c.phase = .nodding → (s.sched.threads t).wakePending))
    (horder : ∀ t c, s.calls t = some c → anyChild c.wanted →
      c.caller = (s.procs i).parentPid → c.target = i ∨ (s.procs c.target).state = .exited) :
    ReapOk (s.retire i status) := by
  obtain ⟨hvisible, hexited⟩ := visible_of_live hlive
  have hoccupied := occupied_of_visible hvisible
  have hself := h.slot i
  have hother : ∀ j ≠ i, (s.procs j).state.occupied →
      (s.procs j).pid ≠ (s.procs i).pid :=
    fun j hne hj hpid => hne (h.unique j i hj hoccupied hpid)
  have hslots : ∀ j, SlotOk (s.retire i status) j ((s.retire i status).procs j) := by
    intro j
    dsimp only [Processes.retire, Processes.setProc]
    rw [update_apply]
    split_ifs with heq
    · subst heq
      exact ⟨fun _ => hself.bounded hoccupied, fun _ => hself.pids hoccupied,
        fun _ => mem_cons_self, fun _ hne => absurd rfl hne, fun _ => hself.unreported hoccupied⟩
    refine { h.slot j with
      zombies := fun hj => mem_cons_of_mem _ (h.zombies j hj)
      lives := fun hj hne w hmem => ?_ }
    rcases mem_cons.mp hmem with hmem | hmem
    · exact hother j heq hj (Prod.mk.inj hmem).1
    · exact h.lives j hj hne w hmem
  refine ⟨h.numbered, h.started, fun j => (hslots j).bounded, fun j => (hslots j).pids,
    h.unique_update fun _ => hother, fun j => (hslots j).zombies,
    fun j => (hslots j).lives, fun j => (hslots j).unreported, ?_, ?_,
    fun r hr => (h.reports r hr).mono fun _ => mem_cons_of_mem _, ?_, h.alone, ?_,
    fun t c hc => h.calm_update noConfusion hc⟩
  all_goals dsimp only [Processes.retire, Processes.setProc]
  · intro pid hpid
    refine ⟨(h.fresh pid hpid).1, fun w hmem => ?_⟩
    rcases mem_cons.mp hmem with hmem | hmem
    · have hlt := (h.pids i hoccupied).2
      have heq := (Prod.mk.inj hmem).1
      omega
    · exact (h.fresh pid hpid).2 w hmem
  · intro pid w hmem
    rcases mem_cons.mp hmem with hmem | hmem
    · refine .inl ⟨i, ?_⟩
      dsimp only
      rw [update_self]
      exact ⟨rfl, (Prod.mk.inj hmem).1.symm⟩
    · exact (h.settled pid w hmem).imp_left (·.update rfl hexited)
  · intro t c hc
    have hok := h.calls t c hc
    by_cases heq : c.target = i
    · obtain ⟨hawake, hpending⟩ := hroused t c hc heq
      rw [heq, update_self]
      rw [heq] at hok
      refine ⟨hok.alive, hok.caller, rfl, hok.parent, hok.wanted, ?_, hok.registered,
        fun _ => hawake, fun hphase _ => hpending hphase⟩
      -- The child was alive, so the wait has not come past its loop.
      have hphase := hok.phase
      generalize c.phase = phase at hphase
      cases phase with
      | chosen | asleep | nodding => trivial
      | resumed => exact absurd hphase hexited
      | answered st | reaping pid word => exact absurd hphase.1 hexited
    · rw [update_of_ne heq]
      exact hok
  · intro t c hc hany j hj hparent
    by_cases htarget : c.target = i
    · rw [htarget, update_self]
    rw [update_of_ne htarget]
    by_cases heq : j = i
    · subst heq
      rw [update_self] at hparent
      exact (horder t c hc hany hparent.symm).resolve_left htarget
    · rw [update_of_ne heq] at hj hparent
      exact h.served t c hc hany j hj hparent

end

end Moves

end XsCore.Process
