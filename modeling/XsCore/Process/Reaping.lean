import XsCore.Process.WaitInvariant

/-! # Child reaping

Every step of an orderly run keeps the invariant of the process table, so a wait for any child never
sleeps while a child of its caller has exited, every exit is returned once, and a wait for one pid
returns that pid.
-/

namespace XsCore.Process

open XsCore.Sched Processes Function List

variable {caller wanted j status pid word : Nat}

section Steps

variable {s : Processes} {i t : Nat} {c : Call}

/-! ### Exits -/

theorem notifyParent_spec (s : Processes) (i : Nat) :
    ∃ procs, (s.notifyParent i).1 = { s with procs := procs } ∧
      ∀ j, Alike (s.procs j) (procs j) ∧ (procs j).state = (s.procs j).state ∧
        (procs j).waiterThreadId = (s.procs j).waiterThreadId := by
  rw [notifyParent]
  dsimp only
  split
  · exact ⟨s.procs, rfl, fun j => ⟨.refl _, rfl, rfl⟩⟩
  split
  · exact ⟨s.procs, rfl, fun j => ⟨.refl _, rfl, rfl⟩⟩
  rename_i j _
  split
  · refine ⟨_, rfl, fun k => ?_⟩
    by_cases hk : k = j
    · subst hk
      rw [update_self]
      exact ⟨⟨rfl, rfl, Iff.rfl, rfl, id, fun _ => ⟨rfl, rfl⟩⟩, rfl, rfl⟩
    · rw [update_of_ne hk]
      exact ⟨.refl _, rfl, rfl⟩
  · exact ⟨s.procs, rfl, fun j => ⟨.refl _, rfl, rfl⟩⟩

theorem CallOk.woken {sched : Scheduler} {p : Proc} (h : CallOk p (sched.threads t) t c)
    (hnumbered : sched.Numbered) {sched' : Scheduler}
    (hrises : ((sched.wake p.waiterThreadId).getD sched).Rises sched') :
    (sched'.threads t).state ≠ .blocked ∧
      (c.phase = .nodding → (sched'.threads t).wakePending) := by
  have hrises' := (sched.wake_getD_rises p.waiterThreadId).trans hrises
  by_cases hregistered : c.phase = .asleep ∨ c.phase = .nodding
  · have hwaiter := h.registered hregistered
    rw [hwaiter] at hrises
    have hroused := (Scheduler.wake_getD_roused (hnumbered.nonzero h.alive) h.alive).rises
      (hrises.threads t)
    refine ⟨hroused.1, fun hphase => hroused.2 (h.awake (.inl ?_))⟩
    rw [hphase]
    exact WaitPhase.noConfusion
  · have hawake := h.awake (.inl fun hphase => hregistered (.inl hphase))
    refine ⟨(hrises'.threads t).awake hawake ▸ hawake, fun hphase => ?_⟩
    exact absurd (.inr hphase) hregistered

theorem adopt_state (s : Processes) (i j : Nat) :
    ((s.adopt i).procs j).state = (s.procs j).state := by
  rw [adopt]
  dsimp only
  split <;> rfl

theorem ReapOk.markExited (h : ReapOk s) (status : Nat) (hlive : (s.procs i).state.live)
    (horderly : s.Orderly (.exit i status)) : ReapOk (s.markExited i status) := by
  obtain ⟨hcallers, horder, horphans, hstopped⟩ := horderly
  rw [Processes.markExited]
  obtain ⟨procs, hnotify, halike⟩ := notifyParent_spec ((s.adopt i).retire i status) i
  generalize ((s.adopt i).retire i status).notifyParent i = out at hnotify ⊢
  obtain ⟨notified, thread⟩ := out
  dsimp only at hnotify ⊢
  -- The wakes only touch the scheduler, so they may as well come first.
  have hwoken := (h.wake (s.procs i).waiterThreadId).wake thread
  have hself : (s.adopt i).procs i = s.procs i := if_neg fun hmoves => hmoves.1 rfl
  have hadopted := hwoken.reparent
    (fun j => j ≠ i ∧ (s.procs j).state.visible ∧ (s.procs j).parentPid = (s.procs i).pid)
    (s.adopt i).procs (s.adopt i).reaperPid (fun j hj => if_pos hj) (fun j hj => if_neg hj)
    (fun u c hc hmoves => hcallers u c hc ((h.calls u c hc).parent.symm.trans hmoves.2.2))
    (fun j hmoves hexited u c hc hany => horphans j hmoves.1 hexited hmoves.2.2 u c hc hany)
    (fun j hmoves hstop => hstopped j hmoves.1 hstop hmoves.2.2)
  have hretired := hadopted.retire i status (hself ▸ hlive)
    (by
      rintro u c hc rfl
      exact (h.calls u c hc).woken h.numbered (Scheduler.wake_getD_rises _ thread))
    (by
      intro u c hc hany hcaller
      rw [hself] at hcaller
      rcases horder u c hc hany hcaller with htarget | hexited
      · exact .inl htarget
      · exact .inr ((adopt_state s i c.target).trans hexited))
  have hdone := hretired.alike (s.adopt i).reaperPid (fun j => (halike j).1)
    (fun u c hc hphase => (halike c.target).2.2.trans ((hretired.calls u c hc).registered hphase))
    fun j hstop => .inl ((halike j).2.1.symm.trans hstop)
  rw [hnotify]
  exact hdone

theorem ReapOk.setReaper (h : ReapOk s) (horderly : s.Orderly (.setReaper i)) :
    ReapOk (s.setReaper i) := by
  rw [Processes.setReaper]
  split
  · apply h.reparent
      (fun j => j ≠ i ∧ (s.procs j).state.visible ∧ (s.procs j).parentPid = 0)
    · exact fun j hj => if_pos hj
    · exact fun j hj => if_neg hj
    · intro u c hc hmoves
      exact (h.calls u c hc).caller ((h.calls u c hc).parent.symm.trans hmoves.2.2)
    · exact fun j _ _ u c hc _ => horderly u c hc
    · exact fun _ _ _ => horderly
  · exact h

/-! ### Waits -/

theorem findChild_mem (slots : List Nat) (found : Option Nat)
    (h : s.findChild caller wanted slots found = some j) :
    found = some j ∨ j ∈ slots ∧ s.isWanted caller wanted j := by
  induction slots generalizing found with
  | nil => exact .inl h
  | cons k slots ih =>
    rw [findChild] at h
    split at h
    · rename_i hwanted
      split at h
      · cases h
        exact .inr ⟨mem_cons_self, hwanted⟩
      rcases ih _ h with hfound | ⟨hmem, hj⟩
      · cases found with
        | none =>
          cases hfound
          exact .inr ⟨mem_cons_self, hwanted⟩
        | some _ => exact .inl hfound
      · exact .inr ⟨mem_cons_of_mem _ hmem, hj⟩
    · rcases ih _ h with hfound | ⟨hmem, hj⟩
      · exact .inl hfound
      · exact .inr ⟨mem_cons_of_mem _ hmem, hj⟩

theorem findChild_ended (slots : List Nat) (found : Option Nat) (hj : j ∈ slots)
    (hwanted : s.isWanted caller wanted j) (hended : (s.procs j).state.ended) :
    ∃ k, s.findChild caller wanted slots found = some k ∧
      s.isWanted caller wanted k ∧ (s.procs k).state.ended := by
  induction slots generalizing found with
  | nil => cases hj
  | cons k slots ih =>
    rw [findChild]
    split
    next hk =>
      split_ifs with hkended
      · exact ⟨k, rfl, hk, hkended⟩
      rcases mem_cons.mp hj with rfl | hj
      · exact absurd hended hkended
      · exact ih _ hj
    next hk =>
      rcases mem_cons.mp hj with rfl | hj
      · exact absurd hwanted hk
      · exact ih _ hj

def Processes.ExitedChild (s : Processes) (caller i : Nat) : Prop :=
  (s.procs i).state = .exited ∧ (s.procs i).parentPid = caller

theorem ProcState.exited_of_ended {st : ProcState} (hcalm : st ≠ .stopped) (hended : st.ended) :
    st = .exited := by
  cases st with
  | exited => rfl
  | stopped => exact absurd rfl hcalm
  | unused | allocating | ready | running | reaped => cases hended

theorem ReapOk.finds_exited (h : ReapOk s) (hcalm : ¬ s.StoppedChild caller)
    (hany : anyChild wanted) (hj : s.ExitedChild caller j) : ∃ k, s.findChild caller wanted (List.range userMaxProcesses) none = some k ∧
      s.ExitedChild caller k := by
  obtain ⟨hexited, hparent⟩ := hj
  have hbound : j < userMaxProcesses := h.bounded j (by rw [hexited]; rfl)
  have hwanted : s.isWanted caller wanted j := by
    rw [isWanted, hexited, hany, Bool.true_or, Bool.and_true, hparent]
    exact decide_eq_true rfl
  obtain ⟨k, hfind, hk, hended⟩ := findChild_ended (List.range userMaxProcesses) none
    (mem_range.mpr hbound) hwanted (by rw [hexited]; rfl)
  simp only [isWanted, Bool.and_eq_true, decide_eq_true_eq] at hk
  exact ⟨k, hfind, ProcState.exited_of_ended (fun hstop => hcalm ⟨k, hstop, hk.1.2⟩) hended, hk.1.2⟩

theorem ReapOk.waitpid (h : ReapOk s) {options : Nat}
    (hrunning : (s.sched.threads t).state = .running) (hproc : (s.procs i).state = .running)
    (horderly : s.Orderly (.wait t i wanted options)) :
    ReapOk (s.waitpid t (s.procs i).pid wanted options) := by
  rw [Processes.waitpid]
  have hpid := h.pids i (by rw [hproc]; rfl)
  split
  · exact h
  rename_i k hfind
  split
  · exact h
  obtain ⟨-, hk⟩ := (findChild_mem _ _ hfind).resolve_left nofun
  have hchosen := hk
  simp only [isWanted, Bool.and_eq_true, Bool.or_eq_true, decide_eq_true_eq] at hk
  obtain ⟨⟨hvisible, hparent⟩, hwanted⟩ := hk
  apply h.setCall t
  · rintro c hc
    cases hc
    refine ⟨.inr (.inl hrunning), by dsimp only; omega, hvisible, hparent, hwanted,
      trivial, ?_, ?_, ?_⟩
    · exact (·.elim WaitPhase.noConfusion WaitPhase.noConfusion)
    · rw [hrunning]
      exact fun _ => ThreadState.noConfusion
    · exact WaitPhase.noConfusion
  · rintro c hc u c' hc' htarget
    cases hc
    have hother := horderly.2 u c' hc'
    rw [htarget, hchosen] at hother
    cases hother
  · rintro c hc hany j hexited hjparent
    cases hc
    obtain ⟨k', hfind', hexited', -⟩ := h.finds_exited horderly.1 hany ⟨hexited, hjparent⟩
    rw [hfind] at hfind'
    cases hfind'
    exact hexited'
  · rintro c hc
    cases hc
    exact horderly.1

/-! ### The sections of a wait -/

section

variable (h : ReapOk s)
include h

section

variable (hc : s.calls t = some c)
include hc

theorem ReapOk.register (hexited : (s.procs c.target).state ≠ .exited) :
    ReapOk ((s.setProc c.target { s.procs c.target with waiterThreadId := t }).setCall t
      (some { c with phase := .asleep })) := by
  have hregistered : ReapOk (s.setProc c.target { s.procs c.target with waiterThreadId := t }) := by
    apply h.setProc c.target
    · exact ⟨rfl, rfl, Iff.rfl, rfl, id, fun _ => ⟨rfl, rfl⟩⟩
    · intro u c' hc' htarget _
      exact (h.alone u t c' c hc' hc htarget).symm
    · exact .inl
  have hok := hregistered.calls t c hc
  have hself : (s.setProc c.target { s.procs c.target with waiterThreadId := t }).procs c.target =
      { s.procs c.target with waiterThreadId := t } := update_self ..
  apply hregistered.setPhase hc
  refine ⟨hok.alive, hok.caller, hok.visible, hok.parent, hok.wanted, trivial, fun _ => by rw [hself],
    ?_, WaitPhase.noConfusion⟩
  rintro (hne | hexited')
  · exact absurd rfl hne
  · rw [hself] at hexited'
    exact absurd hexited' hexited

theorem ReapOk.enter (hphase : c.phase = .chosen) : ReapOk (s.enter t c) := by
  have hok := h.calls t c hc
  have hawake := hok.awake (.inl (by rw [hphase]; exact WaitPhase.noConfusion))
  rw [Processes.enter]
  split
  · rename_i hready
    exact h.register hc (by rw [hready]; exact ProcState.noConfusion)
  · rename_i hrunning
    exact h.register hc (by rw [hrunning]; exact ProcState.noConfusion)
  · rename_i hstopped
    exact absurd hstopped (h.target_calm hc)
  · rename_i hexited
    exact h.setPhase hc ⟨hok.alive, hok.caller, hok.visible, hok.parent, hok.wanted,
      hexited, (·.elim WaitPhase.noConfusion WaitPhase.noConfusion), fun _ => hawake,
      WaitPhase.noConfusion⟩
  · exact h.drop t
  · exact h.drop t
  · exact h.drop t

theorem ReapOk.check (hphase : c.phase = .asleep)
    (hrunning : (s.sched.threads t).state = .running) : ReapOk (s.check t c) := by
  have hok := h.calls t c hc
  have hawake : (s.sched.threads t).state ≠ .blocked := by
    rw [hrunning]
    exact ThreadState.noConfusion
  rw [Processes.check]
  split
  · rename_i hended
    exact h.setPhase hc ⟨hok.alive, hok.caller, hok.visible, hok.parent, hok.wanted,
      ProcState.exited_of_ended (h.target_calm hc) hended, (·.elim WaitPhase.noConfusion WaitPhase.noConfusion),
      fun _ => hawake, WaitPhase.noConfusion⟩
  · rename_i hended
    refine h.setPhase hc ⟨hok.alive, hok.caller, hok.visible, hok.parent, hok.wanted,
      trivial, fun _ => hok.registered (.inl hphase), fun _ => hawake, fun _ hexited => ?_⟩
    rw [hexited] at hended
    exact absurd rfl hended

theorem ReapOk.block (hphase : c.phase = .nodding)
    (hrunning : (s.sched.threads t).state = .running) : ReapOk (s.block t c) := by
  have hok := h.calls t c hc
  have hawake := hok.awake (.inl (by rw [hphase]; exact WaitPhase.noConfusion))
  have hasleep : ReapOk (s.setCall t (some { c with phase := .asleep })) :=
    h.setPhase hc ⟨hok.alive, hok.caller, hok.visible, hok.parent, hok.wanted, trivial,
      fun _ => hok.registered (.inr hphase), fun _ => hawake, WaitPhase.noConfusion⟩
  rw [Processes.block, Thread.block, if_neg fun hne => hne hrunning]
  apply hasleep.setThread
  · intro hunused
    have hunused : (s.sched.threads t).state = .unused := hunused
    rw [hrunning] at hunused
    cases hunused
  · intro c' hc'
    have hc' : update s.calls t _ t = some c' := hc'
    rw [update_self] at hc'
    cases hc'
    refine ⟨?_, hok.caller, hok.visible, hok.parent, hok.wanted, trivial,
      fun _ => hok.registered (.inr hphase), ?_, WaitPhase.noConfusion⟩
    · split
      · exact .inr (.inl hrunning)
      · exact .inr (.inr rfl)
    · rintro (hne | hexited)
      · exact absurd rfl hne
      -- An exit has left a wake behind.
      · rw [if_pos (hok.pending hphase hexited)]
        exact hawake

theorem ReapOk.read (hphase : c.phase = .resumed) : ReapOk (s.setCall t
      (some { c with phase := .answered (s.procs c.target).exitStatus })) := by
  have hok := h.calls t c hc
  have hexited := hok.phase
  rw [hphase] at hexited
  exact h.setPhase hc ⟨hok.alive, hok.caller, hok.visible, hok.parent, hok.wanted, ⟨hexited, rfl⟩,
    (·.elim WaitPhase.noConfusion WaitPhase.noConfusion),
    fun _ => hok.awake (.inr hexited), WaitPhase.noConfusion⟩

theorem ReapOk.finish (hphase : c.phase = .answered status) : ReapOk (s.finish t c status) := by
  have hok := h.calls t c hc
  have hanswered := hok.phase
  rw [hphase] at hanswered
  obtain ⟨hexited, rfl⟩ := hanswered
  rw [Processes.finish]
  rw [if_neg (h.target_calm hc), if_pos hexited]
  exact h.setPhase hc ⟨hok.alive, hok.caller, hok.visible, hok.parent, hok.wanted,
    ⟨hexited, rfl, rfl⟩, (·.elim WaitPhase.noConfusion WaitPhase.noConfusion),
    fun _ => hok.awake (.inr hexited), WaitPhase.noConfusion⟩

theorem ReapOk.reap (hphase : c.phase = .reaping pid word) : ReapOk (s.reap t c pid word) := by
  have hok := h.calls t c hc
  have hreaping := hok.phase
  rw [hphase] at hreaping
  obtain ⟨hexited, rfl, rfl⟩ := hreaping
  have hoccupied : (s.procs c.target).state.occupied := by
    rw [hexited]
    rfl
  have hnone := h.unreported c.target hoccupied
  rw [Processes.reap]
  rw [if_pos hexited]
  apply (h.drop t).vacate (i := c.target) rfl hoccupied
  · rintro u c' hc' htarget
    have hc' : update s.calls t none u = some c' := hc'
    by_cases hu : u = t
    · subst hu
      rw [update_self] at hc'
      cases hc'
    rw [update_of_ne hu] at hc'
    exact hu (h.alone u t c' c hc' hc htarget)
  · intro pid hpid
    apply countP_cons_of_neg
    exact fun heq => hpid (of_decide_eq_true heq).symm
  · intro _
    show List.countP _ (s.report c _ _ :: s.reports) = 1
    rw [countP_cons_of_pos]
    · exact congrArg (· + 1) hnone
    · exact decide_eq_true rfl
  · rintro r hr
    rcases mem_cons.mp hr with rfl | hr
    · exact ⟨h.zombies c.target hexited, hok.parent, hok.wanted⟩
    · exact ⟨(h.reports r hr).exited, (h.reports r hr).parent, (h.reports r hr).wanted⟩

theorem ReapOk.proceed (hrunning : (s.sched.threads t).state = .running) :
    ReapOk (s.proceed t c) := by
  rw [Processes.proceed]
  split
  · rename_i hphase
    exact h.enter hc hphase
  · rename_i hphase
    exact h.check hc hphase hrunning
  · rename_i hphase
    exact h.block hc hphase hrunning
  · rename_i hphase
    exact h.read hc hphase
  · rename_i hphase
    exact h.finish hc hphase
  · rename_i hphase
    exact h.reap hc hphase

end

end

/-! ### All steps -/

theorem ReapOk.move (h : ReapOk s) (t : Nat) (m : Move) : ReapOk (s.move t m) := by
  have hmoved : (∀ c, s.calls t = some c → m ≠ .block ∧ m ≠ .exit) →
      ReapOk { s with sched := s.sched.setThread t ((s.sched.threads t).move m) } := by
    intro hm
    apply h.setThread fun hunused => Thread.move_unused hunused m
    intro c hc
    exact (h.calls t c hc).move (hm c hc).1 (hm c hc).2
  unfold Processes.move
  dsimp only
  split
  · exact h
  · rename_i c hc
    split
    · have hdropped := h.drop t
      apply hdropped.setThread fun hunused => Thread.move_unused hunused _
      intro c' hc'
      have hc' : update s.calls t none t = some c' := hc'
      rw [update_self] at hc'
      cases hc'
    · exact h
  · rename_i hblock hexit
    apply hmoved
    intro c hc
    exact ⟨fun hm => hblock c hm hc, fun hm => hexit c hm hc⟩

theorem ReapOk.step (h : ReapOk s) {op : ReapOp} (horderly : s.Orderly op) :
    ReapOk (s.step op) := by
  cases op with
  | reserve parent =>
    rcases parent with _ | i
    · exact h.reserve 0 false
    rw [Processes.step]
    split
    · exact h.reserve _ _
    · exact h
  | publish i thread | start i =>
    rw [Processes.step]
    split
    · rename_i hstate
      apply h.amend
      · constructor <;> simp_all [ProcState.occupied, ProcState.visible]
      · rfl
      · exact ProcState.noConfusion
    · exact h
  | release i =>
    rw [Processes.step]
    split
    · rename_i hstate
      apply h.vacate rfl (by rw [hstate]; rfl)
      · rintro u c hc rfl
        have hvisible := (h.calls u c hc).visible
        rw [hstate] at hvisible
        cases hvisible
      · exact fun pid _ => rfl
      · intro hexited
        rw [hstate] at hexited
        cases hexited
      · exact h.reports
    · exact h
  | record i signal =>
    rw [Processes.step]
    split
    · apply h.amend
      · exact ⟨rfl, rfl, Iff.rfl, rfl, id, fun hexited => absurd hexited horderly⟩
      · rfl
      · exact .inl
    · exact h
  | exit i status =>
    rw [Processes.step]
    split
    · rename_i hlive
      exact h.markExited status hlive horderly
    · exact h
  | stop i signal =>
    rw [Processes.step, Processes.stop]
    split
    · rename_i hlive
      obtain ⟨hvisible, hexited⟩ := ProcState.visible_of_live hlive
      have hoccupied := ProcState.occupied_of_visible hvisible
      apply ReapOk.wake
      apply h.amend
      · exact ⟨rfl, rfl, iff_of_false ProcState.noConfusion hexited, hoccupied.symm, fun _ => rfl,
          fun h => absurd h hexited⟩
      · rfl
      · exact fun _ => .inr (horderly hlive)
    · exact h
  | resume i =>
    rw [Processes.step, Processes.resume]
    split
    · rename_i hstopped
      apply ReapOk.wake
      apply h.amend
      · constructor <;> simp_all [ProcState.occupied, ProcState.visible]
      · rfl
      · exact ProcState.noConfusion
    · exact h
  | setReaper i => exact h.setReaper horderly
  | signals i pending ignored =>
    apply h.amend
    · exact ⟨rfl, rfl, Iff.rfl, rfl, id, fun _ => ⟨rfl, rfl⟩⟩
    · rfl
    · exact .inl
  | wait t i wanted options =>
    rw [Processes.step]
    split
    · rename_i hready
      exact h.waitpid hready.1 hready.2.2 horderly
    · exact h
  | proceed t =>
    rw [Processes.step]
    split
    · rename_i c hc
      split
      · rename_i hrunning
        exact h.proceed hc hrunning
      · exact h
    · exact h
  | move t m => exact h.move t m
  | create => exact h.create

/-! ### The wait returns -/

def Processes.Returns (s : Processes) (t : Nat) (c : Call) : Prop :=
  ∃ n r, (s.run (List.replicate n (.proceed t))).reports = r :: s.reports ∧
    r.caller = c.caller ∧ r.pid = (s.procs c.target).pid

theorem step_proceed (hc : s.calls t = some c) (hrunning : (s.sched.threads t).state = .running) :
    s.step (.proceed t) = s.proceed t c := by
  rw [step, hc]
  exact if_pos hrunning

theorem Returns.section_first {s' : Processes} (c' : Call) (hc : s.calls t = some c)
    (hrunning : (s.sched.threads t).state = .running) (hproceed : s.proceed t c = s')
    (hprocs : s'.procs = s.procs) (hreports : s'.reports = s.reports)
    (hcaller : c'.caller = c.caller) (htarget : c'.target = c.target) (h : s'.Returns t c') :
    s.Returns t c := by
  obtain ⟨n, r, hr, hrcaller, hrpid⟩ := h
  refine ⟨n + 1, r, ?_, hrcaller.trans hcaller, ?_⟩
  · rw [replicate_succ, Processes.run, Machine.run_cons, step_proceed hc hrunning, hproceed]
    exact hr.trans (by rw [hreports])
  · rw [hrpid, hprocs, htarget]

section

variable (hc : s.calls t = some c)
include hc

section

variable (hrunning : (s.sched.threads t).state = .running)
include hrunning

theorem returns_of_reaping (hphase : c.phase = .reaping pid word)
    (hpid : pid = (s.procs c.target).pid) : s.Returns t c := by
  refine ⟨1, s.report c pid word, ?_, rfl, hpid⟩
  show (s.step (.proceed t)).reports = _
  rw [step_proceed hc hrunning, Processes.proceed, hphase]
  show (s.reap t c pid word).reports = _
  rw [Processes.reap]
  split <;> rfl

theorem returns_of_answered (hphase : c.phase = .answered status)
    (hexited : (s.procs c.target).state = .exited) : s.Returns t c := by
  have hstopped : (s.procs c.target).state ≠ .stopped := by
    rw [hexited]
    exact ProcState.noConfusion
  have hproceed : s.proceed t c = s.setCall t (some { c with
      phase := .reaping (s.procs c.target).pid ((s.procs c.target).word status) }) := by
    rw [Processes.proceed, hphase]
    show s.finish t c status = _
    rw [finish, if_neg hstopped, if_pos hexited]
  exact Returns.section_first { c with phase := .reaping _ _ } hc hrunning hproceed rfl rfl rfl rfl
    (returns_of_reaping (update_self ..) hrunning rfl rfl)

theorem returns_of_resumed (hphase : c.phase = .resumed)
    (hexited : (s.procs c.target).state = .exited) : s.Returns t c := by
  have hproceed : s.proceed t c = s.setCall t
      (some { c with phase := .answered (s.procs c.target).exitStatus }) := by
    rw [Processes.proceed, hphase]
  exact Returns.section_first { c with phase := .answered _ } hc hrunning hproceed rfl rfl rfl rfl
    (returns_of_answered (update_self ..) hrunning rfl hexited)

theorem returns_of_resuming (hexited : (s.procs c.target).state = .exited)
    (hproceed : s.proceed t c = s.setCall t (some { c with phase := .resumed })) : s.Returns t c :=
  Returns.section_first { c with phase := .resumed } hc hrunning hproceed rfl rfl rfl rfl
    (returns_of_resumed (update_self ..) hrunning rfl hexited)

theorem returns_of_asleep (hphase : c.phase = .asleep)
    (hexited : (s.procs c.target).state = .exited) : s.Returns t c := by
  refine returns_of_resuming hc hrunning hexited ?_
  rw [Processes.proceed, hphase]
  rw [check, hexited]
  rfl

theorem returns_of_nodding (hphase : c.phase = .nodding)
    (hexited : (s.procs c.target).state = .exited)
    (hpending : (s.sched.threads t).wakePending) : s.Returns t c := by
  have hblock : (s.sched.threads t).block.1 = { s.sched.threads t with wakePending := false } := by
    rw [Thread.block, if_neg fun hne => hne hrunning, if_pos hpending]
  have hproceed : s.proceed t c = s.block t c := by rw [Processes.proceed, hphase]
  refine Returns.section_first { c with phase := .asleep } hc hrunning hproceed rfl rfl rfl rfl
    (returns_of_asleep (update_self ..) ?_ rfl hexited)
  show ((s.sched.setThread t (s.sched.threads t).block.1).threads t).state = .running
  rw [Scheduler.setThread_self, hblock]
  exact hrunning

end

end

theorem ReapOk.returns (h : ReapOk s) (hc : s.calls t = some c)
    (hrunning : (s.sched.threads t).state = .running)
    (hexited : (s.procs c.target).state = .exited) : s.Returns t c := by
  have hok := h.calls t c hc
  cases hphase : c.phase with
  | chosen =>
    refine returns_of_resuming hc hrunning hexited ?_
    rw [Processes.proceed, hphase]
    rw [Processes.enter, hexited]
  | asleep => exact returns_of_asleep hc hrunning hphase hexited
  | nodding => exact returns_of_nodding hc hrunning hphase hexited (hok.pending hphase hexited)
  | resumed => exact returns_of_resumed hc hrunning hphase hexited
  | answered status => exact returns_of_answered hc hrunning hphase hexited
  | reaping pid word =>
    have hreaping := hok.phase
    rw [hphase] at hreaping
    exact returns_of_reaping hc hrunning hphase hreaping.2.1

end Steps

/-- In every state of an orderly run:

* a wait for any child whose caller has an exited child has chosen an exited child, does not sleep,
  and returns the child when the thread runs; a call made now by a process without stopped children
  chooses an exited child at once;
* a process that has exited is in the table and has not been returned, or has been returned once;
* what was returned is the status of an exit, to the parent of the process, and a wait for one pid
  returned that pid. -/
theorem child_reaping (ops : List ReapOp) (horderly : Machine.Guarded step Orderly boot ops)
    (s : Processes) (hs : s = boot.run ops) :
    (∀ t c j, s.calls t = some c → anyChild c.wanted = true → s.ExitedChild c.caller j →
      s.ExitedChild c.caller c.target ∧ (s.sched.threads t).state ≠ .blocked ∧
        ((s.sched.threads t).state = .running → s.Returns t c)) ∧
    (∀ t i wanted options j, (s.sched.threads t).state = .running → s.calls t = none →
      (s.procs i).state = .running → anyChild wanted = true → s.ExitedChild (s.procs i).pid j →
      ¬ s.StoppedChild (s.procs i).pid → ∃ k, s.ExitedChild (s.procs i).pid k ∧ (s.step (.wait t i wanted options)).calls t =
        some ⟨(s.procs i).pid, wanted, k, .chosen⟩) ∧
    (∀ pid word, (pid, word) ∈ s.exits →
      s.Zombie pid ∧ s.reported pid = 0 ∨ ¬ s.Zombie pid ∧ s.reported pid = 1) ∧
    ∀ r ∈ s.reports, (r.pid, r.word) ∈ s.exits ∧ r.parent = r.caller ∧
      (anyChild r.wanted = false → r.pid = r.wanted) := by
  have hok : ReapOk s := hs ▸ horderly.invariant ReapOk (fun _ _ h hop => h.step hop) boot_ok
  refine ⟨?_, ?_, ?_, ?_⟩
  · intro t c j hc hany hj
    have hexited := hok.served t c hc hany j hj.1 hj.2
    have hcall := hok.calls t c hc
    exact ⟨⟨hexited, hcall.parent⟩, hcall.awake (.inr hexited),
      fun hrunning => hok.returns hc hrunning hexited⟩
  · intro t i wanted options j hrunning hnone hproc hany hj hcalm
    obtain ⟨k, hfind, hk⟩ := hok.finds_exited hcalm hany hj
    refine ⟨k, hk, ?_⟩
    have hended : (s.procs k).state.ended := by
      rw [hk.1]
      rfl
    rw [step, if_pos ⟨hrunning, hnone, hproc⟩, waitpid, hfind]
    dsimp only
    rw [if_neg fun hhang => hhang.2 hended]
    exact update_self ..
  · intro pid word hmem
    have hzombie : s.Zombie pid → s.reported pid = 0 := by
      rintro ⟨i, hexited, rfl⟩
      exact hok.unreported i (by rw [hexited]; rfl)
    rcases hok.settled pid word hmem with hz | hone
    · exact .inl ⟨hz, hzombie hz⟩
    refine .inr ⟨fun hz => ?_, hone⟩
    rw [hzombie hz] at hone
    cases hone
  · intro r hr
    have hreport := hok.reports r hr
    refine ⟨hreport.exited, hreport.parent, fun hone => hreport.wanted.resolve_left ?_⟩
    rw [hone]
    exact Bool.false_ne_true

def reapOne : List ReapOp :=
  [.reserve none, .publish 0 1, .start 0, .reserve (some 0), .publish 1 0, .exit 1 7,
    .wait 1 0 (2 ^ 32 - 1) 0, .proceed 1, .proceed 1, .proceed 1, .proceed 1]

theorem child_reaping_one : (boot.run reapOne).reports = [⟨1, 2 ^ 32 - 1, 2, 7 * 256, .exited, 1⟩] ∧
    ¬ (boot.run reapOne).Zombie 2 ∧ (boot.run reapOne).reported 2 = 1 := by
  have hcalm : ¬ (boot.run (reapOne.take 6)).StoppedChild 1 := by
    rintro ⟨j, hj, -⟩
    rcases j with _ | _ | j <;> cases hj
  have horderly : Machine.Guarded step Orderly boot reapOne :=
    ⟨trivial, trivial, trivial, trivial, trivial,
      ⟨fun _ _ h => (nomatch h), fun _ _ h => (nomatch h), fun _ _ _ _ _ _ h => (nomatch h),
        fun _ _ _ _ _ _ h => (nomatch h)⟩,
      ⟨hcalm, fun _ _ h => (nomatch h)⟩, trivial, trivial, trivial, trivial, trivial⟩
  have hreports : (boot.run reapOne).reports = [⟨1, 2 ^ 32 - 1, 2, 7 * 256, .exited, 1⟩] := by
    decide
  have honce := (child_reaping reapOne horderly _ rfl).2.2.1 2 1792 (by decide)
  refine ⟨hreports, honce.resolve_left ?_⟩
  rintro ⟨-, hzero⟩
  rw [reported, hreports] at hzero
  cases hzero

def reapSecond : List ReapOp :=
  [.reserve none, .publish 0 1, .start 0, .reserve (some 0), .publish 1 0, .reserve (some 0),
    .publish 2 0, .wait 1 0 (2 ^ 32 - 1) 0, .proceed 1, .proceed 1, .proceed 1, .exit 2 0,
    .move 1 .dispatch, .proceed 1, .proceed 1]

/-- The parent has chosen its first child and goes back to sleep on it. -/
theorem wait_sleeps_on_running_child :
    (boot.run reapSecond).calls 1 = some ⟨1, 2 ^ 32 - 1, 1, .asleep⟩ ∧
      anyChild (2 ^ 32 - 1) = true ∧ (boot.run reapSecond).ExitedChild 1 2 ∧
      ((boot.run reapSecond).procs 1).state = .ready ∧
      ((boot.run reapSecond).sched.threads 1).state = .blocked := by
  refine ⟨?_, ?_, ⟨?_, ?_⟩, ?_, ?_⟩
  all_goals decide

end XsCore.Process
