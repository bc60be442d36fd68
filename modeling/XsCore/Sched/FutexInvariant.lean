import XsCore.Sched.FutexWaits

/-! # The invariant of the futex code

A live thread in a wait has exactly one entry in the table, for the futex it waits on, and the entry
is pending or the thread is on its way out of `xscore_thread_block`.  Results that wakes have counted
are in the table until they are collected.
-/

namespace XsCore.Sched

open Futex Function List

variable {thread : Thread} {es ws : List Waiter} {phase : Phase} {key : Key}

/-! ### The invariant -/

/-- Where a live thread is in its wait agrees with its entries and with its control block. -/
def PhaseOk (thread : Thread) (es : List Waiter) : Phase → Prop
  | .outside => es = []
  | .registered key => thread.state ≠ .blocked ∧
      ∃ w, es = [w] ∧ w.key = key ∧ (w.result = .pending ∨ thread.wakePending = true)
  | .asleep key => ∃ w, es = [w] ∧ w.key = key ∧ (w.result = .pending ∨ thread.state ≠ .blocked)
  | .resumed key => thread.state ≠ .blocked ∧ ∃ w, es = [w] ∧ w.key = key

def Event.zeroWait : Event → Bool
  | .wait _ none => true
  | _ => false

def Event.wakeCount : Event → Nat
  | .wake _ woken => woken
  | _ => 0

def Futex.zeroWaits (s : Futex) : Nat := s.history.countP Event.zeroWait

def Futex.wakeTotal (s : Futex) : Nat := (s.history.map Event.wakeCount).sum

structure FutexOk (s : Futex) : Prop where
  phases : ∀ t, (s.sched.threads t).Alive →
    PhaseOk (s.sched.threads t) (entries s.waiters t) (s.phases t)
  numbered : s.sched.Numbered
  owners : ∀ w ∈ s.waiters, w.used = true → w.threadId < s.sched.nextThreadId
  size : s.waiters.length = futexWaiters
  account : uncollected s.waiters + s.zeroWaits ≤ s.wakeTotal

section Invariant

variable {s s' : Futex} {t : Nat}

theorem FutexOk.zero_gone (h : FutexOk s) : ¬ (s.sched.threads 0).Alive :=
  fun halive => h.numbered.nonzero halive rfl

theorem FutexOk.entry (h : FutexOk s) (halive : (s.sched.threads t).Alive)
    (hphase : s.phases t ≠ .outside) : ∃ w, entries s.waiters t = [w] ∧
      (w.result ≠ .pending → (s.sched.threads t).state ≠ .blocked) := by
  have hok := h.phases t halive
  generalize s.phases t = phase at hphase hok
  cases phase with
  | outside => exact absurd rfl hphase
  | registered key =>
    obtain ⟨hawake, w, hone, -, -⟩ := hok
    exact ⟨w, hone, fun _ => hawake⟩
  | asleep key =>
    obtain ⟨w, hone, -, hor⟩ := hok
    exact ⟨w, hone, fun hresult => hor.resolve_left hresult⟩
  | resumed key =>
    obtain ⟨hawake, w, hone, -⟩ := hok
    exact ⟨w, hone, fun _ => hawake⟩

theorem boot_ok (frequency : Nat) : FutexOk (boot frequency) where
  phases t _ := by
    show entries (List.replicate futexWaiters {}) t = []
    rw [entries, filter_replicate]
    rfl
  numbered := Scheduler.boot_numbered
  owners w hw hused := by
    rw [eq_of_mem_replicate hw] at hused
    cases hused
  size := length_replicate
  account := by
    show uncollected (List.replicate futexWaiters {}) + 0 ≤ 0
    rw [uncollected, countP_replicate]
    rfl

theorem PhaseOk.touched {thread' : Thread} {es' : List Waiter}
    (hrises : thread.Rises thread') (hes : List.Forall₂ (Touched thread thread') es es')
    (h : PhaseOk thread es phase) : PhaseOk thread' es' phase := by
  have hone : ∀ {w}, es = [w] → ∃ w', es' = [w'] ∧ Touched thread thread' w w' := by
    rintro w rfl
    cases hes with
    | cons hw hnil =>
      cases hnil
      exact ⟨_, rfl, hw⟩
  have hkey : ∀ {w w'}, Touched thread thread' w w' → w'.key = w.key := by
    rintro w w' (rfl | ⟨-, -, hkey, -⟩)
    · rfl
    · exact hkey
  cases phase with
  | outside =>
    subst h
    exact forall₂_nil_left_iff.mp hes
  | registered key =>
    obtain ⟨hawake, w, hw, rfl, hor⟩ := h
    obtain ⟨w', hw', htouched⟩ := hone hw
    refine ⟨hrises.awake hawake ▸ hawake, w', hw', hkey htouched, ?_⟩
    rcases htouched with rfl | ⟨-, hroused, -, -⟩
    · exact hor.imp_right hrises.pending
    · exact .inr (hroused.2 hawake)
  | asleep key =>
    obtain ⟨w, hw, rfl, hor⟩ := h
    obtain ⟨w', hw', htouched⟩ := hone hw
    refine ⟨w', hw', hkey htouched, ?_⟩
    rcases htouched with rfl | ⟨-, hroused, -, -⟩
    · exact hor.imp_right fun hawake => hrises.awake hawake ▸ hawake
    · exact .inr hroused.1
  | resumed key =>
    obtain ⟨hawake, w, hw, rfl⟩ := h
    obtain ⟨w', hw', htouched⟩ := hone hw
    exact ⟨hrises.awake hawake ▸ hawake, w', hw', hkey htouched⟩

theorem FutexOk.serves {sched : Scheduler} {history : List Event}
    (h : FutexOk s) (hserves : Serves s.sched s.waiters sched ws)
    (haccount : uncollected ws + history.countP Event.zeroWait ≤ (history.map Event.wakeCount).sum) :
    FutexOk { s with sched := sched, waiters := ws, history := history } where
  phases t halive := by
    have halive' := (hserves.rises.threads t).alive.mp halive
    exact (h.phases t halive').touched (hserves.rises.threads t) (hserves.keeps halive')
  numbered := h.numbered.rises hserves.rises
  owners w hw hused := by
    obtain ⟨v, hv, hvused, hthread⟩ := hserves.owners hw hused
    rw [hserves.rises.next, ← hthread]
    exact h.owners v hv hvused
  size := hserves.length.trans h.size
  account := haccount

theorem FutexOk.fails (h : FutexOk s) (e : Event) (hzero : e.zeroWait = false) :
    FutexOk (s.answer e) where
  phases := h.phases
  numbered := h.numbered
  owners := h.owners
  size := h.size
  account := by
    have haccount := h.account
    rw [zeroWaits, wakeTotal] at haccount
    show uncollected s.waiters + (e :: s.history).countP Event.zeroWait ≤
      ((e :: s.history).map Event.wakeCount).sum
    rw [countP_cons_of_neg (by rw [hzero]; exact Bool.false_ne_true), map_cons, sum_cons]
    omega

theorem FutexOk.setThread (h : FutexOk s) (t : Nat) (phase : Phase)
    (hunused : (s.sched.threads t).state = .unused → thread.state = .unused)
    (hphase : thread.Alive → PhaseOk thread (entries s.waiters t) phase) :
    FutexOk ({ s with sched := s.sched.setThread t thread }.setPhase t phase) where
  phases u halive := by
    dsimp only [setPhase] at halive ⊢
    by_cases hu : u = t
    · subst hu
      rw [Scheduler.setThread_self] at halive ⊢
      rw [update_self]
      exact hphase halive
    · rw [Scheduler.setThread_of_ne hu] at halive ⊢
      rw [update_of_ne hu]
      exact h.phases u halive
  numbered := h.numbered.setThread hunused
  owners := h.owners
  size := h.size
  account := h.account

/-! ### Every step keeps it -/

theorem PhaseOk.move {m : Move} (h : PhaseOk thread es phase) (hpermits : permits phase thread m)
    (hdispatch : m = .dispatch → ∀ key, phase = .asleep key → thread.state ≠ .ready)
    (halive : (thread.move m).Alive) : PhaseOk (thread.move m) es phase := by
  obtain ⟨state, pending, exit⟩ := thread
  cases phase with
  | outside => exact h
  | registered key | asleep key | resumed key =>
    cases m <;> cases state <;>
      simp_all [permits, PhaseOk, Thread.move, Thread.wake, Thread.requestExit, Thread.Alive]
    all_goals exact h.imp fun _ hw => ⟨hw.1, hw.2.1⟩

section

variable (h : FutexOk s)
include h

theorem FutexOk.move (t : Nat) (m : Move) : FutexOk (s.move t m) := by
  rw [Futex.move]
  split
  · rename_i hpermits
    have hkeep : (m = .dispatch → ∀ key, s.phases t = .asleep key →
        (s.sched.threads t).state ≠ .ready) →
        FutexOk { s with sched := s.sched.setThread t ((s.sched.threads t).move m) } := by
      intro hdispatch
      have hok := h.setThread t (s.phases t)
        (fun hunused => Thread.move_unused hunused m) fun halive =>
          (h.phases t (Thread.alive_of_move halive)).move hpermits hdispatch halive
      rwa [setPhase, update_eq_self] at hok
    split
    · rename_i key hphase
      split
      · rename_i hready
        apply h.setThread t _ (fun hunused => Thread.move_unused hunused _)
        intro halive
        have hok := h.phases t (Thread.alive_of_move halive)
        rw [hphase] at hok
        obtain ⟨w, hw, hkey, -⟩ := hok
        refine ⟨?_, w, hw, hkey⟩
        rw [Thread.move, if_pos hready]
        exact ThreadState.noConfusion
      · rename_i hready
        exact hkeep fun _ _ _ => hready
    · rename_i hother
      exact hkeep fun hm key hphase => absurd hphase (hother key hm)
  · exact h

theorem FutexOk.block (hphase : s.phases t = .registered key)
    (hrunning : (s.sched.threads t).state = .running) : FutexOk (s.block t key) := by
  rw [Futex.block]
  have halive : (s.sched.threads t).Alive := .inr (.inl hrunning)
  have hok := h.phases t halive
  rw [hphase] at hok
  obtain ⟨-, w, hw, hkey, hor⟩ := hok
  rw [Thread.block, if_neg fun hne => hne hrunning]
  split_ifs with hpending
  · apply h.setThread t
    · intro hunused
      rw [hrunning] at hunused
      cases hunused
    · intro _
      refine ⟨?_, w, hw, hkey⟩
      rw [hrunning]
      exact ThreadState.noConfusion
  · apply h.setThread t
    · intro hunused
      rw [hrunning] at hunused
      cases hunused
    · intro _
      exact ⟨w, hw, hkey, .inl (hor.resolve_right hpending)⟩

theorem FutexOk.collect (hphase : s.phases t = .resumed key)
    (hrunning : (s.sched.threads t).state = .running) : FutexOk (s.collect t key) := by
  have halive : (s.sched.threads t).Alive := .inr (.inl hrunning)
  obtain ⟨w, hone, -⟩ := h.entry halive (by rw [hphase]; exact Phase.noConfusion)
  have hsome : entries s.waiters t ≠ [] := by
    rw [hone]
    exact cons_ne_nil _ _
  have huncollected := takeResult_uncollected hsome key
  have hother := fun u (hu : t ≠ u) => takeResult_entries_other hsome key hu
  have hempty := (takeResult_one hone key).2
  have hsplit := takeResult_split hsome key
  rw [Futex.collect]
  generalize takeResult t key s.waiters = out at *
  obtain ⟨result, ws⟩ := out
  dsimp only at *
  constructor
  · intro u hu
    show PhaseOk (s.sched.threads u) (entries ws u) (update s.phases t .outside u)
    by_cases heq : u = t
    · subst heq
      rw [update_self]
      exact hempty
    · rw [update_of_ne heq, hother u (Ne.symm heq)]
      exact h.phases u hu
  · exact h.numbered
  · intro v hv hused
    obtain ⟨before, free, after, hws, -, -, -, heq⟩ := hsplit
    cases heq
    apply h.owners v _ hused
    rw [hws]
    rcases mem_append.mp hv with hv | hv
    · exact mem_append_left _ hv
    rcases mem_cons.mp hv with rfl | hv
    · cases hused
    · exact mem_append_right _ (mem_cons_of_mem _ hv)
  · obtain ⟨before, free, after, hws, -, -, -, heq⟩ := hsplit
    cases heq
    have hsize := h.size
    rw [hws, length_append, length_cons] at hsize
    show (before ++ _ :: after).length = futexWaiters
    rw [length_append, length_cons, hsize]
  · have haccount := h.account
    rw [zeroWaits, wakeTotal] at haccount
    cases result with
    | woken =>
      show uncollected ws + (Event.wait t none :: s.history).countP Event.zeroWait ≤
        ((Event.wait t none :: s.history).map Event.wakeCount).sum
      rw [countP_cons_of_pos rfl, map_cons, sum_cons]
      rw [if_pos rfl] at huncollected
      omega
    | timedOut | pending =>
      change uncollected ws + (_ :: s.history).countP Event.zeroWait ≤
        ((_ :: s.history).map Event.wakeCount).sum
      rw [countP_cons_of_neg Bool.false_ne_true, map_cons, sum_cons]
      omega

theorem FutexOk.gone_of_unused {id : Nat} (hunused : s.sched.threadState id = .unused) :
    ¬ (s.sched.threads id).Alive := by
  rw [Scheduler.threadState] at hunused
  split at hunused
  · rename_i hid
    subst hid
    exact h.zero_gone
  · exact Thread.not_alive_of_unused hunused

theorem FutexOk.sweep (t : Nat) :
    FutexOk { s with waiters := (Sched.sweep s.sched t s.waiters).1 } := by
  apply h.serves (sweep_serves (fun _ => h.gone_of_unused) t s.waiters)
  have hle := sweep_uncollected s.sched t s.waiters
  have haccount := h.account
  rw [zeroWaits, wakeTotal] at haccount
  omega

theorem FutexOk.place {e : Waiter} (hcan : s.CanCall e.threadId)
    (hplace : Sched.place e s.waiters = some ws) (hused : e.used) (hpending : e.result = .pending) :
    FutexOk ({ s with waiters := ws }.setPhase e.threadId (.registered e.key)) := by
  have halive : (s.sched.threads e.threadId).Alive := .inr (.inl hcan.1)
  have hnil := h.phases e.threadId halive
  rw [hcan.2] at hnil
  constructor
  · intro u hu
    show PhaseOk (s.sched.threads u) (entries ws u) (update s.phases _ _ u)
    by_cases heq : u = e.threadId
    · subst heq
      rw [update_self]
      refine ⟨?_, e, place_entries_self hplace hused hnil, rfl, .inl hpending⟩
      rw [hcan.1]
      exact ThreadState.noConfusion
    · rw [update_of_ne heq, place_entries_other hplace (Ne.symm heq)]
      exact h.phases u hu
  · exact h.numbered
  · intro v hv hvused
    obtain ⟨before, free, after, hws, -, rfl⟩ := place_split hplace
    have howners := h.owners
    rw [hws] at howners
    rcases mem_append.mp hv with hv | hv
    · exact howners v (mem_append_left _ hv) hvused
    rcases mem_cons.mp hv with rfl | hv
    · exact h.numbered.created halive
    · exact howners v (mem_append_right _ (mem_cons_of_mem _ hv)) hvused
  · obtain ⟨before, free, after, hws, -, rfl⟩ := place_split hplace
    have hsize := h.size
    rw [hws, length_append, length_cons] at hsize
    show (before ++ e :: after).length = futexWaiters
    rw [length_append, length_cons, hsize]
  · have haccount := h.account
    rw [← place_uncollected hplace hpending] at haccount
    exact haccount

theorem FutexOk.register (hcan : s.CanCall t) (request : WaitRequest) (word : Nat) :
    FutexOk (s.register t request word) := by
  rw [Futex.register]
  have hswept := h.sweep t
  split_ifs
  · exact h.fails _ rfl
  · exact h.fails _ rfl
  split
  · rename_i ws heq
    rw [heq] at hswept
    exact hswept.fails _ rfl
  rename_i ws heq
  rw [heq] at hswept
  split
  · exact hswept.fails _ rfl
  · rename_i ws' hplace
    exact hswept.place (e := ⟨request.key, t, _, .pending, _, true⟩) hcan hplace rfl rfl

theorem FutexOk.wakeAll (t : Nat) (key : Key) (value : Nat) : FutexOk (s.wakeAll t key value) := by
  rw [Futex.wakeAll]
  split
  · exact h.fails _ rfl
  have hserves := wakeWaiters_serves key (min value futexWaiters) s.waiters h.zero_gone
  have huncollected := (wakeWaiters_wakes key (min value futexWaiters) s.sched s.waiters).uncollects
  generalize wakeWaiters key (min value futexWaiters) s.sched s.waiters = out
    at hserves huncollected ⊢
  obtain ⟨sched, ws, woken⟩ := out
  apply h.serves hserves
  have haccount := h.account
  rw [zeroWaits, wakeTotal] at haccount
  rw [countP_cons_of_neg Bool.false_ne_true, map_cons, sum_cons, huncollected]
  simp only [Event.wakeCount]
  omega

theorem FutexOk.timerTick : FutexOk s.timerTick := by
  rw [Futex.timerTick]
  apply h.serves (expireWaiters_serves s.ticks s.waiters h.zero_gone)
  have hle := expireWaiters_uncollected s.ticks s.sched s.waiters
  have haccount := h.account
  rw [zeroWaits, wakeTotal] at haccount
  omega

theorem FutexOk.create :
    FutexOk ({ s with sched := s.sched.create }.setPhase s.sched.nextThreadId .outside) where
  phases u hu := by
    show PhaseOk ((s.sched.setThread s.sched.nextThreadId _).threads u) (entries s.waiters u)
      (update s.phases s.sched.nextThreadId .outside u)
    by_cases heq : u = s.sched.nextThreadId
    · subst heq
      rw [update_self]
      apply filter_eq_nil_iff.mpr
      intro w hw hmine
      simp only [Bool.and_eq_true, decide_eq_true_eq] at hmine
      have := h.owners w hw hmine.1
      omega
    · have hu' : ((s.sched.setThread s.sched.nextThreadId { state := .ready }).threads u).Alive := hu
      rw [Scheduler.setThread_of_ne heq] at hu' ⊢
      rw [update_of_ne heq]
      exact h.phases u hu'
  numbered := h.numbered.create
  owners w hw hused := Nat.lt_succ_of_lt (h.owners w hw hused)
  size := h.size
  account := h.account

theorem FutexOk.step (op : FutexOp) : FutexOk (s.step op) := by
  cases op with
  | futex t call =>
    rw [Futex.step]
    split
    · rename_i hcan
      rw [syscallFutex]
      split
      · exact h.fails _ rfl
      · exact h.register hcan _ _
      · exact h.wakeAll t _ _
    · exact h
  | block t =>
    rw [Futex.step]
    split
    · rename_i key hphase
      split
      · rename_i hrunning
        exact h.block hphase hrunning
      · exact h
    · exact h
  | collect t =>
    rw [Futex.step]
    split
    · rename_i key hphase
      split
      · rename_i hrunning
        exact h.collect hphase hrunning
      · exact h
    · exact h
  | advance => exact { h with }
  | timerTick => exact h.timerTick
  | move t m => exact h.move t m
  | create => exact h.create

theorem FutexOk.run (ops : List FutexOp) : FutexOk (s.run ops) :=
  Machine.run_invariant FutexOk (fun _ op hs => hs.step op) h ops

end

end Invariant

end XsCore.Sched
