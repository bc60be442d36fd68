import XsCore.Sched.FutexInvariant

/-! # Waits and wakes balance

A wake that reaches a waiter releases it for good, a wake releases no more threads than it is asked
to, and no wait returns 0 that a wake did not count.
-/

namespace XsCore.Sched

open Futex Function List

/-! ### A released thread stays released -/

section Released

variable {s : Futex} {t : Nat} {r : WaitResult}

structure Holds (s : Futex) (t : Nat) (r : WaitResult) : Prop where
  created : t < s.sched.nextThreadId
  entry : (s.sched.threads t).Alive →
    s.phases t ≠ .outside ∧ ∃ w, entries s.waiters t = [w] ∧ w.result = r

theorem Holds.serves {sched : Scheduler} {ws : List Waiter} {history : List Event}
    (h : Holds s t r) (hr : r ≠ .pending) (hserves : Serves s.sched s.waiters sched ws) :
    Holds { s with sched := sched, waiters := ws, history := history } t r where
  created := hserves.rises.next ▸ h.created
  entry halive := by
    have halive' := (hserves.rises.threads t).alive.mp halive
    obtain ⟨hphase, w, hone, hresult⟩ := h.entry halive'
    obtain ⟨w', hone', htouched⟩ := hserves.keeps_one halive' hone
    refine ⟨hphase, w', hone', ?_⟩
    rcases htouched with rfl | ⟨hpending, -, -, -⟩
    · exact hresult
    · exact absurd (hresult ▸ hpending) hr

section

variable (hok : FutexOk s)
include hok

theorem Holds.register {u : Nat} (h : Holds s t r) (hr : r ≠ .pending) (hcan : s.CanCall u)
    (request : WaitRequest) (word : Nat) : Holds (s.register u request word) t r := by
  have hswept : Holds { s with waiters := (Sched.sweep s.sched u s.waiters).1 } t r :=
    h.serves hr (sweep_serves (fun _ => hok.gone_of_unused) u s.waiters)
  rw [Futex.register]
  split_ifs
  · exact ⟨h.created, h.entry⟩
  · exact ⟨h.created, h.entry⟩
  split
  · rename_i ws heq
    rw [heq] at hswept
    exact ⟨hswept.created, hswept.entry⟩
  rename_i ws heq
  rw [heq] at hswept
  split
  · exact ⟨hswept.created, hswept.entry⟩
  rename_i ws' hplace
  refine ⟨hswept.created, fun halive => ?_⟩
  obtain ⟨hphase, w, hone, hresult⟩ := hswept.entry halive
  -- The caller was in no wait, so it is another thread.
  have hne : t ≠ u := by
    intro heq
    subst heq
    exact hphase hcan.2
  show update s.phases u _ t ≠ _ ∧ ∃ w, entries ws' t = [w] ∧ _
  rw [update_of_ne hne, place_entries_other hplace (Ne.symm hne)]
  exact ⟨hphase, w, hone, hresult⟩

theorem Holds.collect {u : Nat} {key : Key} (h : Holds s t r) (hne : u ≠ t)
    (hphase : s.phases u = .resumed key) (hrunning : (s.sched.threads u).state = .running) :
    Holds (s.collect u key) t r := by
  obtain ⟨w, hone, -⟩ := hok.entry (.inr (.inl hrunning)) (by rw [hphase]; exact Phase.noConfusion)
  have hother := takeResult_entries_other (by rw [hone]; exact cons_ne_nil _ _) key hne
  refine ⟨h.created, fun halive => ?_⟩
  rw [Futex.collect]
  show update s.phases u _ t ≠ _ ∧ ∃ w, entries (takeResult u key s.waiters).2 t = [w] ∧ _
  rw [update_of_ne (Ne.symm hne), hother]
  exact h.entry halive

omit hok in
theorem Holds.setThread (h : Holds s t r) (u : Nat) {thread : Thread} (phase : Phase)
    (halive : thread.Alive → (s.sched.threads u).Alive)
    (hphase : s.phases u ≠ .outside → phase ≠ .outside) :
    Holds ({ s with sched := s.sched.setThread u thread }.setPhase u phase) t r := by
  refine ⟨h.created, fun hlive => ?_⟩
  dsimp only [setPhase] at hlive ⊢
  by_cases hu : t = u
  · subst hu
    rw [Scheduler.setThread_self] at hlive
    rw [update_self]
    obtain ⟨hin, w, hw⟩ := h.entry (halive hlive)
    exact ⟨hphase hin, w, hw⟩
  · rw [Scheduler.setThread_of_ne hu] at hlive
    rw [update_of_ne hu]
    exact h.entry hlive

omit hok in
theorem Holds.move (h : Holds s t r) (u : Nat) (m : Move) : Holds (s.move u m) t r := by
  have hkeep : Holds { s with sched := s.sched.setThread u ((s.sched.threads u).move m) } t r := by
    have hset := h.setThread u (s.phases u) (Thread.alive_of_move (m := m)) id
    rwa [setPhase, update_eq_self] at hset
  rw [Futex.move]
  split
  · split
    · split
      · exact h.setThread u _ Thread.alive_of_move fun _ => Phase.noConfusion
      · exact hkeep
    · exact hkeep
  · exact h

theorem Holds.step (h : Holds s t r) (hr : r ≠ .pending) {op : FutexOp} (hop : op ≠ .collect t) :
    Holds (s.step op) t r := by
  cases op with
  | futex u call =>
    rw [Futex.step]
    split
    · rename_i hcan
      rw [syscallFutex]
      split
      · exact ⟨h.created, h.entry⟩
      · exact h.register hok hr hcan _ _
      rw [Futex.wakeAll]
      split
      · exact ⟨h.created, h.entry⟩
      · exact h.serves hr (wakeWaiters_serves _ _ s.waiters hok.zero_gone)
    · exact h
  | block u =>
    rw [Futex.step]
    split
    · split
      · rename_i hrunning
        rw [Futex.block]
        generalize (s.sched.threads u).block = out
        obtain ⟨thread, sleeps⟩ := out
        apply h.setThread u
        · exact fun _ => .inr (.inl hrunning)
        · intro _
          split <;> exact Phase.noConfusion
      · exact h
    · exact h
  | collect u =>
    rw [Futex.step]
    have hne : u ≠ t := fun heq => hop (heq ▸ rfl)
    split
    · rename_i key hphase
      split
      · rename_i hrunning
        exact h.collect hok hne hphase hrunning
      · exact h
    · exact h
  | advance => exact ⟨h.created, h.entry⟩
  | timerTick => exact h.serves hr (expireWaiters_serves s.ticks s.waiters hok.zero_gone)
  | move u m => exact h.move u m
  | create =>
    have hne : t ≠ s.sched.nextThreadId := Nat.ne_of_lt h.created
    refine ⟨Nat.lt_succ_of_lt h.created, fun halive => ?_⟩
    have halive' : ((s.sched.setThread s.sched.nextThreadId { state := .ready }).threads t).Alive :=
      halive
    rw [Scheduler.setThread_of_ne hne] at halive'
    show update s.phases s.sched.nextThreadId .outside t ≠ _ ∧ _
    rw [update_of_ne hne]
    exact h.entry halive'

theorem Holds.run (h : Holds s t r) (hr : r ≠ .pending) {ops : List FutexOp}
    (hops : .collect t ∉ ops) : Holds (s.run ops) t r := by
  induction ops generalizing s with
  | nil => exact h
  | cons op ops ih =>
    obtain ⟨hop, hops⟩ := ne_and_not_mem_of_not_mem_cons hops
    exact ih (hok.step op) (h.step hok hr (Ne.symm hop)) hops

theorem Holds.awake (h : Holds s t r) (hr : r ≠ .pending) :
    (s.sched.threads t).state ≠ .blocked := by
  intro hblocked
  have halive : (s.sched.threads t).Alive := .inr (.inr hblocked)
  obtain ⟨hphase, w, hone, hresult⟩ := h.entry halive
  obtain ⟨w', hone', hawake⟩ := hok.entry halive hphase
  rw [hone] at hone'
  obtain ⟨rfl, -⟩ := cons.inj hone'
  exact hawake (hresult ▸ hr) hblocked

theorem Holds.returns_zero {key : Key} (h : Holds s t .woken)
    (hphase : s.phases t = .resumed key) (hrunning : (s.sched.threads t).state = .running) :
    (s.step (.collect t)).history = .wait t none :: s.history := by
  have halive : (s.sched.threads t).Alive := .inr (.inl hrunning)
  obtain ⟨-, w, hone, hresult⟩ := h.entry halive
  have hphases := hok.phases t halive
  rw [hphase] at hphases
  obtain ⟨-, w', hone', hkey⟩ := hphases
  rw [hone] at hone'
  obtain ⟨rfl, -⟩ := cons.inj hone'
  have htake := (takeResult_one hone key).1
  rw [if_pos hkey, hresult] at htake
  rw [Futex.step, hphase]
  dsimp only
  rw [if_pos hrunning, Futex.collect]
  generalize takeResult t key s.waiters = out at htake ⊢
  obtain ⟨result, ws⟩ := out
  subst htake
  rfl

end

end Released

/-! ### The calls -/

def Phase.key? : Phase → Option Key
  | .outside => none
  | .registered key | .asleep key | .resumed key => some key

def Futex.WaitsOn (s : Futex) (t : Nat) (key : Key) : Prop :=
  (s.sched.threads t).Alive ∧ (s.phases t).key? = some key

instance (s : Futex) (t : Nat) (key : Key) : Decidable (s.WaitsOn t key) :=
  inferInstanceAs (Decidable (_ ∧ _))

def Futex.Unreleased (s : Futex) (t : Nat) : Prop :=
  ∀ w ∈ entries s.waiters t, w.result = .pending

section Calls

variable {s : Futex} {t u : Nat} {key : Key} {value : Nat}

theorem FutexOk.waitsOn_entry (h : FutexOk s) (hwaits : s.WaitsOn t key) :
    s.phases t ≠ .outside ∧ ∃ w, entries s.waiters t = [w] ∧ w.key = key := by
  obtain ⟨halive, hkey⟩ := hwaits
  have hok := h.phases t halive
  generalize s.phases t = phase at hkey hok ⊢
  cases phase with
  | outside => cases hkey
  | registered k =>
    cases hkey
    obtain ⟨-, w, hone, hkey, -⟩ := hok
    exact ⟨Phase.noConfusion, w, hone, hkey⟩
  | asleep k =>
    cases hkey
    obtain ⟨w, hone, hkey, -⟩ := hok
    exact ⟨Phase.noConfusion, w, hone, hkey⟩
  | resumed k =>
    cases hkey
    obtain ⟨-, w, hone, hkey⟩ := hok
    exact ⟨Phase.noConfusion, w, hone, hkey⟩

theorem FutexOk.wakeAll_holds (h : FutexOk s) (hwaits : s.WaitsOn t key)
    (hahead : ahead t key s.waiters < value) :
    ∃ r, Holds (s.wakeAll u key value) t r ∧ r ≠ .pending ∧ (s.Unreleased t → r = .woken) := by
  obtain ⟨hphase, w, hone, hkey⟩ := h.waitsOn_entry hwaits
  have hsome : entries s.waiters t ≠ [] := by
    rw [hone]
    exact cons_ne_nil _ _
  have hlength := ahead_lt_length key hsome
  rw [h.size] at hlength
  obtain ⟨w', hone', hreleased, hwoken⟩ := wakeWaiters_reaches (min value futexWaiters) s.waiters
    h.zero_gone hwaits.1 hone hkey (lt_min hahead hlength)
  have hserves := wakeWaiters_serves key (min value futexWaiters) s.waiters h.zero_gone
  refine ⟨w'.result, ?_, hreleased, fun hunreleased => hwoken ?_⟩
  · rw [Futex.wakeAll, if_neg (by omega)]
    refine ⟨hserves.rises.next ▸ h.numbered.created hwaits.1, fun _ => ⟨hphase, w', hone', rfl⟩⟩
  · apply hunreleased
    rw [hone]
    exact mem_singleton_self w

theorem wakeAll_spec (s : Futex) (u : Nat) (key : Key) (value : Nat) :
    ∃ woken, (s.wakeAll u key value).history = .wake u woken :: s.history ∧ woken ≤ value ∧
      releases s.waiters (s.wakeAll u key value).waiters = woken ∧
      ∀ p ∈ s.waiters.zip (s.wakeAll u key value).waiters, p.2 = p.1 ∨ p.1.waitsOn key := by
  rw [wakeAll]
  split
  · refine ⟨0, rfl, Nat.zero_le _, releases_self _, fun p hp => .inl ?_⟩
    exact eq_of_mem_zip_self p hp
  · have hwakes := wakeWaiters_wakes key (min value futexWaiters) s.sched s.waiters
    exact ⟨_, rfl, hwakes.le.trans (min_le_left _ _), hwakes.frees, hwakes.spares⟩

/-- A wait registers only while the word holds the expected value; otherwise it returns an error at
once. -/
theorem register_spec (s : Futex) (t : Nat) (request : WaitRequest) (word : Nat) :
    (s.register t request word).phases t = .registered request.key ∧ word = request.expected ∨
      ∃ e, (s.register t request word).history = .wait t (some e) :: s.history := by
  rw [register]
  split
  · exact .inr ⟨_, rfl⟩
  rename_i hword
  split
  · exact .inr ⟨_, rfl⟩
  split
  · exact .inr ⟨_, rfl⟩
  split
  · exact .inr ⟨_, rfl⟩
  · exact .inl ⟨update_self .., not_not.mp hword⟩

end Calls

/-- Over every order of futex sections, timer ticks and moves of the scheduler:

* a wait is registered only while the word holds the expected value;
* no more waits have returned 0 than the wakes have reported;
* a wake releases as many waiters of its futex as it reports, at most as many as it was asked for,
  and touches no other futex;
* once a wake has come as far as a waiter's entry, that waiter never sleeps again in this wait and,
  unless it was released before, returns 0 from it. -/
theorem futex_accounting (frequency : Nat) (ops : List FutexOp) (s : Futex)
    (hs : s = (boot frequency).run ops) :
    (∀ t call request, s.CanCall t → call.decode s.frequency = .ok (.wait request) →
      (s.step (.futex t call)).phases t = .registered request.key ∧
          call.word = request.expected ∨
        ∃ e, (s.step (.futex t call)).history = .wait t (some e) :: s.history) ∧
    s.zeroWaits ≤ s.wakeTotal ∧
    ∀ u call key value, s.CanCall u → call.decode s.frequency = .ok (.wake key value) →
      (∃ woken, (s.step (.futex u call)).history = .wake u woken :: s.history ∧ woken ≤ value ∧
        releases s.waiters (s.step (.futex u call)).waiters = woken ∧
        ∀ p ∈ s.waiters.zip (s.step (.futex u call)).waiters,
          p.2 = p.1 ∨ p.1.waitsOn key = true) ∧
      ∀ t, s.WaitsOn t key → ahead t key s.waiters < value →
        ∀ rest s', s' = (s.step (.futex u call)).run rest → .collect t ∉ rest →
          (s'.sched.threads t).state ≠ .blocked ∧
          (s.Unreleased t → ∀ k, s'.phases t = .resumed k → (s'.sched.threads t).state = .running →
              (s'.step (.collect t)).history = .wait t none :: s'.history) := by
  have hok : FutexOk s := hs ▸ (boot_ok frequency).run ops
  refine ⟨?_, ?_, ?_⟩
  · intro t call request hcan hdecode
    have hstep : s.step (.futex t call) = s.register t request call.word := by
      rw [step, if_pos hcan, syscallFutex, hdecode]
    rw [hstep]
    exact register_spec s t request call.word
  · have haccount := hok.account
    omega
  · intro u call key value hcan hdecode
    have hstep : s.step (.futex u call) = s.wakeAll u key value := by
      rw [step, if_pos hcan, syscallFutex, hdecode]
    rw [hstep]
    refine ⟨wakeAll_spec s u key value, ?_⟩
    rintro t hwaits hahead rest s' rfl hrest
    obtain ⟨r, hholds, hr, hwoken⟩ := hok.wakeAll_holds hwaits hahead (u := u)
    have hok' := hok.wakeAll u key value
    have hlast := hholds.run hok' hr hrest
    refine ⟨hlast.awake (hok'.run rest) hr, fun hunreleased k hphase hrunning => ?_⟩
    rw [hwoken hunreleased] at hlast
    exact hlast.returns_zero (hok'.run rest) hphase hrunning

def pairWait : FutexCall where
  root := some 4096
  address := 8192
  operation := 128
  value := 7
  prepared := true
  timeout := none
  page := some (true, 12288)
  now := 0
  word := 7

def pairWake : FutexCall := { pairWait with operation := 129, value := 1 }

def pairAsleep : Futex :=
  (boot 100).run [.create, .futex 1 pairWait, .block 1, .move 2 .dispatch]

theorem futex_accounting_pair :
    pairAsleep.WaitsOn 1 ⟨4096, 8192⟩ ∧ (pairAsleep.sched.threads 1).state = .blocked ∧
      ((pairAsleep.step (.futex 2 pairWake)).sched.threads 1).state ≠ .blocked :=
  have hwaits : pairAsleep.WaitsOn 1 ⟨4096, 8192⟩ := by decide
  have hwake := (futex_accounting 100 _ pairAsleep rfl).2.2 2 pairWake ⟨4096, 8192⟩ 1 (by decide) rfl
  ⟨hwaits, rfl, (hwake.2 1 hwaits (by decide) [] _ rfl not_mem_nil).1⟩

/-- In every run a wait has one entry in the table, which is not released while its thread sleeps. -/
theorem futex_entries (frequency : Nat) (ops : List FutexOp) :
    FutexOk ((boot frequency).run ops) := (boot_ok frequency).run ops

end XsCore.Sched
