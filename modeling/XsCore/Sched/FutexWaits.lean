import Mathlib.Data.List.Forall2
import XsCore.Sched.Futex

/-! # The table of futex waiters

What the sections of the futex code do to the table.  The loops that wake threads, and the search for
a slot, are instances of one relation, `Serves`, between the table and the control blocks before and
after.
-/

namespace XsCore.Sched

open List

def entries (ws : List Waiter) (t : Nat) : List Waiter :=
  ws.filter fun w => w.used && w.threadId = t

def uncollected (ws : List Waiter) : Nat := ws.countP fun w => w.used && w.result = .woken

theorem entries_cons (w : Waiter) (ws : List Waiter) (t : Nat) : entries (w :: ws) t =
      if w.used ∧ w.threadId = t then w :: entries ws t else entries ws t := by
  simp only [entries, filter_cons, Bool.and_eq_true, decide_eq_true_eq]

theorem uncollected_cons (w : Waiter) (ws : List Waiter) : uncollected (w :: ws) =
      uncollected ws + if w.used ∧ w.result = .woken then 1 else 0 := by
  simp only [uncollected, countP_cons, Bool.and_eq_true, decide_eq_true_eq]

/-! ### What the loops do to the table -/

inductive Served (s s' : Scheduler) : Waiter → Waiter → Prop where
  | kept (w : Waiter) : Served s s' w w
  | released (w : Waiter) (r : WaitResult) (hpending : w.result = .pending) (hr : r ≠ .pending)
      (hroused : (s.threads w.threadId).Roused (s'.threads w.threadId)) :
      Served s s' w { w with result := r }
  | dropped (w : Waiter) (hgone : ¬ (s.threads w.threadId).Alive) :
      Served s s' w { w with used := false }

structure Serves (s : Scheduler) (ws : List Waiter) (s' : Scheduler) (ws' : List Waiter) :
    Prop where
  rises : s.Rises s'
  slots : List.Forall₂ (Served s s') ws ws'

section Serves

variable {s s' s'' : Scheduler} {w w' : Waiter} {ws ws' : List Waiter}

theorem Served.earlier (h : s.Rises s') (hw : Served s' s'' w w') : Served s s'' w w' := by
  cases hw with
  | kept => exact .kept w
  | released r hpending hr hroused =>
    exact .released w r hpending hr ((h.threads _).roused hroused)
  | dropped hgone => exact .dropped w fun halive => hgone ((h.threads _).alive.mpr halive)

theorem Served.later (hw : Served s s' w w') (h : s'.Rises s'') : Served s s'' w w' := by
  cases hw with
  | kept => exact .kept w
  | released r hpending hr hroused =>
    exact .released w r hpending hr (hroused.rises (h.threads _))
  | dropped hgone => exact .dropped w hgone

theorem Serves.cons (hrises : s.Rises s') (hw : Served s s' w w')
    (h : Serves s' ws s'' ws') : Serves s (w :: ws) s'' (w' :: ws') where
  rises := hrises.trans h.rises
  slots := .cons (hw.later h.rises) (h.slots.imp fun _ _ => Served.earlier hrises)

theorem Serves.refl (s : Scheduler) (ws : List Waiter) : Serves s ws s ws :=
  ⟨.refl s, forall₂_same.mpr fun w _ => .kept w⟩

theorem Serves.length (h : Serves s ws s' ws') : ws'.length = ws.length := h.slots.length_eq.symm

theorem Serves.owners (h : Serves s ws s' ws') (hw : w' ∈ ws') (hused : w'.used) :
    ∃ w ∈ ws, w.used ∧ w.threadId = w'.threadId := by
  obtain ⟨hrises, hslots⟩ := h
  induction hslots with
  | nil => cases hw
  | @cons a b as bs hab _ ih =>
    rcases mem_cons.mp hw with rfl | hw
    · refine ⟨a, mem_cons_self, ?_⟩
      cases hab with
      | kept | released => exact ⟨hused, rfl⟩
      | dropped => cases hused
    · obtain ⟨w, hmem, hw⟩ := ih hw
      exact ⟨w, mem_cons_of_mem _ hmem, hw⟩

def Touched (t t' : Thread) (w w' : Waiter) : Prop :=
  w' = w ∨ w.result = .pending ∧ t.Roused t' ∧ w'.key = w.key ∧ w'.result ≠ .pending

theorem Served.touched {t : Nat} (h : Served s s' w w') (halive : (s.threads t).Alive)
    (ht : w.threadId = t) :
    w'.used = w.used ∧ w'.threadId = t ∧ Touched (s.threads t) (s'.threads t) w w' := by
  cases h with
  | kept => exact ⟨rfl, ht, .inl rfl⟩
  | released r hpending hr hroused => exact ⟨rfl, ht, .inr ⟨hpending, ht ▸ hroused, rfl, hr⟩⟩
  | dropped hgone => exact absurd (ht ▸ halive) hgone

theorem Served.threadId (h : Served s s' w w') : w'.threadId = w.threadId := by
  cases h <;> rfl

theorem Serves.keeps {t : Nat} (h : Serves s ws s' ws') (halive : (s.threads t).Alive) :
    List.Forall₂ (Touched (s.threads t) (s'.threads t)) (entries ws t) (entries ws' t) := by
  obtain ⟨hrises, hslots⟩ := h
  induction hslots with
  | nil => exact .nil
  | @cons a b as bs hab _ ih =>
    rw [entries_cons, entries_cons]
    by_cases ht : a.threadId = t
    · obtain ⟨hused, ht', htouched⟩ := hab.touched halive ht
      rw [hused]
      by_cases ha : a.used
      · rw [if_pos ⟨ha, ht⟩, if_pos ⟨ha, ht'⟩]
        exact .cons htouched ih
      · rw [if_neg fun h => ha h.1, if_neg fun h => ha h.1]
        exact ih
    · rw [if_neg fun h => ht h.2, if_neg fun h => ht (hab.threadId ▸ h.2)]
      exact ih

theorem Serves.keeps_one {t : Nat} (h : Serves s ws s' ws') (halive : (s.threads t).Alive)
    (hone : entries ws t = [w]) :
    ∃ w', entries ws' t = [w'] ∧ Touched (s.threads t) (s'.threads t) w w' := by
  have hentries := h.keeps halive
  rw [hone] at hentries
  generalize entries ws' t = es at hentries ⊢
  cases hentries with
  | cons hw hnil =>
    cases hnil
    exact ⟨_, rfl, hw⟩

theorem Serves.keeps_nil {t : Nat} (h : Serves s ws s' ws') (halive : (s.threads t).Alive)
    (hnil : entries ws t = []) : entries ws' t = [] := by
  have hentries := h.keeps halive
  rw [hnil] at hentries
  exact forall₂_nil_left_iff.mp hentries

end Serves

section Loops

variable {key : Key} {sched : Scheduler}

theorem gone_of_wake_none {t : Nat} (hzero : ¬ (sched.threads 0).Alive)
    (h : sched.wake t = none) : ¬ (sched.threads t).Alive := by
  by_cases ht : t = 0
  · subst ht
    exact hzero
  · exact Scheduler.wake_none ht h

theorem wakeWaiters_serves (key : Key) (maximum : Nat) (ws : List Waiter)
    (hzero : ¬ (sched.threads 0).Alive) :
    Serves sched ws (wakeWaiters key maximum sched ws).1 (wakeWaiters key maximum sched ws).2.1 := by
  fun_induction wakeWaiters key maximum sched ws with
  | case1 maximum sched => exact .refl sched []
  | case2 sched ws => exact .refl sched ws
  | case3 maximum sched w ws hw sched' hwake sched'' ws' woken heq ih =>
    obtain ⟨hrises, hroused, -⟩ := Scheduler.wake_spec hwake
    simp only [Waiter.waitsOn, Bool.and_eq_true, decide_eq_true_eq] at hw
    rw [heq] at ih
    exact .cons hrises (.released w .woken hw.1.2 (by decide) hroused)
      (ih fun halive => hzero ((hrises.threads 0).alive.mp halive))
  | case4 maximum sched w ws hw hwake sched' ws' woken heq ih =>
    rw [heq] at ih
    exact .cons (.refl sched) (.dropped w (gone_of_wake_none hzero hwake)) (ih hzero)
  | case5 maximum sched w ws hw sched' ws' woken heq ih =>
    rw [heq] at ih
    exact .cons (.refl sched) (.kept w) (ih hzero)

theorem expireWaiters_serves (now : Nat) (ws : List Waiter) (hzero : ¬ (sched.threads 0).Alive) :
    Serves sched ws (expireWaiters now sched ws).1 (expireWaiters now sched ws).2 := by
  fun_induction expireWaiters now sched ws with
  | case1 sched => exact .refl sched []
  | case2 sched w ws hw sched' hwake sched'' ws' heq ih =>
    obtain ⟨hrises, hroused, -⟩ := Scheduler.wake_spec hwake
    simp only [Bool.and_eq_true, decide_eq_true_eq] at hw
    rw [heq] at ih
    exact .cons hrises (.released w .timedOut hw.1.2 (by decide) hroused)
      (ih fun halive => hzero ((hrises.threads 0).alive.mp halive))
  | case3 sched w ws hw hwake freed sched' ws' heq ih =>
    rw [heq] at ih
    refine .cons (.refl sched) ?_ (ih hzero)
    by_cases hunused : sched.threadState w.threadId = .unused
    · rw [show freed = { w with used := false } from if_pos hunused]
      exact .dropped w (gone_of_wake_none hzero hwake)
    · rw [show freed = w from if_neg hunused]
      exact .kept w
  | case4 sched w ws hw sched' ws' heq ih =>
    rw [heq] at ih
    exact .cons (.refl sched) (.kept w) (ih hzero)

theorem expireWaiters_uncollected (now : Nat) (sched : Scheduler) (ws : List Waiter) :
    uncollected (expireWaiters now sched ws).2 ≤ uncollected ws := by
  fun_induction expireWaiters now sched ws with
  | case1 sched => exact le_rfl
  | case2 sched w ws hw sched' hwake sched'' ws' heq ih =>
    rw [heq] at ih
    rw [uncollected_cons, uncollected_cons, if_neg fun h => by cases h.2]
    exact Nat.le_add_right_of_le ih
  | case3 sched w ws hw hwake freed sched' ws' heq ih =>
    rw [heq] at ih
    rw [uncollected_cons, uncollected_cons]
    have hfreed : freed.used ∧ freed.result = .woken → w.used ∧ w.result = .woken := by
      intro h
      by_cases hunused : sched.threadState w.threadId = .unused
      · rw [show freed = { w with used := false } from if_pos hunused] at h
        cases h.1
      · rw [show freed = w from if_neg hunused] at h
        exact h
    split
    next h =>
      rw [if_pos (hfreed h)]
      exact Nat.add_le_add_right ih 1
    · exact Nat.le_add_right_of_le ih
  | case4 sched w ws hw sched' ws' heq ih =>
    rw [heq] at ih
    rw [uncollected_cons, uncollected_cons]
    exact Nat.add_le_add_right ih _

def releases (before after : List Waiter) : Nat :=
  (before.zip after).countP fun p => p.1.used && p.1.result = .pending && p.2.result = .woken

theorem releases_cons (w w' : Waiter) (ws ws' : List Waiter) :
    releases (w :: ws) (w' :: ws') = releases ws ws' +
      if w.used ∧ w.result = .pending ∧ w'.result = .woken then 1 else 0 := by
  simp only [releases, zip_cons_cons, countP_cons, Bool.and_eq_true, decide_eq_true_eq, and_assoc]

theorem releases_cons_same {w w' : Waiter} (h : w'.result = w.result) (ws ws' : List Waiter) :
    releases (w :: ws) (w' :: ws') = releases ws ws' := by
  rw [releases_cons, h, if_neg, Nat.add_zero]
  rintro ⟨-, hpending, hwoken⟩
  rw [hpending] at hwoken
  cases hwoken

theorem releases_self (ws : List Waiter) : releases ws ws = 0 := by
  induction ws with
  | nil => rfl
  | cons w ws ih => rw [releases_cons_same rfl, ih]

theorem eq_of_mem_zip_self {ws : List Waiter} : ∀ p ∈ ws.zip ws, p.2 = p.1 := by
  induction ws with
  | nil => exact fun p hp => absurd hp not_mem_nil
  | cons w ws ih =>
    rw [zip_cons_cons, forall_mem_cons]
    exact ⟨rfl, ih⟩

/-- What a wake does to the table: it releases entries of its futex only, and as many as it
reports. -/
structure Wakes (key : Key) (maximum : Nat) (ws ws' : List Waiter) (woken : Nat) : Prop where
  le : woken ≤ maximum
  uncollects : uncollected ws' = uncollected ws + woken
  frees : releases ws ws' = woken
  spares : ∀ p ∈ ws.zip ws', p.2 = p.1 ∨ p.1.waitsOn key = true

theorem wakeWaiters_wakes (key : Key) (maximum : Nat) (sched : Scheduler) (ws : List Waiter) :
    Wakes key maximum ws (wakeWaiters key maximum sched ws).2.1
      (wakeWaiters key maximum sched ws).2.2 := by
  fun_induction wakeWaiters key maximum sched ws with
  | case1 maximum sched => exact ⟨Nat.zero_le _, rfl, rfl, nofun⟩
  | case2 sched ws =>
    exact ⟨le_rfl, rfl, releases_self ws, fun p hp => .inl (eq_of_mem_zip_self p hp)⟩
  | case3 maximum sched w ws hw sched' hwake sched'' ws' woken heq ih =>
    rw [heq] at ih
    dsimp only at ih ⊢
    have hwaits := hw
    simp only [Waiter.waitsOn, Bool.and_eq_true, decide_eq_true_eq] at hwaits
    constructor
    · exact Nat.succ_le_succ ih.le
    · rw [uncollected_cons, uncollected_cons, ih.uncollects, if_pos ⟨hwaits.1.1, rfl⟩,
        if_neg fun h => by rw [hwaits.1.2] at h; cases h.2]
      omega
    · rw [releases_cons, ih.frees, if_pos ⟨hwaits.1.1, hwaits.1.2, rfl⟩]
    · rw [zip_cons_cons, forall_mem_cons]
      exact ⟨.inr hw, ih.spares⟩
  | case4 maximum sched w ws hw hwake sched' ws' woken heq ih =>
    rw [heq] at ih
    dsimp only at ih ⊢
    have hwaits := hw
    simp only [Waiter.waitsOn, Bool.and_eq_true, decide_eq_true_eq] at hwaits
    constructor
    · exact ih.le
    · rw [uncollected_cons, uncollected_cons, ih.uncollects, if_neg fun h => Bool.false_ne_true h.1,
        if_neg fun h => by rw [hwaits.1.2] at h; cases h.2]
      omega
    · exact (releases_cons_same rfl ws ws').trans ih.frees
    · rw [zip_cons_cons, forall_mem_cons]
      exact ⟨.inr hw, ih.spares⟩
  | case5 maximum sched w ws hw sched' ws' woken heq ih =>
    rw [heq] at ih
    dsimp only at ih ⊢
    constructor
    · exact ih.le
    · rw [uncollected_cons, uncollected_cons, ih.uncollects]
      omega
    · exact (releases_cons_same rfl ws ws').trans ih.frees
    · rw [zip_cons_cons, forall_mem_cons]
      exact ⟨.inl rfl, ih.spares⟩

def ahead (t : Nat) (key : Key) : List Waiter → Nat
  | [] => 0
  | w :: ws =>
    if w.used && w.threadId = t then 0
    else (if w.waitsOn key then 1 else 0) + ahead t key ws

theorem ahead_lt_length {t : Nat} {ws : List Waiter} (key : Key) (h : entries ws t ≠ []) :
    ahead t key ws < ws.length := by
  induction ws with
  | nil => exact absurd rfl h
  | cons w ws ih =>
    rw [ahead, length_cons]
    simp only [Bool.and_eq_true, decide_eq_true_eq]
    by_cases hw : w.used ∧ w.threadId = t
    · rw [if_pos hw]
      exact Nat.succ_pos _
    rw [entries_cons, if_neg hw] at h
    have := ih h
    rw [if_neg hw]
    split <;> omega

theorem wakeWaiters_reaches {t : Nat} {w : Waiter} (maximum : Nat) (ws : List Waiter)
    (hzero : ¬ (sched.threads 0).Alive) (halive : (sched.threads t).Alive)
    (hone : entries ws t = [w]) (hkey : w.key = key) (hahead : ahead t key ws < maximum) :
    ∃ w', entries (wakeWaiters key maximum sched ws).2.1 t = [w'] ∧ w'.result ≠ .pending ∧
      (w.result = .pending → w'.result = .woken) := by
  fun_induction wakeWaiters key maximum sched ws with
  | case1 maximum sched => cases hone
  | case2 sched ws => exact absurd hahead (Nat.not_lt_zero _)
  | case3 maximum sched v ws hv sched' hwake sched'' ws' woken heq ih =>
    obtain ⟨hrises, -, -⟩ := Scheduler.wake_spec hwake
    have hzero' : ¬ (sched'.threads 0).Alive := fun h => hzero ((hrises.threads 0).alive.mp h)
    have halive' := (hrises.threads t).alive.mpr halive
    rw [entries_cons] at hone ⊢
    rw [ahead] at hahead
    simp only [Bool.and_eq_true, decide_eq_true_eq] at hahead
    split_ifs at hone ⊢ with hmine
    · obtain ⟨rfl, hnil⟩ := List.cons.inj hone
      have hrest := (wakeWaiters_serves key maximum ws hzero').keeps_nil halive' hnil
      rw [heq] at hrest
      exact ⟨_, by rw [hrest], WaitResult.noConfusion, fun _ => rfl⟩
    · rw [if_neg hmine] at hahead
      rw [if_pos hv] at hahead
      rw [heq] at ih
      exact ih hzero' halive' hone (by omega)
  | case4 maximum sched v ws hv hwake sched' ws' woken heq ih =>
    have hgone := gone_of_wake_none hzero hwake
    have hother : ¬ (v.used ∧ v.threadId = t) := fun h => hgone (h.2 ▸ halive)
    rw [entries_cons, if_neg hother] at hone
    rw [entries_cons, if_neg fun h => Bool.false_ne_true h.1]
    rw [ahead] at hahead
    simp only [Bool.and_eq_true, decide_eq_true_eq] at hahead
    rw [if_neg hother] at hahead
    rw [heq] at ih
    exact ih hzero halive hone (by omega)
  | case5 maximum sched v ws hv sched' ws' woken heq ih =>
    rw [entries_cons] at hone ⊢
    rw [ahead] at hahead
    simp only [Bool.and_eq_true, decide_eq_true_eq] at hahead
    split_ifs at hone ⊢ with hmine
    · obtain ⟨rfl, hnil⟩ := List.cons.inj hone
      have hrest := (wakeWaiters_serves key (maximum + 1) ws hzero).keeps_nil halive hnil
      rw [heq] at hrest
      simp only [Waiter.waitsOn, Bool.and_eq_true, decide_eq_true_eq] at hv
      have hresult : v.result ≠ .pending := fun h => hv ⟨⟨hmine.1, h⟩, hkey⟩
      exact ⟨v, by rw [hrest], hresult, fun h => absurd h hresult⟩
    · rw [if_neg hmine] at hahead
      rw [heq] at ih
      exact ih hzero halive hone (by omega)

end Loops

/-! ### The sections of a wait -/

section Sections

variable {sched : Scheduler} {t u : Nat} {key : Key} {w e : Waiter} {ws ws' : List Waiter}

theorem sweep_cons (sched : Scheduler) (t : Nat) (w : Waiter) (ws : List Waiter) :
    ∃ w', (w' = w ∨ sched.threadState w.threadId = .unused ∧ w' = { w with used := false }) ∧
      ((sweep sched t (w :: ws)).1 = w' :: ws ∨
        (sweep sched t (w :: ws)).1 = w' :: (sweep sched t ws).1) := by
  rw [sweep]
  split
  next hgone =>
    simp only [Bool.and_eq_true, decide_eq_true_eq] at hgone
    exact ⟨_, .inr ⟨hgone.2, rfl⟩, .inr rfl⟩
  · refine ⟨w, .inl rfl, ?_⟩
    split
    · exact .inl rfl
    · exact .inr rfl

/-- The search for a slot drops entries of threads that are gone, and does nothing else. -/
theorem sweep_serves (hgone : ∀ id, sched.threadState id = .unused → ¬ (sched.threads id).Alive)
    (t : Nat) (ws : List Waiter) : Serves sched ws sched (sweep sched t ws).1 := by
  induction ws with
  | nil => exact .refl sched []
  | cons w ws ih =>
    obtain ⟨w', hw, hrest⟩ := sweep_cons sched t w ws
    have hserved : Served sched sched w w' := by
      rcases hw with rfl | ⟨hunused, rfl⟩
      · exact .kept w'
      · exact .dropped w (hgone _ hunused)
    rcases hrest with hrest | hrest
    · rw [hrest]
      exact .cons (.refl sched) hserved (.refl sched ws)
    · rw [hrest]
      exact .cons (.refl sched) hserved ih

theorem sweep_uncollected (sched : Scheduler) (t : Nat) (ws : List Waiter) :
    uncollected (sweep sched t ws).1 ≤ uncollected ws := by
  induction ws with
  | nil => exact le_rfl
  | cons w ws ih =>
    obtain ⟨w', hw, hrest⟩ := sweep_cons sched t w ws
    have hle : (if w'.used ∧ w'.result = .woken then 1 else 0) ≤
        if w.used ∧ w.result = .woken then 1 else 0 := by
      rcases hw with rfl | ⟨-, rfl⟩
      · exact le_rfl
      · rw [if_neg fun h => Bool.false_ne_true h.1]
        exact Nat.zero_le _
    rcases hrest with hrest | hrest
    all_goals
      rw [hrest, uncollected_cons, uncollected_cons]
      omega

section

variable (h : place e ws = some ws')
include h

/-- What registering does to the table: a slot that was free holds the new entry. -/
theorem place_split : ∃ before free after, ws = before ++ free :: after ∧ free.used = false ∧
      ws' = before ++ e :: after := by
  induction ws generalizing ws' with
  | nil => cases h
  | cons w ws ih =>
    rw [place] at h
    split at h
    · obtain ⟨out, hplace, rfl⟩ := Option.map_eq_some_iff.mp h
      obtain ⟨before, free, after, rfl, hfree, rfl⟩ := ih hplace
      exact ⟨w :: before, free, after, rfl, hfree, rfl⟩
    · rename_i hfree
      cases h
      exact ⟨[], w, ws, rfl, Bool.eq_false_iff.mpr hfree, rfl⟩

omit h in
theorem entries_append (ws ws' : List Waiter) (t : Nat) :
    entries (ws ++ ws') t = entries ws t ++ entries ws' t := filter_append ..

omit h in
theorem uncollected_append (ws ws' : List Waiter) :
    uncollected (ws ++ ws') = uncollected ws + uncollected ws' := countP_append ..

theorem place_entries_other (hne : e.threadId ≠ t) : entries ws' t = entries ws t := by
  obtain ⟨before, free, after, rfl, hfree, rfl⟩ := place_split h
  rw [entries_append, entries_append, entries_cons, entries_cons, if_neg fun h => hne h.2,
    if_neg fun h => by rw [hfree] at h; cases h.1]

theorem place_entries_self (hused : e.used) (hnil : entries ws e.threadId = []) :
    entries ws' e.threadId = [e] := by
  obtain ⟨before, free, after, rfl, hfree, rfl⟩ := place_split h
  rw [entries_append, entries_cons, if_neg fun h => by rw [hfree] at h; cases h.1] at hnil
  obtain ⟨hbefore, hafter⟩ := append_eq_nil_iff.mp hnil
  rw [entries_append, entries_cons, if_pos ⟨hused, rfl⟩, hbefore, hafter, nil_append]

theorem place_uncollected (he : e.result = .pending) : uncollected ws' = uncollected ws := by
  obtain ⟨before, free, after, rfl, hfree, rfl⟩ := place_split h
  have hnew : ¬ (e.used ∧ e.result = .woken) := by
    rw [he]
    exact fun h => WaitResult.noConfusion h.2
  have hold : ¬ (free.used ∧ free.result = .woken) := by
    rw [hfree]
    exact fun h => Bool.false_ne_true h.1
  rw [uncollected_append, uncollected_append, uncollected_cons, uncollected_cons, if_neg hnew,
    if_neg hold]

end

/-- What collecting does to the table: the thread's first entry is freed and its result read. -/
theorem takeResult_split (hone : entries ws t ≠ []) (key : Key) :
    ∃ before w after, ws = before ++ w :: after ∧ w.used ∧ w.threadId = t ∧
      entries before t = [] ∧
      takeResult t key ws =
        (if w.key = key then w.result else .pending,
          before ++ { w with used := false } :: after) := by
  induction ws with
  | nil => exact absurd rfl hone
  | cons w ws ih =>
    rw [entries_cons] at hone
    rw [takeResult]
    simp only [Bool.and_eq_true, decide_eq_true_eq]
    by_cases hw : w.used ∧ w.threadId = t
    · rw [if_pos hw]
      exact ⟨[], w, ws, rfl, hw.1, hw.2, rfl, rfl⟩
    rw [if_neg hw] at hone ⊢
    obtain ⟨before, v, after, rfl, hused, hthread, hnil, htake⟩ := ih hone
    refine ⟨w :: before, v, after, rfl, hused, hthread, ?_, by rw [htake]; rfl⟩
    rw [entries_cons, if_neg hw, hnil]

theorem takeResult_entries_other (hone : entries ws t ≠ []) (key : Key) (hne : t ≠ u) :
    entries (takeResult t key ws).2 u = entries ws u := by
  obtain ⟨before, w, after, rfl, -, hthread, -, htake⟩ := takeResult_split hone key
  rw [htake, entries_append, entries_append, entries_cons, entries_cons,
    if_neg fun h => hne (hthread ▸ h.2), if_neg fun h => hne (hthread ▸ h.2)]

theorem takeResult_one (hone : entries ws t = [w]) (key : Key) :
    (takeResult t key ws).1 = (if w.key = key then w.result else .pending) ∧
      entries (takeResult t key ws).2 t = [] := by
  obtain ⟨before, v, after, rfl, hused, hthread, hnil, htake⟩ :=
    takeResult_split (by rw [hone]; exact cons_ne_nil _ _) key
  rw [entries_append, entries_cons, if_pos ⟨hused, hthread⟩, hnil, nil_append] at hone
  obtain ⟨rfl, hafter⟩ := List.cons.inj hone
  rw [htake]
  refine ⟨rfl, ?_⟩
  rw [entries_append, entries_cons, if_neg fun h => Bool.false_ne_true h.1, hnil, hafter,
    append_nil]

theorem takeResult_uncollected (hone : entries ws t ≠ []) (key : Key) :
    uncollected (takeResult t key ws).2 +
      (if (takeResult t key ws).1 = .woken then 1 else 0) ≤ uncollected ws := by
  obtain ⟨before, w, after, rfl, hused, -, -, htake⟩ := takeResult_split hone key
  rw [htake, uncollected_append, uncollected_append, uncollected_cons, uncollected_cons,
    if_neg fun h => Bool.false_ne_true h.1]
  by_cases hwoken : (if w.key = key then w.result else WaitResult.pending) = .woken
  · have hresult : w.result = .woken := by
      split at hwoken
      · exact hwoken
      · cases hwoken
    rw [if_pos hwoken, if_pos ⟨hused, hresult⟩]
    omega
  · rw [if_neg hwoken]
    omega

end Sections

end XsCore.Sched
