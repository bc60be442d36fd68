import XsCore.File.Locks

/-! # Exclusion

The invariant of the advisory locks over whole histories of calls: every other call is calm, so only
a round of `xscore_fd_flock` can give a lock, and it looks at every description of the pool first.
-/

namespace XsCore.File

open XsCore.Ipc Function Multiset

variable {k k' : Files} {f n : Nat}
variable {lock : LockKind} {g : Nat}

structure LocksOk (k : Files) : Prop where
  alone : ∀ n f g, f ≠ g → (k.files f).object = some (.vnode n) →
    (k.files g).object = some (.vnode n) → (k.files f).flock = some .exclusive →
    (k.files g).flock = none
  cleared : k.Cleared
  console : ∀ f, filePoolSize ≤ f → ∀ n, (k.files f).object ≠ some (.vnode n)

theorem LocksOk.calm (hk : LocksOk k) (hcalm : Calm k k') : LocksOk k' where
  alone n f g hne hf hg hlock := by
    rcases hcalm.kept f with hnone | ⟨hsame, hobject⟩
    · rw [hnone] at hlock
      cases hlock
    rcases hcalm.kept g with hnone | ⟨hsame', hobject'⟩
    · exact hnone
    · rw [hsame']
      exact hk.alone n f g hne (hobject ▸ hf) (hobject' ▸ hg) (hsame ▸ hlock)
  cleared := hcalm.cleared hk.cleared
  console f hf n := by
    rw [hcalm.console f hf]
    exact hk.console f hf n

theorem LocksOk.no_conflict (hk : LocksOk k)
    (hfree : k.flockConflict f n lock = false) (hne : g ≠ f)
    (hg : (k.files g).object = some (.vnode n)) : (k.files g).flock.any lock.conflicts = false := by
  by_cases hpool : g < filePoolSize
  · by_cases hzero : (k.files g).references = 0
    · rw [hk.cleared g hpool hzero]
      rfl
    unfold Files.flockConflict at hfree
    have hscan := List.any_eq_false.mp hfree g (List.mem_range.mpr hpool)
    simpa [hne, hzero, hg] using hscan
  · exact absurd hg (hk.console g (by omega) n)

theorem LocksOk.flockRound (hk : LocksOk k) (hused : (k.files f).references ≠ 0)
    (request : FlockRequest) (pending : Bool) : LocksOk (k.flockRound f request pending).1 := by
  unfold Files.flockRound
  split
  case h_2 => exact hk
  rename_i n hobject
  split
  · exact hk
  rename_i hfree
  generalize hd : ({ k.files f with flock := request.lock } : Description) = d
  have hother : ∀ g ≠ f, (k.setFile f d).files g = k.files g := fun g hg =>
    update_of_ne hg _ _
  have hself : (k.setFile f d).files f = d := update_self _ _ _
  have hlock : d.flock = request.lock := by rw [← hd]
  have hsame : d.object = (k.files f).object := by rw [← hd]
  have hquiet : ∀ g ≠ f, (k.files g).object = some (.vnode n) → ∀ lock,
      request.lock = some lock → (k.files g).flock.any lock.conflicts = false := by
    intro g hg hnode lock hrequest
    rw [hrequest, Option.any_some] at hfree
    exact hk.no_conflict (Bool.eq_false_iff.mpr hfree) hg hnode
  constructor
  · intro m g g' hne hg hg' hexclusive
    by_cases hgf : g = f
    · -- the caller is granted an exclusive lock
      have hnode' : (k.files g').object = some (.vnode m) := by
        rw [← hother g' (hgf ▸ hne.symm)]
        exact hg'
      rw [hgf, hself] at hg hexclusive
      rw [hsame, hobject] at hg
      cases hg
      rw [hlock] at hexclusive
      have hnone := hquiet g' (hgf ▸ hne.symm) hnode' _ hexclusive
      rw [hother g' (hgf ▸ hne.symm)]
      cases hheld : (k.files g').flock with
      | none => rfl
      | some held =>
        rw [hheld] at hnone
        cases hnone
    · rw [hother g hgf] at hg hexclusive
      by_cases hgf' : g' = f
      · -- another description holds an exclusive lock, so the caller can only have given its own up
        rw [hgf', hself] at hg' ⊢
        rw [hsame, hobject] at hg'
        cases hg'
        rw [hlock]
        cases hrequest : request.lock with
        | none => rfl
        | some lock =>
          have hnone := hquiet g hgf hg lock hrequest
          rw [hexclusive] at hnone
          cases lock <;> cases hnone
      · rw [hother g' hgf'] at hg' ⊢
        exact hk.alone m g g' hne hg hg' hexclusive
  · subst hd
    exact hk.cleared.setFile fun _ hzero => absurd hzero hused
  · intro g hg m
    rw [k.setFile_files]
    split_ifs with hgf
    · rw [hsame, ← hgf]
      exact hk.console g hg m
    · exact hk.console g hg m

theorem FilesOk.flockRound {leak : Nat → Prop} {base : Base} {locals : Multiset Nat}
    {pledged : Multiset Handle} (hk : FilesOk leak base locals pledged k) (request : FlockRequest)
    (pending : Bool) : FilesOk leak base locals pledged (k.flockRound f request pending).1 := by
  unfold Files.flockRound
  split
  case h_2 => exact hk
  split
  · exact hk
  · exact hk.setStatus rfl rfl rfl

structure Locking (nodes : Nat → Node) (k : Files) : Prop where
  files : FilesOk (fun _ => True) (bootBase nodes) 0 0 k
  locks : LocksOk k

variable {nodes : Nat → Node}

theorem Locking.used (hk : Locking nodes k) (hf : f ∈ k.held) : (k.files f).references ≠ 0 := by
  have hcount := hk.files.sound.counted f
  have hpos := count_pos.mpr hf
  rw [add_zero, count_add] at hcount
  omega

theorem Locking.fdFlock (hk : Locking nodes k) (t d operation : Nat) (pending : Bool) :
    Locking nodes (k.fdFlock t d operation pending).1 := by
  unfold Files.fdFlock
  rcases FlockRequest.ofOperation operation with _ | request
  · exact hk
  rcases hlookup : k.lookupRef t d with _ | ⟨k', f⟩
  · exact hk
  have hlocks' := hk.locks.calm (Calm.lookupRef hlookup)
  obtain ⟨hfiles', hk'⟩ := hk.files.lookupRef hlookup
  have hused : (k'.files f).references ≠ 0 := by
    rw [hk']
    show (update k.files f _ f).references ≠ 0
    rw [update_self]
    exact Nat.succ_ne_zero _
  have hfiles := hfiles'.flockRound (f := f) request pending
  have hlocks := hlocks'.flockRound hused request pending
  dsimp only
  generalize k'.flockRound f request pending = out at hfiles hlocks ⊢
  obtain ⟨k'', result⟩ := out
  cases result with
  | again => exact ⟨hfiles.keep, hlocks.calm (.of_files rfl)⟩
  | granted | error e | interrupted => exact ⟨hfiles.release, hlocks.calm (.release k'' f)⟩

theorem Locking.step (hk : Locking nodes k) (op : LockOp) : Locking nodes (k.lockStep op) := by
  cases op with
  | call op =>
    have hfiles := hk.files.step op (fun _ _ => trivial) (.inl fun _ => trivial)
    exact ⟨hfiles, hk.locks.calm (.step k op)⟩
  | flock t d operation pending => exact hk.fdFlock t d operation pending
  | retry f request pending =>
    show Locking nodes (if f ∈ k.held then (k.flockRound f request pending).1 else k)
    split_ifs with hf
    · exact ⟨hk.files.flockRound request pending, hk.locks.flockRound (hk.used hf) request pending⟩
    · exact hk

theorem boot_locking (nodes : Nat → Node) : Locking nodes (Files.boot nodes) where
  files := boot_ok _ nodes
  locks :=
    have hplain : ∀ f n, ((Files.boot nodes).files f).object ≠ some (.vnode n) := by
      intro f n
      unfold Files.boot
      dsimp only
      split_ifs
      all_goals exact nofun
    have hfree : ∀ f, ((Files.boot nodes).files f).flock = none := by
      intro f
      unfold Files.boot
      dsimp only
      split_ifs
      all_goals rfl
    ⟨fun n f _ _ hf _ _ => absurd hf (hplain f n), fun f _ _ => hfree f, fun f _ n => hplain f n⟩

theorem lockOn_some (h : k.lockOn n f = some lock) :
    (k.files f).object = some (.vnode n) ∧ (k.files f).flock = some lock := by
  unfold Files.lockOn at h
  split_ifs at h with hobject
  exact ⟨hobject, h⟩

theorem LocksOk.lockOn_alone (hk : LocksOk k) (hne : f ≠ g) (h : k.lockOn n f = some .exclusive) :
    k.lockOn n g = none := by
  obtain ⟨hobject, hlock⟩ := lockOn_some h
  cases hother : k.lockOn n g with
  | none => rfl
  | some lock =>
    obtain ⟨hobject', hlock'⟩ := lockOn_some hother
    rw [hk.alone n f g hne hobject hobject' hlock] at hlock'
    cases hlock'

theorem flockConflict_spec (h : k.flockConflict f n lock) :
    ∃ g ≠ f, ∃ held, k.lockOn n g = some held ∧ lock.conflicts held := by
  obtain ⟨g, -, hg⟩ := List.any_eq_true.mp h
  simp only [ne_eq, Bool.and_eq_true, decide_eq_true_eq, Option.any_eq_true] at hg
  obtain ⟨⟨⟨hne, -⟩, hobject⟩, held, hlock, hconflicts⟩ := hg
  refine ⟨g, by simpa using hne, held, ?_, hconflicts⟩
  unfold Files.lockOn
  rw [if_pos hobject]
  exact hlock

theorem lockOn_acquire (k : Files) (f g n : Nat) : (k.fileAcquire f).lockOn n g = k.lockOn n g := by
  have hlock : ((k.fileAcquire f).files g).flock = (k.files g).flock := by
    show (update k.files f _ g).flock = _
    by_cases hg : g = f
    · subst hg
      rw [update_self]
    · rw [update_of_ne hg]
  unfold Files.lockOn
  rw [Files.object_acquire, hlock]

theorem fdFlock_refused {t d operation : Nat} {request : FlockRequest} {pending : Bool}
    (hrequest : FlockRequest.ofOperation operation = some request) (hlookup : k.lookup t d = some f)
    (hobject : (k.files f).object = some (.vnode n))
    (hrefused : (k.fdFlock t d operation pending).2 ≠ .granted) : ∃ lock, request.lock = some lock ∧
      ∃ g ≠ f, ∃ held, k.lockOn n g = some held ∧ lock.conflicts held := by
  have hfound : k.lookupRef t d = some (k.fileAcquire f, f) := by
    rw [Files.lookupRef, hlookup]
    rfl
  have hnode : ((k.fileAcquire f).files f).object = some (.vnode n) := by
    rw [Files.object_acquire, hobject]
  unfold Files.fdFlock at hrefused
  rw [hrequest] at hrefused
  simp only [hfound] at hrefused
  unfold Files.flockRound at hrefused
  rw [hnode] at hrefused
  by_cases hconflict : request.lock.any fun lock => (k.fileAcquire f).flockConflict f n lock
  · rw [Option.any_eq_true] at hconflict
    obtain ⟨lock, hlock, hconflict⟩ := hconflict
    obtain ⟨g, hne, held, hheld, hconflicts⟩ := flockConflict_spec hconflict
    rw [lockOn_acquire] at hheld
    exact ⟨lock, hlock, g, hne, held, hheld, hconflicts⟩
  · simp only [if_neg hconflict] at hrefused
    exact absurd rfl hrefused

/-- In every history of calls: an exclusive lock excludes every other description of the node; a
request, non-blocking or not, that is not granted at once conflicts with the lock of another
description; and a description that nothing refers to any more has no lock. -/
theorem flock_exclusion (nodes : Nat → Node) (ops : List LockOp) :
    let k := Machine.run Files.lockStep (Files.boot nodes) ops
    (∀ n f g, f ≠ g → k.lockOn n f = some .exclusive → k.lockOn n g = none) ∧
    (∀ t d operation request pending f n,
      FlockRequest.ofOperation operation = some request → k.lookup t d = some f →
      (k.files f).object = some (.vnode n) → (k.fdFlock t d operation pending).2 ≠ .granted →
      ∃ lock, request.lock = some lock ∧
        ∃ g ≠ f, ∃ held, k.lockOn n g = some held ∧ lock.conflicts held = true) ∧
    (∀ f, f ∉ k.entries → f ∉ k.held → f ∉ queued k.objects.sockets →
      (k.files f).references = 0 ∧ ∀ n, k.lockOn n f = none) := by
  intro k
  have hk : Locking nodes k :=
    Machine.run_invariant (Locking nodes) (fun _ op hk => hk.step op) (boot_locking nodes) ops
  refine ⟨fun n f g hne => hk.locks.lockOn_alone hne, ?_, fun f hentries hheld hqueued => ?_⟩
  · intro t d operation request pending f n hrequest hlookup hobject
    exact fdFlock_refused hrequest hlookup hobject
  · have hzero : (k.files f).references = 0 := by
      rw [hk.files.sound.counted f, add_zero, count_add, count_eq_zero_of_notMem hentries,
        count_eq_zero_of_notMem hheld, count_eq_zero_of_notMem hqueued]
    refine ⟨hzero, fun n => ?_⟩
    rcases hlock : k.lockOn n f with _ | lock
    · rfl
    obtain ⟨hobject, hheld⟩ := lockOn_some hlock
    by_cases hpool : f < filePoolSize
    · rw [hk.locks.cleared f hpool hzero] at hheld
      cases hheld
    · exact absurd hobject (hk.locks.console f (by omega) n)

/-- Two descriptions of one node: the second is refused a shared lock while the first has an
exclusive one, and the first's lock is gone with its last descriptor. -/
theorem flock_exclusion_two :
    let ops : List LockOp := [.call .tableInitialize,
      .call (.openVnode 0 (fun _ => true) 7 2 false),
      .call (.openVnode 0 (fun _ => true) 7 2 false), .flock 0 3 6 false]
    let k := Machine.run Files.lockStep (Files.boot fun _ => ⟨true, false, 0⟩) ops
    k.lockOn 7 0 = some .exclusive ∧ k.lockOn 7 1 = none ∧
      (k.fdFlock 0 4 5 false).2 = .error .again ∧
      ((k.lockStep (.call (.close 0 3))).lockOn 7 0 = none) := by
  intro ops k
  have hlock : k.lockOn 7 0 = some .exclusive := by decide +kernel
  have halone := (flock_exclusion _ ops).1 7 0 1 (by decide) hlock
  have hrest : (k.fdFlock 0 4 5 false).2 = .error .again ∧
      ((k.lockStep (.call (.close 0 3))).lockOn 7 0 = none) := by decide +kernel
  exact ⟨hlock, halone, hrest⟩

end XsCore.File
