import XsCore.File.Descriptors

/-! # The locks of the descriptor layer

What the calls of `kernel/file.c` that open, duplicate, close or pass on descriptions do with the
lock of the pool and that of the table, on each of their ways out.  The locks are not reentrant: a
call that takes a lock it holds never returns.
-/

namespace XsCore.File

/-- The lock of the pool, of the caller's table, and of the table that a clone fills. -/
inductive Lock where
  | pool | table | clone

inductive LockAct where
  | acquire (lock : Lock)
  | release (lock : Lock)

structure HeldLocks where
  pool : Bool
  table : Bool
  clone : Bool
  deriving DecidableEq

open LockAct Lock

namespace HeldLocks

/-- The pool is locked only once `file_pool_locked` is set; `none` is waiting for oneself. -/
def step (poolLocked : Bool) (h : HeldLocks) : LockAct → Option HeldLocks
  | acquire .pool =>
    if !poolLocked then some h else if h.pool then none else some { h with pool := true }
  | acquire .table => if h.table then none else some { h with table := true }
  | acquire .clone => if h.clone then none else some { h with clone := true }
  | release .pool => some (if !poolLocked then h else { h with pool := false })
  | release .table => some { h with table := false }
  | release .clone => some { h with clone := false }

def run (poolLocked : Bool) (h : HeldLocks) (acts : List LockAct) : Option HeldLocks :=
  acts.foldlM (step poolLocked) h

end HeldLocks

/-- How a search for free entries ends. -/
inductive Search where
  | found | growthFails | full
  deriving DecidableEq

/-- What the tests of a call find. -/
structure Tests where
  /-- The arguments are refused. -/
  invalid : Bool
  /-- There is no such node, device or table, or no free pipe or terminal. -/
  absent : Bool
  poolFull : Bool
  noMemory : Bool
  outOfRange : Bool
  noEntry : Bool
  /-- The entry is a description of another kind. -/
  otherKind : Bool
  /-- `signalfd` is given a descriptor, whose entry may change before it is marked. -/
  existing : Bool
  changed : Bool
  cloexec : Bool
  same : Bool
  search : Search
  second : Search

inductive LockingCall where
  | openMemory | openGenerated | openDirectory | openVnode | openShm | openInput | openFramebuffer
  | openCharacter | signalfd | openSocket | openPtmx | openPts | pipeCreate
  | dup | dup2 | dupFrom | tableClone
  | close | closeAll | closeRange | closeCloexec
  | socketAcquire | transferAcquire | transferInstallMany | transferRelease

/-- `fd_install_with_flags`, with the lock of the pool held. -/
def installActs : Search → List LockAct
  | .found => [acquire table, release table]
  | .growthFails => [acquire table, release table]
  | .full => [acquire table, release table]

def lookupRefActs (t : Tests) : List LockAct :=
  if t.outOfRange then [] else [acquire pool, acquire table, release table, release pool]

def filePutActs : List LockAct := [acquire pool, release pool]

/-- The common course of the openers, from where they take the lock. -/
def openActs (t : Tests) : List LockAct :=
  acquire pool ::
    if t.poolFull then [release pool]
    else installActs t.search ++ [release pool]

def LockingCall.acts (t : Tests) : LockingCall → List LockAct
  | openMemory | openCharacter | openSocket | openPts => if t.invalid then [] else openActs t
  | openDirectory | openVnode | openFramebuffer | openPtmx =>
    if t.invalid then [] else if t.absent then [] else openActs t
  | openGenerated =>
    if t.invalid then []
    else acquire pool ::
      if t.poolFull then [release pool]
      else if t.noMemory then [release pool]
      else installActs t.search ++ [release pool]
  | openShm | openInput =>
    if t.invalid then []
    else acquire pool ::
      if t.poolFull then []
      else installActs t.search ++ [release pool]
  | signalfd =>
    if t.invalid then []
    else if t.existing then
      lookupRefActs t ++
        if t.noEntry then []
        else if t.otherKind then filePutActs
        else filePutActs ++ [acquire table] ++
          if t.changed then [release table] else [release table]
    else acquire pool ::
      if t.poolFull then [release pool]
      else installActs t.search ++
        (if t.search = .found ∧ t.cloexec = true then [acquire table, release table] else []) ++
        [release pool]
  | pipeCreate =>
    if t.invalid then []
    else acquire pool ::
      if t.absent then [release pool]
      else if t.poolFull then [release pool]
      else installActs t.search ++
        if t.search ≠ .found then [release pool]
        else installActs t.second ++
          if t.second ≠ .found then [release pool] else [release pool]
  | dup | dupFrom | close =>
    if t.invalid then []
    else [acquire pool, acquire table] ++
      if t.noEntry then [release table, release pool] else [release table, release pool]
  | dup2 =>
    if t.invalid then []
    else [acquire pool, acquire table] ++
      if t.search = .growthFails then [release table, release pool]
      else if t.noEntry then [release table, release pool]
      else if t.same then [release table, release pool]
      else [release table, release pool]
  | tableClone =>
    if t.invalid then []
    else if t.same then []
    -- the lock of the new table is initialised, and a failed clone is closed again
    else release clone ::
      if t.absent then []
      else [acquire pool, acquire table, acquire clone, release clone, release table,
          release pool] ++
        if t.noMemory then [acquire pool, acquire clone, release clone, release pool] else []
  | closeAll | closeRange | closeCloexec =>
    if t.invalid then [] else [acquire pool, acquire table, release table, release pool]
  | socketAcquire | transferAcquire =>
    if t.invalid then []
    else lookupRefActs t ++ if t.noEntry then [] else if t.otherKind then filePutActs else []
  | transferInstallMany =>
    if t.invalid then []
    else [acquire pool, acquire table] ++
      match t.search with
      | .growthFails => [release table, release pool]
      | .full => [release table, release pool]
      | .found => [release table, release pool]
  | transferRelease => if t.invalid then [] else filePutActs

/-- Called without a lock it returns, and when it returns the locks are as they were. -/
def Disciplined (poolLocked : Bool) (acts : List LockAct) : Prop :=
  (HeldLocks.run poolLocked ⟨false, false, false⟩ acts).isSome = true ∧
    ∀ p t : Bool, HeldLocks.run poolLocked ⟨p, t, false⟩ acts = none ∨
      HeldLocks.run poolLocked ⟨p, t, false⟩ acts = some ⟨p, t, false⟩

instance (poolLocked : Bool) (acts : List LockAct) : Decidable (Disciplined poolLocked acts) :=
  inferInstanceAs (Decidable (_ ∧ _))

/-- A shared-memory or an input description is to be opened, and the pool has none left. -/
def LockingCall.Leaks (poolLocked : Bool) (t : Tests) : LockingCall → Prop
  | openShm | openInput => poolLocked = true ∧ t.invalid = false ∧ t.poolFull = true
  | _ => False

theorem installActs_eq (s : Search) : installActs s = [acquire table, release table] := by
  cases s <;> rfl

variable (poolLocked : Bool) (t : Tests)

theorem lock_discipline_iff (call : LockingCall) :
    Disciplined poolLocked (call.acts t) ↔ ¬ call.Leaks poolLocked t := by
  cases call with
  | openShm | openInput =>
    simp only [LockingCall.acts, LockingCall.Leaks, installActs_eq]
    cases poolLocked <;> split_ifs <;> simp_all <;> decide
  | transferInstallMany =>
    simp only [LockingCall.acts, LockingCall.Leaks, not_false_eq_true, iff_true]
    cases poolLocked <;> split_ifs <;> cases t.search <;> decide
  | _ =>
    simp only [LockingCall.acts, LockingCall.Leaks, not_false_eq_true, iff_true, openActs,
      lookupRefActs, installActs_eq]
    -- one goal for each way out, on which the call's acts are a fixed list
    cases poolLocked <;> split_ifs <;> decide

/-! ## The calls of the descriptor layer -/

def searchOf : Except FdError Nat → Search
  | .ok _ => .found
  | .error .noMemory => .growthFails
  | .error _ => .full

/-- What an opener finds in the pool and in table `n`. -/
def Files.openTests (k : Files) (n : Nat) (heap : Nat → Bool) (invalid : Bool) : Tests :=
  ⟨invalid, false, k.fileAllocate.isNone, false, false, false, false, false, false, false, false,
    (k.tables[n]?).elim .full fun table => searchOf (table.claim heap 0 fdMax).2, .found⟩

theorem Table.claim_ne_full (heap : Nat → Bool) (start fuel : Nat) (table : Table) :
    (table.claim heap start fuel).2 ≠ .error .fileTableFull := by
  induction fuel generalizing table with
  | zero => simp [Table.claim]
  | succ fuel ih =>
    rw [Table.claim]
    split
    · simp
    split
    · simp
    split
    · rename_i e hgrow
      rintro ⟨⟩
      unfold Table.grow at hgrow
      dsimp only at hgrow
      split_ifs at hgrow <;> cases hgrow
    · exact ih _

theorem Files.openFile_full_iff (k : Files) (n : Nat) (heap : Nat → Bool) (d : Description)
    (flags : Nat) :
    (k.openFile n heap d flags).2 = .error .fileTableFull ↔ k.fileAllocate.isNone = true := by
  unfold Files.openFile
  cases k.fileAllocate with
  | none => simp
  | some i =>
    have hinstall : ((k.setFile i d).fdInstall n heap i flags).2 ≠ .error .fileTableFull := by
      unfold Files.fdInstall
      split
      · simp
      rename_i table _
      have hclaim := table.claim_ne_full heap 0 fdMax
      generalize table.claim heap 0 fdMax = out at hclaim ⊢
      rcases out with ⟨table', e | fd⟩
      · exact hclaim
      · simp
    dsimp only
    generalize (k.setFile i d).fdInstall n heap i flags = out at hinstall ⊢
    rcases out with ⟨k', e | fd⟩
    · simpa using hinstall
    · simp

/-- The two openers keep the lock of the pool exactly where they report that it is full. -/
theorem leaks_iff_full (k : Files) (n : Nat) (heap : Nat → Bool) :
    (∀ id readable writable flags,
      LockingCall.openShm.Leaks true (k.openTests n heap (!readable && !writable)) ↔
        (k.openShm n heap id readable writable flags).2 = .error .fileTableFull) ∧
    (LockingCall.openInput.Leaks true (k.openTests n heap false) ↔
      (k.openInput n heap).2 = .error .fileTableFull) := by
  constructor
  · intro id readable writable flags
    unfold Files.openShm
    split
    next hinvalid => simp [LockingCall.Leaks, Files.openTests, hinvalid]
    next hvalid =>
      rw [Files.openFile_full_iff]
      simp [LockingCall.Leaks, Files.openTests, hvalid]
  · rw [Files.openInput, Files.openFile_full_iff]
    simp [LockingCall.Leaks, Files.openTests]

/-- A valid request to a pool without a free description. -/
def fullPool : Tests :=
  ⟨false, false, true, false, false, false, false, false, false, false, false, .found, .found⟩

theorem openShm_keeps_pool_locked :
    HeldLocks.run true ⟨false, false, false⟩ (LockingCall.openShm.acts fullPool) =
        some ⟨true, false, false⟩ ∧
      ¬ Disciplined true (LockingCall.openShm.acts fullPool) := by
  decide

end XsCore.File
