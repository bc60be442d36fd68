import XsCore.File.References

/-! # Advisory locks

`xscore_fd_flock` of `kernel/file.c`.  A lock belongs to an open file description, so descriptors
that share a description share its lock, and it goes with the last reference.  The call keeps a
reference while it waits; each round of its loop is one step.
-/

namespace XsCore.File

open XsCore.Ipc Function List

variable {busy : Nat → Prop}

/-- What a call asks for: a lock or, with `AKAOS_LOCK_UN`, to give its lock up. -/
structure FlockRequest where
  lock : Option LockKind
  nonblock : Bool

/-- The operation of the call: one of `AKAOS_LOCK_SH`, `AKAOS_LOCK_EX` and `AKAOS_LOCK_UN`, perhaps
with `AKAOS_LOCK_NB`. -/
def FlockRequest.ofOperation : Nat → Option FlockRequest
  | 1 => some ⟨some .shared, false⟩
  | 2 => some ⟨some .exclusive, false⟩
  | 8 => some ⟨none, false⟩
  | 5 => some ⟨some .shared, true⟩
  | 6 => some ⟨some .exclusive, true⟩
  | 12 => some ⟨none, true⟩
  | _ => none

/-- Two locks that two descriptions of a node cannot hold at the same time. -/
def LockKind.conflicts (lock other : LockKind) : Bool := lock = .exclusive || other = .exclusive

def Files.flockConflict (k : Files) (f n : Nat) (lock : LockKind) : Bool :=
  (range filePoolSize).any fun g =>
    g ≠ f && (k.files g).references ≠ 0 && (k.files g).object = some (.vnode n) &&
      (k.files g).flock.any lock.conflicts

inductive FlockResult where
  | granted
  | error (e : FdError)
  | interrupted
  | again
  deriving DecidableEq

/-- One round of `xscore_fd_flock` on a description it has looked up; `pending` is whether a signal
waits for the caller. -/
def Files.flockRound (k : Files) (f : Nat) (request : FlockRequest) (pending : Bool) :
    Files × FlockResult :=
  match (k.files f).object with
  | some (.vnode n) =>
    if request.lock.any fun lock => k.flockConflict f n lock then
      (k, if request.nonblock then .error .again else if pending then .interrupted else .again)
    else (k.setFile f { k.files f with flock := request.lock }, .granted)
  | _ => (k, .error .invalid)

/-- `xscore_fd_flock` up to where it returns or first goes to sleep; a call that sleeps keeps its
reference. -/
def Files.fdFlock (k : Files) (t d operation : Nat) (pending : Bool) : Files × FlockResult :=
  match FlockRequest.ofOperation operation with
  | none => (k, .error .invalid)
  | some request =>
    match k.lookupRef t d with
    | none => (k, .error .badFile)
    | some (k, f) =>
      match k.flockRound f request pending with
      | (k, .again) => ({ k with held := f ::ₘ k.held }, .again)
      | (k, result) => (k.release f, result)

inductive LockOp where
  | call (op : Op)
  | flock (t d operation : Nat) (pending : Bool)
  | retry (f : Nat) (request : FlockRequest) (pending : Bool)

def Files.lockStep (k : Files) : LockOp → Files
  | .call op => k.step op
  | .flock t d operation pending => (k.fdFlock t d operation pending).1
  | .retry f request pending => if f ∈ k.held then (k.flockRound f request pending).1 else k

def Files.lockOn (k : Files) (n f : Nat) : Option LockKind :=
  if (k.files f).object = some (.vnode n) then (k.files f).flock else none

/-! ## What other calls do to locks -/

def Files.Cleared (k : Files) : Prop :=
  ∀ f < filePoolSize, (k.files f).references = 0 → (k.files f).flock = none

/-- A description keeps its lock and its object, or is without a lock afterwards; the console's
descriptions keep their objects. -/
structure Keeps (k k' : Files) : Prop where
  kept : ∀ f, (k'.files f).flock = none ∨
    (k'.files f).flock = (k.files f).flock ∧ (k'.files f).object = (k.files f).object
  console : ∀ f, filePoolSize ≤ f → (k'.files f).object = (k.files f).object

/-- A step that gives no lock to anybody. -/
structure Calm (k k' : Files) : Prop extends Keeps k k' where
  cleared : k.Cleared → k'.Cleared

open Calm

variable {k k' k'' : Files} {f i t d n : Nat}

theorem Keeps.of_files (h : k'.files = k.files) : Keeps k k' := by
  refine ⟨fun f => .inr ?_, fun f _ => ?_⟩
  · rw [h]
    exact ⟨rfl, rfl⟩
  · rw [h]

theorem Keeps.trans (h : Keeps k k') (h' : Keeps k' k'') : Keeps k k'' := by
  refine ⟨fun f => ?_, fun f hf => (h'.console f hf).trans (h.console f hf)⟩
  rcases h'.kept f with hnone | ⟨hlock, hobject⟩
  · exact .inl hnone
  rcases h.kept f with hnone | ⟨hlock', hobject'⟩
  · exact .inl (hlock.trans hnone)
  · exact .inr ⟨hlock.trans hlock', hobject.trans hobject'⟩

theorem Files.setFile_files (k : Files) (f g : Nat) (d : Description) :
    (k.setFile f d).files g = if g = f then d else k.files g := update_apply ..

theorem Keeps.setFile (k : Files) {d : Description}
    (hd : d.flock = (k.files f).flock ∧ d.object = (k.files f).object ∨
      d.flock = none ∧ f < filePoolSize) : Keeps k (k.setFile f d) := by
  refine ⟨fun g => ?_, fun g hg => ?_⟩
  · rw [k.setFile_files]
    split_ifs with hgf
    · rw [hgf]
      exact hd.symm.imp_left And.left
    · exact .inr ⟨rfl, rfl⟩
  · rw [k.setFile_files]
    split_ifs with hgf
    · rw [hgf]
      exact hd.elim And.right fun hnone => absurd hnone.2 (by omega)
    · rfl

theorem fileRelease_keeps (n : Nat) (k : Files) (f : Nat) : Keeps k (fileRelease n k f) := by
  induction n generalizing k f with
  | zero => exact .of_files rfl
  | succ n ih =>
    unfold fileRelease
    dsimp only
    have hless : Keeps k
        (k.setFile f { k.files f with references := (k.files f).references - 1 }) :=
      .setFile k (.inl ⟨rfl, rfl⟩)
    split_ifs with hzero hlast
    · exact .of_files rfl
    · cases (k.files f).handle with
      | none => exact hless.trans (.setFile _ (.inr ⟨rfl, hlast.2⟩))
      | some h =>
        refine Keeps.trans ?_ (.setFile _ (.inr ⟨rfl, hlast.2⟩))
        exact foldlRecOn _ _ (hless.trans (.of_files rfl)) fun k h g _ => h.trans (ih k g)
    · exact hless

def Files.ClearedBut (k : Files) (busy : Nat → Prop) : Prop :=
  ∀ f < filePoolSize, ¬ busy f → (k.files f).references = 0 → (k.files f).flock = none

theorem Files.ClearedBut.setFile (h : k.ClearedBut fun g => busy g ∨ g = f) {d : Description}
    (hd : busy f ∨ filePoolSize ≤ f ∨ (d.references = 0 → d.flock = none)) :
    (k.setFile f d).ClearedBut busy := by
  intro g hpool hbusy hzero
  rw [k.setFile_files] at hzero ⊢
  split_ifs at hzero ⊢ with hg
  · subst hg
    rcases hd with hd | hd | hd
    · exact absurd hd hbusy
    · omega
    · exact hd hzero
  · exact h g hpool (by simp [hbusy, hg]) hzero

/-- A release clears the lock of every description whose last reference it drops. -/
theorem fileRelease_clearedBut (n : Nat) (h : k.ClearedBut busy) (f : Nat) :
    (fileRelease n k f).ClearedBut busy := by
  induction n generalizing k f busy with
  | zero => exact h
  | succ n ih =>
    have hwide : ∀ busy', (∀ g, busy g → busy' g) → k.ClearedBut busy' :=
      fun busy' hle g hpool hg => h g hpool fun hbusy => hg (hle g hbusy)
    unfold fileRelease
    dsimp only
    split_ifs with hzero hlast
    · exact h
    · -- While its object is released, the description still has its lock.
      have hless : Files.ClearedBut
          (k.setFile f { k.files f with references := (k.files f).references - 1 })
          fun g => busy g ∨ g = f :=
        (hwide _ fun g hg => .inl (.inl hg)).setFile (.inl (.inr rfl))
      cases (k.files f).handle with
      | none => exact hless.setFile (.inr (.inr fun _ => rfl))
      | some h =>
        refine Files.ClearedBut.setFile ?_ (.inr (.inr fun _ => rfl))
        exact foldlRecOn (motive := (Files.ClearedBut · _)) _ _ hless fun _ hk g _ => ih hk g
    · refine (hwide _ fun g hg => .inl hg).setFile (.inr ?_)
      by_cases hpool : filePoolSize ≤ f
      · exact .inl hpool
      exact .inr fun hone => by
        have hpred : (k.files f).references - 1 = 0 := hone
        omega

theorem Calm.of_files (h : k'.files = k.files) : Calm k k' := by
  refine ⟨.of_files h, fun hcleared => ?_⟩
  unfold Files.Cleared
  rw [h]
  exact hcleared

theorem Calm.refl (k : Files) : Calm k k := .of_files rfl

theorem Calm.trans (h : Calm k k') (h' : Calm k' k'') : Calm k k'' :=
  ⟨h.toKeeps.trans h'.toKeeps, fun hcleared => h'.cleared (h.cleared hcleared)⟩

theorem Calm.with_files (h : Calm k k') (hfiles : k''.files = k'.files) : Calm k k'' :=
  h.trans (.of_files hfiles)

theorem Calm.after (h : Calm k' k'') (hfiles : k'.files = k.files) : Calm k k'' :=
  (of_files hfiles).trans h

theorem Calm.release (k : Files) (f : Nat) : Calm k (k.release f) := by
  refine ⟨fileRelease_keeps _ k f, fun hcleared g hpool hzero => ?_⟩
  have hbut : k.ClearedBut fun _ => False := fun g hpool _ hzero => hcleared g hpool hzero
  exact fileRelease_clearedBut _ hbut f g hpool id hzero

theorem Files.Cleared.setFile (h : k.Cleared) {d : Description}
    (hd : f < filePoolSize → d.references = 0 → d.flock = none) : (k.setFile f d).Cleared := by
  intro g hpool hzero
  rw [k.setFile_files] at hzero ⊢
  split_ifs at hzero ⊢ with hg
  · exact hd (hg ▸ hpool) hzero
  · exact h g hpool hzero

theorem Calm.setFile (k : Files) (hi : i < filePoolSize) {d : Description} (hd : d.flock = none) :
    Calm k (k.setFile i d) :=
  ⟨.setFile k (.inr ⟨hd, hi⟩), fun hcleared => hcleared.setFile fun _ _ => hd⟩

theorem Calm.status (k : Files) {d : Description} (hlock : d.flock = (k.files f).flock)
    (hobject : d.object = (k.files f).object)
    (hused : d.references = 0 → (k.files f).references = 0) : Calm k (k.setFile f d) := by
  refine ⟨.setFile k (.inl ⟨hlock, hobject⟩), fun hcleared => hcleared.setFile fun hpool hzero => ?_⟩
  rw [hlock]
  exact hcleared f hpool (hused hzero)

theorem Calm.acquire (k : Files) (f : Nat) : Calm k (k.fileAcquire f) := by
  have hset : Calm k (k.setFile f { k.files f with references := (k.files f).references + 1 }) :=
    .status k rfl rfl fun hzero => absurd hzero (Nat.succ_ne_zero _)
  exact hset.with_files rfl

theorem Calm.foldl {α : Type} {step : Files → α → Files} (hstep : ∀ k a, Calm k (step k a))
    (as : List α) (k : Files) : Calm k (as.foldl step k) :=
  as.foldlRecOn step (.refl k) fun k' h a _ => h.trans (hstep k' a)

/-! ## Every other call is calm -/

variable {heap : Nat → Bool}

theorem Files.putSlot_files (k : Files) (t d : Nat) (slot : Slot) :
    (k.putSlot t d slot).files = k.files := by
  unfold Files.putSlot
  cases k.tables[t]? <;> rfl

theorem Calm.fdInstall (k : Files) (t : Nat) (heap : Nat → Bool) (f flags : Nat) :
    Calm k (k.fdInstall t heap f flags).1 := by
  unfold Files.fdInstall
  rcases k.tables[t]? with _ | table
  · exact .refl k
  dsimp only
  rcases hclaim : table.claim heap 0 fdMax with ⟨grown, e | d⟩
  · exact .of_files rfl
  · exact (acquire _ f).after rfl

theorem Calm.openFile (k : Files) (t : Nat) {d : Description} (hd : d.flock = none) (flags : Nat) :
    Calm k (k.openFile t heap d flags).1 := by
  unfold Files.openFile
  rcases hi : k.fileAllocate with _ | i
  · exact .refl k
  have hpool := (Files.fileAllocate_spec hi).1
  have hset : Calm k (k.setFile i d) := .setFile k hpool hd
  have hinstall := hset.trans (.fdInstall _ t heap i flags)
  dsimp only
  generalize (k.setFile i d).fdInstall t heap i flags = out at hinstall ⊢
  rcases out with ⟨k', e | fd⟩
  · exact hinstall.trans (.setFile k' hpool rfl)
  · exact hinstall

theorem Calm.openNode (k : Files) (t n : Nat) {d : Description} (hd : d.flock = none) :
    Calm k (k.openNode t heap n d).1 := by
  unfold Files.openNode
  rcases k.objects.nodeAcquire n with _ | objects
  · exact .refl k
  have hopen : Calm k (({ k with objects := objects } : Files).openFile t heap d 0).1 :=
    (openFile _ t hd 0).after rfl
  dsimp only
  generalize Files.openFile t heap _ d 0 = out at hopen ⊢
  rcases out with ⟨k', e | fd⟩
  · exact hopen.with_files rfl
  · exact hopen

theorem Calm.openPtmx (k : Files) (t : Nat) (device : Bool) :
    Calm k (k.openPtmx t heap device).1 := by
  unfold Files.openPtmx
  rcases (range ptyMax).find? fun n => !(k.objects.ptys n).inUse with _ | n
  · exact .refl k
  dsimp only
  rcases device with _ | _
  · exact .of_files rfl
  have hopen : Calm k ((k.setPty n freshPty).openFile t heap
      (describe (.ptyMaster n) true true) 0).1 :=
    (openFile _ t rfl 0).after rfl
  generalize Files.openFile t heap _ _ 0 = out at hopen ⊢
  rcases out with ⟨k', e | fd⟩
  · exact hopen.with_files rfl
  · exact hopen

theorem Calm.openPts (k : Files) (t n : Nat) (readable writable : Bool) :
    Calm k (k.openPts t heap n readable writable).1 := by
  unfold Files.openPts
  split
  · exact .refl k
  rcases hi : k.fileAllocate with _ | i
  · exact .refl k
  have hpool := (Files.fileAllocate_spec hi).1
  have hset : Calm k ((k.setPty n (k.objects.ptys n).addSlave).setFile i
      (describe (.ptySlave n) readable writable)) :=
    (setFile _ hpool rfl).after rfl
  have hinstall := hset.trans (.fdInstall _ t heap i 0)
  dsimp only
  generalize Files.fdInstall t heap _ i 0 = out at hinstall ⊢
  rcases out with ⟨k', e | fd⟩
  · refine trans ?_ (.setFile _ hpool rfl)
    exact hinstall.with_files rfl
  · exact hinstall

theorem Calm.openSocket (k : Files) (t : Nat) (heap : Nat → Bool) (s : Nat) :
    Calm k (k.openSocket t heap s).1 := by
  unfold Files.openSocket
  rcases hi : k.fileAllocate with _ | i
  · exact .refl k
  have hset : Calm k (k.setFile i (describe (.socket s) true true)) :=
    .setFile k (Files.fileAllocate_spec hi).1 rfl
  have hinstall := hset.trans (.fdInstall _ t heap i 0)
  dsimp only
  generalize Files.fdInstall t heap _ i 0 = out at hinstall ⊢
  rcases out with ⟨k', e | fd⟩
  · exact hinstall.trans (.release k' i)
  · exact hinstall

theorem Calm.socketClose (k : Files) (s : Nat) : Calm k (k.socketClose s) :=
  (foldl release _ _).after rfl

theorem Calm.socket (k : Files) (t : Nat) (domain : Domain) (kind : SocketKind) :
    Calm k (k.socket t heap domain kind).1 := by
  unfold Files.socket
  split_ifs
  · exact .refl k
  · exact .refl k
  rcases freeSocket k.objects.sockets with _ | s
  · exact .refl k
  have hopen : Calm k ((k.setSockets (update k.objects.sockets s
      (newSocket domain kind))).openSocket t heap s).1 :=
    (openSocket _ t heap s).after rfl
  dsimp only
  generalize Files.openSocket t heap _ s = out at hopen ⊢
  rcases out with ⟨k', e | fd⟩
  · exact hopen.trans (.socketClose k' s)
  · exact hopen

theorem Calm.pipeCreate (k : Files) (t : Nat) (cloexec nonblock : Bool) :
    Calm k (k.pipeCreate t heap cloexec nonblock).1 := by
  unfold Files.pipeCreate
  rcases (range pipePoolSize).find? fun p => !(k.objects.pipes p).inUse with _ | p
  · exact .refl k
  cases hfree : (range filePoolSize).filter fun i =>
      decide ((k.files i).references = 0 ∧ (k.files i).object = none) with
  | nil => exact .refl k
  | cons i rest =>
    rcases rest with _ | ⟨j, rest⟩
    · exact .refl k
    have hpool : ∀ g ∈ i :: j :: rest, g < filePoolSize := by
      intro g hg
      rw [← hfree] at hg
      exact mem_range.mp (mem_filter.mp hg).1
    have hi := hpool i (by simp)
    have hj := hpool j (by simp)
    dsimp only
    generalize (if cloexec then fdCloexec else 0) = flags
    generalize hfilled : (Files.setFile _ i _).setFile j _ = filled
    have hready : Calm k filled := by
      rw [← hfilled]
      refine trans ?_ (.setFile _ hj rfl)
      exact (setFile _ hi rfl).after rfl
    have hread := hready.trans (.fdInstall filled t heap i flags)
    generalize filled.fdInstall t heap i flags = out at hread ⊢
    rcases out with ⟨k₁, e | rfd⟩
    · refine trans (trans ?_ (.setFile _ hi rfl)) (.setFile _ hj rfl)
      exact hread.with_files rfl
    have hwrite := hread.trans (.fdInstall k₁ t heap j flags)
    dsimp only
    generalize k₁.fdInstall t heap j flags = out' at hwrite ⊢
    rcases out' with ⟨k₂, e | wfd⟩
    · have hclosed : Calm k ((k₂.putSlot t rfd .empty).release i) :=
        (hwrite.with_files (Files.putSlot_files _ _ _ _)).trans (.release _ i)
      refine trans ?_ (.setFile _ hj rfl)
      exact hclosed.with_files rfl
    · exact hwrite

theorem Calm.close (k : Files) (t d : Nat) : Calm k (k.close t d).1 := by
  unfold Files.close
  cases k.lookup t d with
  | none => exact .refl k
  | some f => exact (of_files (Files.putSlot_files k t d .empty)).trans (.release _ f)

theorem Calm.closeWhere (k : Files) (t : Nat) (select : Nat → Slot → Bool) :
    Calm k (k.closeWhere t select) := by
  refine .foldl (fun k d => ?_) _ k
  rcases k.slot t d with _ | slot
  · exact .refl k
  dsimp only
  split
  · have hdrop : Calm k (slot.file.elim k k.release) := by
      cases slot.file with
      | none => exact .refl k
      | some f => exact .release k f
    exact hdrop.with_files (Files.putSlot_files _ _ _ _)
  · exact .refl k

theorem Calm.closeAll (k : Files) (t : Nat) : Calm k (k.closeAll t) := by
  have hclose := closeWhere k t fun _ _ => true
  unfold Files.closeAll
  dsimp only
  split
  · exact hclose.with_files rfl
  · exact hclose

theorem Calm.share (k : Files) (t : Nat) (table : Table) (d f flags : Nat) :
    Calm k (k.share t table d f flags) :=
  (acquire _ f).after rfl

theorem Calm.dup (k : Files) (t d : Nat) : Calm k (k.dup t d heap).1 := by
  unfold Files.dup
  rcases k.lookup t d with _ | f
  · exact .refl k
  rcases k.tables[t]? with _ | table
  · exact .refl k
  dsimp only
  rcases table.claim heap 0 fdMax with ⟨grown, e | target⟩
  · exact .of_files rfl
  · exact .share k t grown target f 0

theorem Calm.dupFrom (k : Files) (t d start : Nat) (cloexec : Bool) :
    Calm k (k.dupFrom t d heap start cloexec).1 := by
  unfold Files.dupFrom
  split
  · exact .refl k
  split
  · exact .refl k
  rcases k.lookup t d with _ | f
  · exact .refl k
  rcases k.tables[t]? with _ | table
  · exact .refl k
  dsimp only
  rcases table.grow heap (start + 1) with e | grown
  · exact .refl k
  dsimp only
  rcases grown.claim heap start fdMax with ⟨grown, e | target⟩
  · exact .of_files rfl
  · exact .share k t grown target f _

theorem Calm.dup2 (k : Files) (t old new : Nat) : Calm k (k.dup2 t old new heap).1 := by
  unfold Files.dup2
  split
  · exact .refl k
  rcases k.tables[t]? with _ | table
  · exact .refl k
  dsimp only
  rcases (if table.capacity ≤ new then table.grow heap (new + 1) else .ok table) with e | grown
  · exact .refl k
  dsimp only
  rcases grown.entry old with _ | f
  · exact .of_files rfl
  dsimp only
  split
  · exact .of_files rfl
  have hdrop : Calm k ((grown.entry new).elim (k.setTable t grown)
      (k.setTable t grown).release) := by
    cases grown.entry new with
    | none => exact .of_files rfl
    | some g => exact (release _ g).after rfl
  exact (hdrop.with_files (Files.putSlot_files _ _ _ _)).trans (.acquire _ f)

theorem Calm.tableInitialize (k : Files) : Calm k k.tableInitialize := by
  refine trans (trans ?_ (.acquire _ consoleOutput)) (.acquire _ consoleError)
  exact (acquire _ consoleInput).after rfl

theorem Calm.tableClone (k : Files) (t : Nat) : Calm k (k.tableClone t heap).1 := by
  unfold Files.tableClone
  rcases k.tables[t]? with _ | src
  · exact .of_files rfl
  dsimp only
  cases Table.storageReset.grow heap src.capacity with
  | error e => exact .of_files rfl
  | ok dest => exact (foldl acquire _ _).after rfl

theorem Calm.setFd (k : Files) (t d flags : Nat) : Calm k (k.setFd t d flags).1 := by
  unfold Files.setFd
  rcases k.slot t d with _ | slot
  · exact .refl k
  dsimp only
  split_ifs
  · exact .refl k
  · exact .refl k
  · exact .of_files (Files.putSlot_files _ _ _ _)

theorem Calm.lookupRef {k' : Files} (h : k.lookupRef t d = some (k', f)) : Calm k k' := by
  obtain ⟨g, -, heq⟩ := Option.map_eq_some_iff.mp h
  rw [← (Prod.mk.inj heq).1]
  exact .acquire k g

theorem Calm.setFl (k : Files) (t d : Nat) (append nonblock : Bool) :
    Calm k (k.setFl t d append nonblock).1 := by
  unfold Files.setFl
  rcases hlookup : k.lookupRef t d with _ | ⟨k', f⟩
  · exact .refl k
  · refine (lookupRef hlookup).trans (trans ?_ (.release _ f))
    exact .status k' rfl rfl id

theorem Calm.transferAcquire (k : Files) (t d : Nat) : Calm k (k.transferAcquire t d).1 := by
  unfold Files.transferAcquire
  rcases hlookup : k.lookupRef t d with _ | ⟨k', f⟩
  · exact .refl k
  have hfound := lookupRef hlookup
  dsimp only
  split
  · exact hfound.trans (.release k' f)
  · exact hfound

theorem Calm.transferAcquireAll (t : Nat) (ds acquired : List Nat) (k : Files) :
    Calm k (Files.transferAcquireAll t ds acquired k).1 := by
  induction ds generalizing acquired k with
  | nil => exact .refl k
  | cons d ds ih =>
    have hfirst := transferAcquire k t d
    unfold Files.transferAcquireAll
    generalize k.transferAcquire t d = out at hfirst ⊢
    rcases out with ⟨k', e | f⟩
    · exact hfirst.trans (.foldl release _ _)
    · exact hfirst.trans (ih _ k')

theorem Calm.socketAcquire (k : Files) (t d : Nat) : Calm k (k.socketAcquire t d).1 := by
  unfold Files.socketAcquire
  rcases hlookup : k.lookupRef t d with _ | ⟨k', f⟩
  · exact .refl k
  have hfound := lookupRef hlookup
  dsimp only
  split
  · split
    · exact hfound
    · exact hfound.trans (.release k' f)
  · exact hfound.trans (.release k' f)

theorem Calm.sendmsg (k : Files) (t d : Nat) (bytes : List UInt8) (ds : List Nat) :
    Calm k (k.sendmsg t d bytes ds).1 := by
  have hacquire := transferAcquireAll t ds [] k
  unfold Files.sendmsg
  generalize Files.transferAcquireAll t ds [] k = out at hacquire ⊢
  rcases out with ⟨k₁, e | transfers⟩
  · exact hacquire
  have hsocket := hacquire.trans (.socketAcquire k₁ t d)
  dsimp only
  generalize k₁.socketAcquire t d = out' at hsocket ⊢
  rcases out' with ⟨k₂, e | ⟨s, reference⟩⟩
  · exact hsocket.trans (.foldl release _ _)
  dsimp only
  split
  · refine trans ?_ (.release _ reference)
    exact hsocket.with_files rfl
  · exact (hsocket.trans (.release k₂ reference)).trans (.foldl release _ _)

theorem Calm.installMany (k : Files) (t : Nat) (heap : Nat → Bool) (files : List Nat) :
    Calm k (k.installMany t heap files).1 := by
  unfold Files.installMany
  rcases k.tables[t]? with _ | table
  · exact .refl k
  dsimp only
  rcases table.claimMany heap files.length fdMax
      ((table.freeIn 0 table.capacity).take files.length) with ⟨grown, e | found⟩
  · exact .of_files rfl
  · refine (foldl (fun k df => ?_) _ _).after rfl
    exact (of_files (Files.putSlot_files _ _ _ _)).trans (.acquire _ df.2)

theorem Calm.deliver (k : Files) (t : Nat) (found : List Nat) (cloexec faults : Bool) :
    Calm k (k.deliver t found cloexec faults) := by
  have hmark : Calm k (if cloexec then found.foldl (fun k d => (k.setFd t d fdCloexec).1) k
      else k) := by
    split
    · exact .foldl (fun k d => .setFd k t d fdCloexec) _ _
    · exact .refl k
  unfold Files.deliver
  dsimp only
  split
  · exact hmark.trans (.foldl (fun k d => .close k t d) _ _)
  · exact hmark

theorem Calm.recvmsg (k : Files) (t d capacity fdCapacity : Nat) (cloexec faults : Bool) :
    Calm k (k.recvmsg t d capacity fdCapacity heap cloexec faults).1 := by
  have hsocket := socketAcquire k t d
  unfold Files.recvmsg
  generalize k.socketAcquire t d = out at hsocket ⊢
  rcases out with ⟨k₁, e | ⟨s, reference⟩⟩
  · exact hsocket
  dsimp only
  split
  · exact hsocket.trans (.release k₁ reference)
  · exact hsocket.trans (.release k₁ reference)
  rename_i receipt _
  have hinstall := hsocket.trans
    (.installMany k₁ t heap (receipt.files.take receipt.delivered))
  generalize k₁.installMany t heap (receipt.files.take receipt.delivered) = out' at hinstall ⊢
  rcases out' with ⟨k₂, e | found⟩
  · exact hinstall.trans (.release k₂ reference)
  refine trans ?_ (.deliver _ t found cloexec faults)
  refine trans (trans ?_ (.foldl release _ _)) (.release _ reference)
  exact hinstall.with_files rfl

theorem Calm.recv (k : Files) (t d len : Nat) : Calm k (k.recv t d len).1 := by
  have hsocket := socketAcquire k t d
  unfold Files.recv
  generalize k.socketAcquire t d = out at hsocket ⊢
  rcases out with ⟨k₁, e | ⟨s, reference⟩⟩
  · exact hsocket
  · refine trans (trans ?_ (.foldl release _ _)) (.release _ reference)
    exact hsocket.with_files rfl

theorem Calm.socketId (k : Files) (t d : Nat) : Calm k (k.socketId t d).1 := by
  unfold Files.socketId
  rcases hlookup : k.lookupRef t d with _ | ⟨k', f⟩
  · exact .refl k
  · exact (lookupRef hlookup).trans (.release k' f)

theorem Calm.listen (k : Files) (t d : Nat) : Calm k (k.listen t d).1 := by
  have hid := socketId k t d
  unfold Files.listen
  generalize k.socketId t d = out at hid ⊢
  rcases out with ⟨k₁, _ | s⟩
  · exact hid
  dsimp only
  split_ifs
  · exact hid
  · exact hid
  · exact hid.with_files rfl

theorem Calm.connect (k : Files) (t d l : Nat) : Calm k (k.connect t d l).1 := by
  have hid := socketId k t d
  unfold Files.connect
  generalize k.socketId t d = out at hid ⊢
  rcases out with ⟨k₁, _ | s⟩
  · exact hid
  dsimp only
  split
  · exact hid
  · exact hid.with_files rfl

theorem Calm.accept (k : Files) (t d : Nat) : Calm k (k.accept t d heap).1 := by
  have hid := socketId k t d
  unfold Files.accept
  generalize k.socketId t d = out at hid ⊢
  rcases out with ⟨k₁, _ | l⟩
  · exact hid
  dsimp only
  split
  · exact hid
  · exact hid.with_files rfl
  rename_i sockets c _
  have htaken : Calm k (k₁.setSockets sockets) := hid.with_files rfl
  have hopen := htaken.trans (.openSocket (k₁.setSockets sockets) t heap c)
  generalize (k₁.setSockets sockets).openSocket t heap c = out' at hopen ⊢
  rcases out' with ⟨k₂, e | fd⟩
  · exact hopen.trans (.socketClose k₂ c)
  · exact hopen

theorem Calm.step (k : Files) (op : Op) : Calm k (k.step op) := by
  have hplain := Files.step_plain (refl k) fun t _ _ _ _ _ flags _ => .openFile k t rfl flags
  cases op with
  | openMemory | openGenerated | openShm | openInput | openFramebuffer | openCharacter
  | openSignalfd => exact hplain _ rfl
  | tableInitialize => exact .tableInitialize k
  | tableClone t heap => exact .tableClone k t
  | openDirectory t heap n =>
    rw [Files.step, Files.openDirectory]
    split_ifs
    · exact .openNode k t n rfl
    · exact .openFile k t rfl 0
  | openVnode t heap n mode append =>
    rw [Files.step, Files.openVnode]
    exact .openNode k t n rfl
  | openPtmx t heap device => exact .openPtmx k t device
  | openPts t heap n readable writable => exact .openPts k t n readable writable
  | socket t heap domain kind => exact .socket k t domain kind
  | pipeCreate t heap cloexec nonblock => exact .pipeCreate k t cloexec nonblock
  | close t d => exact .close k t d
  | closeRange t first =>
    rw [Files.step, Files.closeRange]
    split_ifs
    · exact .refl k
    · exact .closeWhere k t _
  | closeCloexec t => exact .closeWhere k t _
  | closeAll t => exact .closeAll k t
  | dup t d heap => exact .dup k t d
  | dupFrom t d heap start cloexec => exact .dupFrom k t d start cloexec
  | dup2 t old new heap => exact .dup2 k t old new
  | setFd t d flags => exact .setFd k t d flags
  | setFl t d append nonblock => exact .setFl k t d append nonblock
  | listen t d => exact .listen k t d
  | connect t d l => exact .connect k t d l
  | accept t d heap => exact .accept k t d
  | sendmsg t d bytes ds => exact .sendmsg k t d bytes ds
  | recvmsg t d capacity fdCapacity heap cloexec faults =>
    exact .recvmsg k t d capacity fdCapacity cloexec faults
  | recv t d len => exact .recv k t d len
  | hold t d =>
    rw [Files.step]
    cases hlookup : k.lookupRef t d with
    | none => exact .refl k
    | some found => exact (lookupRef hlookup).with_files rfl
  | put f =>
    show Calm k (if f ∈ k.held then ({ k with held := k.held.erase f } : Files).release f else k)
    split_ifs
    · exact (release _ f).after rfl
    · exact .refl k

end XsCore.File
