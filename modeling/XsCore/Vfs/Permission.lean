import XsCore.Vfs.Content
import XsCore.Vfs.TreeHistory

/-!
# Write permission and file content

What one caller does to the files of a tree by opening a path and using the
descriptor.  `xscore_vfs_open_at` asks for write permission only when the access
mode of the flags says so, and it handles `O_TRUNC` whatever the access mode is.
-/

namespace XsCore.Vfs

open Machine

variable (room : Bool) (ops : List DescriptorOp) (node : Vnode)

/-! ## Descriptors -/

def oAppend : UInt64 := 0x400

/-- A file description of a vnode, with the flags that concern its content. -/
structure Description where
  node : Nat
  readable : Bool
  writable : Bool
  append : Bool
  offset : UInt64

/-- The description `xscore_fd_open_vnode` fills in.  The access mode 3 counts as
reading. -/
def describe (target : Nat) (flags : UInt64) : Description where
  node := target
  readable := flags &&& 3 ≠ oWronly
  writable := opensForWrite flags
  append := flags &&& oAppend ≠ 0
  offset := 0

/-- `xscore_fd_open_vnode`.  Without a free description or descriptor the reference
is given back. -/
def fdOpenVnode (s : State) (target : Nat) (flags : UInt64) (room : Bool) :
    State × Option Description :=
  match nodeAcquire s target with
  | (s', true) => if room then (s', some (describe target flags)) else (s, none)
  | (_, false) => (s, none)

/-- The descriptor half of `xscore_vfs_open_at`.  Directories and generated files
get descriptors of other kinds, which carry no file content. -/
def openDescriptor (s : State) (target : Nat) (flags : UInt64) (room : Bool) :
    State × Option Description :=
  if isProcDirectory s.procfs target ∨ (target < maxNodes ∧ (s.nodes target).type = .directory) ∨
      isGenerated s.procfs target then (s, none)
  else fdOpenVnode s target flags room

/-- The operations on a descriptor; the offset is where the last of them, a seek or
a read put it. -/
inductive DescriptorOp where
  | seek (offset : UInt64)
  /-- `synced` is the result of the commit to the disk. -/
  | write (length : UInt64) (src : Nat → UInt8) (pages : Nat) (synced : Bool)
  | truncate (length : UInt64) (pages : Nat)

def Description.position (d : Description) (s : State) : UInt64 :=
  if d.append ∧ d.node < maxNodes ∧ (s.nodes d.node).used then
    UInt64.ofNat (s.nodes d.node).size
  else d.offset

/-- The vnode part of `fd_write_file`. -/
def fdWrite (s : State) (d : Description) (length : UInt64) (src : Nat → UInt8) (pages : Nat)
    (synced : Bool) : State × Description :=
  if d.writable = false then (s, d)
  else
    let offset := d.position s
    let stored := if maxNodes ≤ d.node then none
      else (writeNode (s.nodes d.node) offset length src pages).2
    let advance := if synced then UInt64.ofNat (stored.getD 0) else 0
    (writeNodeAt s d.node offset length src pages, { d with offset := offset + advance })

/-- The vnode part of `xscore_process_ftruncate`. -/
def ftruncate (s : State) (d : Description) (length : UInt64) (pages : Nat) : State :=
  if d.writable = false then s else truncateNodeAt s d.node length pages

def DescriptorOp.apply (now : State × Description) : DescriptorOp → State × Description
  | .seek offset => (now.1, { now.2 with offset := offset })
  | .write length src pages synced => fdWrite now.1 now.2 length src pages synced
  | .truncate length pages => (ftruncate now.1 now.2 length pages, now.2)

/-- The tree after an `open` and what is done with its descriptor.  `room` says that
the commit to the disk succeeds and a descriptor is free. -/
def session (s : State) (caller : Caller) (cwd : Nat) (path : Name) (flags : UInt64)
    (mode : UInt32) (room : Bool) (ops : List DescriptorOp) : State :=
  match openAt s caller cwd path flags mode with
  | (s, .error _) => s
  | (s, .ok target) =>
      match openDescriptor s target flags room with
      | (s, none) => s
      | (s, some d) => (run DescriptorOp.apply (s, d) ops).1

/-! ## The property -/

/-- The boot image of a file that nobody may write, for which `open` fails with
`EROFS`. -/
def Vnode.readOnlyMedia (node : Vnode) : Bool :=
  node.mode &&& modeWrite = 0 && !node.isDynamic

def MayWrite (node : Vnode) (caller : Caller) : Prop :=
  nodeAllows node caller 2 = true ∧ node.readOnlyMedia = false

/-- A file of the first tree has other content or another size in the second only if
the caller may write it. -/
def WritesPermitted (caller : Caller) (before after : State) : Prop :=
  ∀ i < maxNodes, (before.nodes i).type = .regular →
    (after.nodes i).contents ≠ (before.nodes i).contents → MayWrite (before.nodes i) caller

structure Truncates (s : State) (caller : Caller) (target : Nat) (flags : UInt64) : Prop where
  flag : flags &&& oTrunc ≠ 0
  inTable : target < maxNodes
  regular : (s.nodes target).type = .regular
  stored : isProcDirectory s.procfs target = false ∧ isGenerated s.procfs target = false
  allowed : nodeAllows (s.nodes target) caller (requestedAccess flags) = true

/-- Opening for reading only truncates nothing but empty files and files that the
caller may write. -/
def TruncationPermitted (s : State) (caller : Caller) (cwd : Nat) (path : Name)
    (flags : UInt64) : Prop :=
  opensForWrite flags = false →
    ∀ target, resolvePathAt s caller cwd path = .ok target → Truncates s caller target flags →
      (s.nodes target).size = 0 ∨ MayWrite (s.nodes target) caller

/-! ## Descriptors and content -/

variable {caller : Caller} {flags : UInt64} {i target : Nat} {s : State}

theorem nodeAllows_write {node : Vnode} (hwrite : opensForWrite flags)
    (h : nodeAllows node caller (requestedAccess flags)) : nodeAllows node caller 2 := by
  unfold nodeAllows at h ⊢
  split
  · rfl
  rename_i huid
  rw [if_neg huid] at h
  simp only [decide_eq_true_eq] at h ⊢
  generalize node.mode >>> _ = bits at h ⊢
  have hrequested : requestedAccess flags &&& 2 = 2 := by
    rw [requestedAccess, if_pos hwrite]
    split <;> rfl
  calc bits &&& 2 = bits &&& (requestedAccess flags &&& 2) := by rw [hrequested]
    _ = bits &&& requestedAccess flags &&& 2 := by rw [UInt32.and_assoc]
    _ = 2 := by rw [h, hrequested]

/-- The descriptor stays the same, and the files it does not write keep their nodes. -/
structure Held (s : State) (d : Description) (now : State × Description) : Prop where
  node : now.2.node = d.node
  writable : now.2.writable = d.writable
  kept : ∀ i, d.writable = false ∨ i ≠ d.node → now.1.nodes i = s.nodes i

theorem Held.apply {d : Description} {now : State × Description} (h : Held s d now)
    (op : DescriptorOp) : Held s d (op.apply now) := by
  have hwritable := h.writable
  cases op with
  | seek offset => exact ⟨h.node, h.writable, h.kept⟩
  | write length src pages synced =>
    rw [DescriptorOp.apply, fdWrite]
    split
    · exact h
    rename_i hwrite
    refine ⟨h.node, h.writable, ?_⟩
    intro i hi
    rcases hi with hi | hi
    · exact absurd (hwritable.trans hi) hwrite
    rw [← h.kept i (.inr hi)]
    unfold writeNodeAt
    split
    · rfl
    · exact setNode_nodes_ne (by rw [h.node]; exact hi)
  | truncate length pages =>
    refine ⟨h.node, h.writable, ?_⟩
    intro i hi
    rw [DescriptorOp.apply, ftruncate]
    split
    · exact h.kept i hi
    rename_i hwrite
    rcases hi with hi | hi
    · exact absurd (hwritable.trans hi) hwrite
    rw [← h.kept i (.inr hi)]
    unfold truncateNodeAt
    split
    · rfl
    · exact setNode_nodes_ne (by rw [h.node]; exact hi)

theorem Held.run (s : State) (d : Description) (ops : List DescriptorOp) :
    Held s d (run DescriptorOp.apply (s, d) ops) :=
  run_invariant (Held s d) (fun _ op h => h.apply op) ⟨rfl, rfl, fun _ _ => rfl⟩ ops

theorem nodeAcquire_contents (s : State) (id i : Nat) :
    ((nodeAcquire s id).1.nodes i).contents = (s.nodes i).contents := by
  unfold nodeAcquire
  split
  · rfl
  dsimp only
  split
  · by_cases hi : i = id
    · subst hi
      rw [setNode_nodes_self]
      rfl
    · rw [setNode_nodes_ne hi]
  · rfl

def useDescriptor (s : State) (target : Nat) (flags : UInt64) (room : Bool)
    (ops : List DescriptorOp) : State :=
  match openDescriptor s target flags room with
  | (s, none) => s
  | (s, some d) => (run DescriptorOp.apply (s, d) ops).1

theorem useDescriptor_contents (s : State) (target : Nat) (flags : UInt64) (room : Bool)
    (ops : List DescriptorOp) (hi : opensForWrite flags = false ∨ i ≠ target) :
    ((useDescriptor s target flags room ops).nodes i).contents = (s.nodes i).contents := by
  have hacquire := nodeAcquire_contents s target i
  unfold useDescriptor openDescriptor fdOpenVnode
  by_cases hother : isProcDirectory s.procfs target ∨
      (target < maxNodes ∧ (s.nodes target).type = .directory) ∨ isGenerated s.procfs target
  · rw [if_pos hother]
  rw [if_neg hother]
  generalize nodeAcquire s target = acquired at hacquire ⊢
  rcases acquired with ⟨s', _ | _⟩
  · rfl
  rcases room with _ | _
  · rfl
  have hheld := Held.run s' (describe target flags) ops
  dsimp only at hacquire ⊢
  rw [if_pos rfl]
  rw [hheld.kept i hi]
  exact hacquire

/-! ## Opening and content -/

theorem contents_openTruncate : (openTruncate node).contents = node.contents ↔ node.size = 0 := by
  constructor
  · intro h
    exact (congrArg SparseBytes.size h).symm
  · intro hsize
    refine SparseBytes.ext hsize.symm ?_
    funext i
    simp [Vnode.contents, openTruncate, hsize]

/-- How the open of a resolved path ends: with an error, on a directory, or on a file that passed the
permission checks. -/
theorem openTarget_cases (s : State) (caller : Caller) (target : Nat) (flags : UInt64) :
    (∃ e, openTarget s caller target flags = (s, .error e)) ∨
    (opensForWrite flags = false ∧ openTarget s caller target flags = (s, .ok target)) ∨
    (nodeAllows (s.nodes target) caller (requestedAccess flags) ∧
      (opensForWrite flags → (s.nodes target).readOnlyMedia = false) ∧
      isProcDirectory s.procfs target = false ∧
      openTarget s caller target flags =
        (if flags &&& oTrunc ≠ 0 ∧ isGenerated s.procfs target = false then
          s.setNode target (openTruncate (s.nodes target)) else s, .ok target)) := by
  unfold openTarget
  rcases hproc : isProcDirectory s.procfs target with _ | _
  swap
  · cases hwrite : opensForWrite flags with
    | true => exact .inl ⟨.eisdir, by simp⟩
    | false => exact .inr (.inl ⟨rfl, by simp⟩)
  rw [if_neg (by simp)]
  split
  · cases hwrite : opensForWrite flags with
    | true => exact .inl ⟨.eisdir, by simp⟩
    | false =>
      cases hallows : nodeAllows (s.nodes target) caller 4 with
      | false => exact .inl ⟨.eacces, by simp⟩
      | true => exact .inr (.inl ⟨rfl, by simp⟩)
  by_cases hcharacter : target < maxNodes ∧ (s.nodes target).type = .character
  · exact .inl ⟨.enodev, if_pos hcharacter⟩
  rw [if_neg hcharacter]
  rcases hallows : nodeAllows (s.nodes target) caller (requestedAccess flags) with _ | _
  · exact .inl ⟨.eacces, by simp⟩
  rw [if_neg (by simp)]
  by_cases hmedia : opensForWrite flags ∧ (s.nodes target).mode &&& modeWrite = 0 ∧
      ¬ (s.nodes target).isDynamic
  · exact .inl ⟨.erofs, if_pos hmedia⟩
  rw [if_neg hmedia]
  refine .inr (.inr ⟨rfl, ?_, rfl, ?_⟩)
  · intro hwrite
    by_contra hreadOnly
    simp only [Vnode.readOnlyMedia, Bool.not_eq_false, Bool.and_eq_true,
      decide_eq_true_eq, Bool.not_eq_true'] at hreadOnly
    exact hmedia ⟨hwrite, hreadOnly.1, by simp [hreadOnly.2]⟩
  · simp only [Bool.not_eq_true]
    split <;> rfl

theorem Truncates.openTarget_eq (h : Truncates s caller target flags)
    (hread : opensForWrite flags = false) : openTarget s caller target flags =
      (s.setNode target (openTruncate (s.nodes target)), .ok target) := by
  have hregular := h.regular
  have hallowed := h.allowed
  have hflag := h.flag
  rw [openTarget, if_neg (by simp [h.stored.1]), if_neg (by simp [hregular]),
    if_neg (by simp [hregular]), if_neg (by simp [hallowed]), if_neg (by simp [hread]),
    if_pos ⟨hflag, by simp [h.stored.2]⟩]

def openedSession (s : State) (caller : Caller) (target : Nat) (flags : UInt64) (room : Bool)
    (ops : List DescriptorOp) : State :=
  match openTarget s caller target flags with
  | (s, .error _) => s
  | (s, .ok target) => useDescriptor s target flags room ops

theorem openedSession_contents (s : State) (caller : Caller) (flags : UInt64) (room : Bool)
    (ops : List DescriptorOp) (hi : i ≠ target) :
    ((openedSession s caller target flags room ops).nodes i).contents = (s.nodes i).contents := by
  unfold openedSession
  rcases openTarget_cases s caller target flags with
    ⟨e, hopen⟩ | ⟨-, hopen⟩ | ⟨-, -, -, hopen⟩
  · rw [hopen]
  · rw [hopen]
    exact useDescriptor_contents s target flags room ops (.inr hi)
  rw [hopen]
  rw [useDescriptor_contents _ target flags room ops (.inr hi)]
  split
  · rw [setNode_nodes_ne hi]
  · rfl

theorem openedSession_write
    (hwrite : opensForWrite flags) (hchanged : ((openedSession s caller target flags room
      ops).nodes target).contents ≠ (s.nodes target).contents) :
    MayWrite (s.nodes target) caller := by
  rcases openTarget_cases s caller target flags with
    ⟨e, hopen⟩ | ⟨hread, -⟩ | ⟨hallows, hmedia, -, -⟩
  · rw [openedSession, hopen] at hchanged
    exact absurd rfl hchanged
  · simp [hread] at hwrite
  · exact ⟨nodeAllows_write hwrite hallows, hmedia hwrite⟩

/-- Opened for reading, a file changes exactly when `O_TRUNC` reaches it and it is not
empty. -/
theorem openedSession_read (hread : opensForWrite flags = false) (hbound : target < maxNodes)
    (hregular : (s.nodes target).type = .regular) :
    ((openedSession s caller target flags room ops).nodes target).contents ≠
        (s.nodes target).contents ↔
      Truncates s caller target flags ∧ (s.nodes target).size ≠ 0 := by
  by_cases htruncates : Truncates s caller target flags
  · rw [openedSession, htruncates.openTarget_eq hread]
    rw [useDescriptor_contents _ target flags room ops (.inl hread), setNode_nodes_self, Ne,
      contents_openTruncate]
    exact (and_iff_right htruncates).symm
  refine iff_of_false ?_ (fun h => htruncates h.1)
  rw [not_not, openedSession]
  rcases openTarget_cases s caller target flags with
    ⟨e, hopen⟩ | ⟨-, hopen⟩ | ⟨hallows, -, hproc, hopen⟩
  · rw [hopen]
  · rw [hopen]
    exact useDescriptor_contents s target flags room ops (.inl hread)
  have hskipped : ¬ (flags &&& oTrunc ≠ 0 ∧ isGenerated s.procfs target = false) :=
    fun h => htruncates ⟨h.1, hbound, hregular, ⟨hproc, h.2⟩, hallows⟩
  rw [if_neg hskipped] at hopen
  rw [hopen]
  exact useDescriptor_contents s target flags room ops (.inl hread)

theorem openCreate_nodes (caller : Caller) (cwd : Nat) (path : Name) (flags : UInt64)
    (mode : UInt32) (hused : (s.nodes i).used) :
    (openCreate s caller cwd path flags mode).1.nodes i = s.nodes i ∧
    ∀ target, (openCreate s caller cwd path flags mode).2 = .ok target → i ≠ target := by
  unfold openCreate
  split
  · exact ⟨rfl, nofun⟩
  split
  · exact ⟨rfl, nofun⟩
  split
  · exact ⟨rfl, nofun⟩
  unfold createIn
  split
  · exact ⟨rfl, nofun⟩
  split
  · exact ⟨rfl, nofun⟩
  split
  · exact ⟨rfl, nofun⟩
  rename_i slot hslot
  obtain ⟨-, -, hfree⟩ := freeSlot_some hslot
  have hne : i ≠ slot := by
    rintro rfl
    simp [hfree] at hused
  refine ⟨Function.update_of_ne hne _ s.nodes, ?_⟩
  intro target htarget
  cases htarget
  exact hne

theorem session_eq (s : State) (caller : Caller) (cwd : Nat) (path : Name) (flags : UInt64)
    (mode : UInt32) (room : Bool) (ops : List DescriptorOp) :
    session s caller cwd path flags mode room ops =
      match resolvePathAt s caller cwd path with
      | .ok target => openedSession s caller target flags room ops
      | .error _ =>
          if path = [] then s
          else
            match openCreate s caller cwd path flags mode with
            | (s, .error _) => s
            | (s, .ok target) => openedSession s caller target flags room ops := by
  unfold session openAt
  by_cases hpath : path = []
  · subst hpath
    rfl
  rw [if_neg hpath]
  cases resolvePathAt s caller cwd path with
  | ok target => rfl
  | error e =>
    rw [if_neg hpath]
    rcases openCreate s caller cwd path flags mode with ⟨created, _ | target⟩ <;> rfl

/-- A caller changes files by opening a path and using the descriptor only where the
mode bits and the media let it write, exactly when no open for reading truncates a
file it may not write. -/
theorem writes_permitted_iff (s : State) (caller : Caller) (cwd : Nat) (path : Name)
    (flags : UInt64) (mode : UInt32) (room : Bool) (ops : List DescriptorOp) :
    WritesPermitted caller s (session s caller cwd path flags mode room ops) ↔
      TruncationPermitted s caller cwd path flags := by
  rw [session_eq]
  cases hresolve : resolvePathAt s caller cwd path with
  | ok target =>
    constructor
    · intro hpermitted hread target' htarget htruncates
      cases hresolve.symm.trans htarget
      by_cases hsize : (s.nodes target).size = 0
      · exact .inl hsize
      have hchanged := (openedSession_read room ops hread htruncates.inTable
        htruncates.regular).mpr ⟨htruncates, hsize⟩
      exact .inr (hpermitted target htruncates.inTable htruncates.regular hchanged)
    · intro htruncation i hbound hregular hchanged
      by_cases hi : i = target
      · subst hi
        cases hwrite : opensForWrite flags with
        | true => exact openedSession_write room ops hwrite hchanged
        | false =>
          rcases (openedSession_read room ops hwrite hbound hregular).mp hchanged with
            ⟨htruncates, hsize⟩
          exact (htruncation hwrite i hresolve htruncates).resolve_left hsize
      · exact absurd (openedSession_contents s caller flags room ops hi) hchanged
  | error e =>
    refine iff_of_true ?_ ?_
    · intro i hbound hregular hchanged
      exfalso
      apply hchanged
      dsimp only
      split
      · rfl
      have hused : (s.nodes i).used := by simp [Vnode.used, hregular]
      obtain ⟨hkept, hfresh⟩ := openCreate_nodes caller cwd path flags mode hused
      generalize openCreate s caller cwd path flags mode = created at hkept hfresh ⊢
      rcases created with ⟨s', _ | target⟩
      · exact congrArg Vnode.contents hkept
      · rw [openedSession_contents s' caller flags room ops (hfresh target rfl), hkept]
    · intro _ target htarget
      cases hresolve.symm.trans htarget

/-! ## A file that is lost -/

/-- The superuser makes `/a`, which everybody may read and nobody may write, and
stores one byte in it. -/
def publicNotice : State := run TreeOp.apply bareTree
  [.openFile superuser 0 pathA oCreat 0o444, .write 39 0 1 (fun _ => 65) 1]

def ordinaryUser : Caller := ⟨1000, 1000, fun _ => false, 1⟩

/-- Opened for reading with `O_TRUNC`, the file is emptied by a user who may not write
it. -/
theorem truncated_without_permission :
    (publicNotice.nodes 39).type = .regular ∧ (publicNotice.nodes 39).size = 1 ∧
    nodeAllows (publicNotice.nodes 39) ordinaryUser 2 = false ∧
    ((session publicNotice ordinaryUser 0 pathA oTrunc 0 true []).nodes 39).size = 0 ∧
    ¬ WritesPermitted ordinaryUser publicNotice
      (session publicNotice ordinaryUser 0 pathA oTrunc 0 true []) := by
  have hfacts : (publicNotice.nodes 39).type = .regular ∧ (publicNotice.nodes 39).size = 1 ∧
      nodeAllows (publicNotice.nodes 39) ordinaryUser 2 = false ∧
      ((session publicNotice ordinaryUser 0 pathA oTrunc 0 true []).nodes 39).size = 0 := by
    decide +kernel
  generalize session publicNotice ordinaryUser 0 pathA oTrunc 0 true [] = after at hfacts ⊢
  generalize publicNotice = before at hfacts ⊢
  obtain ⟨hregular, hone, hallows, hzero⟩ := hfacts
  refine ⟨hregular, hone, hallows, hzero, ?_⟩
  intro hpermitted
  have hchanged : (after.nodes 39).contents ≠ (before.nodes 39).contents := by
    intro hsame
    have hsizes : (after.nodes 39).size = (before.nodes 39).size := congrArg SparseBytes.size hsame
    omega
  have hallowed := (hpermitted 39 (by decide) hregular hchanged).1
  simp [hallows] at hallowed

end XsCore.Vfs
