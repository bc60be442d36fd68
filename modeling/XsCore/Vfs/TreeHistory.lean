import XsCore.Foundation.Machine
import XsCore.Vfs.BootTree

/-!
# The directory tree over whole histories

The calls of the virtual file system as operations of one machine, the condition
under which each keeps the tree, and the shape of the tree after any history.
-/

namespace XsCore.Vfs

open Machine

inductive TreeOp where
  | mkdir (caller : Caller) (cwd : Nat) (path : Name) (mode : UInt32)
  | unlink (caller : Caller) (cwd : Nat) (path : Name)
  | rename (caller : Caller) (oldCwd : Nat) (oldPath : Name) (newCwd : Nat) (newPath : Name)
  | openFile (caller : Caller) (cwd : Nat) (path : Name) (flags : UInt64) (mode : UInt32)
  | acquire (id : Nat)
  | release (id : Nat)
  | chmod (caller : Caller) (cwd : Nat) (path : Name) (mode : UInt32)
  | chown (caller : Caller) (cwd : Nat) (path : Name) (uid gid : UInt32)
  | write (id : Nat) (offset length : UInt64) (src : Nat → UInt8) (pages : Nat)
  | truncate (id : Nat) (length : UInt64) (pages : Nat)

def TreeOp.apply (s : State) : TreeOp → State
  | .mkdir caller cwd path mode => (mkdirAt s caller cwd path mode).1
  | .unlink caller cwd path => (unlinkAt s caller cwd path).1
  | .rename caller oldCwd oldPath newCwd newPath =>
      (renameAt s caller oldCwd oldPath newCwd newPath).1
  | .openFile caller cwd path flags mode => (openAt s caller cwd path flags mode).1
  | .acquire id => (nodeAcquire s id).1
  | .release id => nodeRelease s id
  | .chmod caller cwd path mode => (chmodAt s caller cwd path mode).1
  | .chown caller cwd path uid gid => (chownAt s caller cwd path uid gid).1
  | .write id offset length src pages => writeNodeAt s id offset length src pages
  | .truncate id length pages => truncateNodeAt s id length pages

/-- The condition on one call in the state it starts from.  A node id that the
call uses as a table index lies in the table; a new entry gets a name, and its
directory is still linked and looked up in the table. -/
def TreeOp.Sound (s : State) : TreeOp → Prop
  | .mkdir caller cwd path _ => ParentSound s caller cwd path
  | .unlink caller cwd path =>
      ∀ target, resolvePathAt s caller cwd path = .ok target → target < maxNodes
  | .rename caller _ _ newCwd newPath =>
      ∀ parentPath name, splitPath newPath = some (parentPath, name) → name ≠ [] ∧
        ∀ parent, resolvePathAt s caller newCwd parentPath = .ok parent →
          (s.nodes parent).unlinked = false
  | .openFile caller cwd path flags _ =>
      (flags &&& oCreat ≠ 0 → (∀ target, resolvePathAt s caller cwd path ≠ .ok target) →
        ParentSound s caller cwd path) ∧
        ∀ target, resolvePathAt s caller cwd path = .ok target → flags &&& oTrunc ≠ 0 →
          target < maxNodes ∨ isGenerated s.procfs target = true
  | _ => True

theorem TreeOp.apply_inv (s : State) (op : TreeOp) (h : TreeInv s) (hsound : op.Sound s) :
    TreeInv (op.apply s) := by
  cases op with
  | mkdir caller cwd path mode => exact mkdirAt_inv h caller cwd path mode hsound
  | unlink caller cwd path => exact unlinkAt_inv h caller cwd path
  | rename caller oldCwd oldPath newCwd newPath =>
    exact renameAt_inv h caller oldCwd oldPath newCwd newPath hsound
  | openFile caller cwd path flags mode => exact openAt_inv h caller cwd path flags mode hsound.1
  | acquire id => exact nodeAcquire_inv h id
  | release id => exact nodeRelease_inv h id
  | chmod caller cwd path mode => exact chmodAt_inv h caller cwd path mode
  | chown caller cwd path uid gid => exact chownAt_inv h caller cwd path uid gid
  | write id offset length src pages => exact writeNodeAt_inv h id offset length src pages
  | truncate id length pages => exact truncateNodeAt_inv h id length pages

/-- From every boot tree, along every history of sound calls, the directory tree
keeps its shape. -/
theorem directory_tree_shape (table : Nat → Vnode) (archive : List BootEntry) (x86 : Bool)
    (hnames : ∀ entry ∈ archive, entry.NameValid) (ops : List TreeOp)
    (hsound : Guarded TreeOp.apply (fun s op => op.Sound s) (bootTree table archive x86) ops) :
    TreeShape (run TreeOp.apply (bootTree table archive x86) ops) :=
  (hsound.invariant TreeInv TreeOp.apply_inv (bootTree_inv table archive x86 hnames)).shape

/-! ## A booted tree to run on -/

def zeroNode : Vnode where
  type := .unused
  parent := 0
  name := []
  data := none
  size := 0
  mode := 0
  uid := 0
  gid := 0
  isDynamic := false
  references := 0
  unlinked := false
  blocks := noBlocks

def bareTree : State := bootTree (fun _ => zeroNode) [] true

def superuser : Caller := ⟨0, 0, fun _ => false, 1⟩

def pathA : Name := ascii ['/', 'a']
def pathB : Name := ascii ['/', 'b']

/-- A directory is made and renamed on the bare tree. -/
theorem directory_tree_shape_bareTree :
    let ops : List TreeOp := [.mkdir superuser 0 pathA 0o755, .rename superuser 0 pathA 0 pathB]
    Guarded TreeOp.apply (fun s op => op.Sound s) bareTree ops ∧
      TreeShape (run TreeOp.apply bareTree ops) := by
  have hmkdir : splitParent bareTree superuser 0 pathA = .ok (0, [97]) := by decide +kernel
  have hroot : (bareTree.nodes 0).unlinked = false ∧ ¬ Opaque bareTree 0 := by decide +kernel
  have hsplit : splitPath pathB = some ([slash], [98]) := by decide
  have hparent : resolvePathAt (mkdirAt bareTree superuser 0 pathA 0o755).1 superuser 0 [slash] =
      .ok 0 := by decide +kernel
  have hlinked : ((mkdirAt bareTree superuser 0 pathA 0o755).1.nodes 0).unlinked = false := by
    decide +kernel
  have hsound : Guarded TreeOp.apply (fun s op => op.Sound s) bareTree
      [.mkdir superuser 0 pathA 0o755, .rename superuser 0 pathA 0 pathB] := by
    refine ⟨?_, ?_, trivial⟩
    · intro parent name h
      rw [hmkdir] at h
      cases h
      exact ⟨by decide, hroot.1, hroot.2⟩
    · intro parentPath name h
      rw [hsplit] at h
      cases h
      refine ⟨by decide, ?_⟩
      intro parent h
      rw [TreeOp.apply, hparent] at h
      cases h
      exact hlinked
  exact ⟨hsound, directory_tree_shape (fun _ => zeroNode) [] true (by simp) _ hsound⟩

/-- The bare tree after creating `/a` and renaming it to `/`. -/
def renamedToRoot : State := run TreeOp.apply bareTree
  [.openFile superuser 0 pathA oCreat 0o644, .rename superuser 0 pathA 0 [slash]]

/-- The name `split_path` returns for the root path is empty, and `rename` leaves
a linked file without a name in the tree. -/
theorem rename_to_root_breaks_shape : ¬ TreeShape renamedToRoot := by
  intro h
  have hnode : (39 < maxNodes ∧ (renamedToRoot.nodes 39).used ∧
      (renamedToRoot.nodes 39).unlinked = false) ∧ (renamedToRoot.nodes 39).name = [] := by
    decide +kernel
  exact (h.named 39 hnode.1 (by decide)).1 hnode.2

end XsCore.Vfs
