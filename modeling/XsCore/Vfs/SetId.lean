import XsCore.Vfs.TreeHistory

/-! # Set-id bits of an executed file

The lookups of `xscore_process_execve`.  The path is resolved anew for the access check, for the
image and, when the image is in place, for the set-id bits.
-/

namespace XsCore.Vfs

open Machine Option

def modeIsuid : UInt32 := 0o4000
def modeIsgid : UInt32 := 0o2000

/-- A call, and what others do to the file system between its lookups; the reference that the call
takes on the image is a step too. -/
structure Exec where
  caller : Caller
  cwd : Nat
  path : Name
  search : State
  toBin : List TreeOp
  toAccess : List TreeOp
  toImage : List TreeOp
  toInterpreter : List TreeOp
  toStatus : List TreeOp
  /-- `elf_interpreter_path`. -/
  interpreterPath : Vnode → Except Errno (Option Name)
  /-- The image is accepted and there is memory for it. -/
  loads : Bool

structure Executed where
  /-- The node whose bytes are loaded. -/
  node : Nat
  /-- The node whose bits and owner are read. -/
  status : Option Nat
  uid : UInt32
  gid : UInt32
  deriving DecidableEq

def binPath (path : Name) : Name := ascii ['/', 'b', 'i', 'n', '/'] ++ path.take 122

namespace Exec

variable (e : Exec)

/-! The file system at each lookup. -/

def searchBin : State := run TreeOp.apply e.search e.toBin
def access : State := run TreeOp.apply e.searchBin e.toAccess
def image : State := run TreeOp.apply e.access e.toImage
def interpreter : State := run TreeOp.apply e.image e.toInterpreter
def status : State := run TreeOp.apply e.interpreter e.toStatus

def resolve (s : State) (cwd : Nat) (path : Name) : Option Nat :=
  (resolvePathAt s e.caller cwd path).toOption

/-- `lookup_cwd` and `final_path`. -/
def found : Option (Nat × Name) :=
  if e.path = [] then none
  else if (e.resolve e.search e.cwd e.path).isSome then some (e.cwd, e.path)
  else if e.path.head? = some slash ∨ e.path.head? = some dot then none
  else (e.resolve e.searchBin 0 (binPath e.path)).map fun _ => (0, binPath e.path)

/-- `xscore_vfs_lookup_file_ref_at`. -/
def lookupFileRef (s : State) (cwd : Nat) (path : Name) : Option Nat :=
  (e.resolve s cwd path).filter fun target =>
    target < maxNodes && (s.nodes target).type = .regular && !(s.nodes target).unlinked &&
      nodeAllows (s.nodes target) e.caller 1

/-- The lookup that the loaded bytes come from: that of the image, or of its interpreter. -/
def loadPath (cwd : Nat) (path : Name) : Option (State × Nat × Name) := do
  let image ← e.lookupFileRef e.image cwd path
  match e.interpreterPath (e.image.nodes image) with
  | .error _ => none
  | .ok none => some (e.image, cwd, path)
  | .ok (some interpreter) => some (e.interpreter, 0, interpreter)

/-- `xscore_vfs_stat_at`; the set-id bits of generated files are clear. -/
def statNode (cwd : Nat) (path : Name) : Option Nat :=
  (e.resolve e.status cwd path).filter fun target =>
    !(e.status.procfs.installed && (inPidRange target || inStatusRange target)) &&
      target < maxNodes && (e.status.nodes target).used

def setId (bit : UInt32) (owner : Vnode → UInt32) (id : UInt32) : Option Nat → UInt32
  | none => id
  | some target =>
    let node := e.status.nodes target
    if node.mode &&& bit ≠ 0 then owner node else id

def newIds (status : Option Nat) : UInt32 × UInt32 :=
  (e.setId modeIsuid Vnode.uid e.caller.uid status, e.setId modeIsgid Vnode.gid e.caller.gid status)

def execve : Option Executed := do
  let (cwd, path) ← e.found
  let _ ← (e.resolve e.access cwd path).filter fun target =>
    nodeAllows (e.access.nodes target) e.caller 1
  let (s, dir, name) ← e.loadPath cwd path
  let node ← e.lookupFileRef s dir name
  let status := e.statNode cwd path
  if e.loads then some ⟨node, status, (e.newIds status).1, (e.newIds status).2⟩ else none

/-- New ids come from the node whose bytes were loaded. -/
def FollowsImage (r : Executed) : Prop :=
  (r.uid, r.gid) ≠ (e.caller.uid, e.caller.gid) → r.status = some r.node

/-- The node at the path has bits that give an id the caller lacks. -/
def Gives (s : State) (cwd : Nat) (path : Name) : Prop :=
  ∃ target, e.resolve s cwd path = some target ∧
    ((s.nodes target).mode &&& modeIsuid ≠ 0 ∧ (s.nodes target).uid ≠ e.caller.uid ∨
      (s.nodes target).mode &&& modeIsgid ≠ 0 ∧ (s.nodes target).gid ≠ e.caller.gid)

/-- From the lookup of the image on, each step meets the guard. -/
def Between (guard : State → TreeOp → Prop) : Prop :=
  Guarded TreeOp.apply guard e.image (e.toInterpreter ++ e.toStatus)

/-- The image names no interpreter and no step changes where the path leads; or the path gives
nothing and no step makes it. -/
def Undisturbed (cwd : Nat) (path : Name) : Prop :=
  (∀ target, e.resolve e.image cwd path = some target →
      e.interpreterPath (e.image.nodes target) = .ok none) ∧
    e.Between (fun s op => e.resolve (op.apply s) cwd path = e.resolve s cwd path) ∨
  ¬ e.Gives e.image cwd path ∧
    e.Between (fun s op => e.Gives (op.apply s) cwd path → e.Gives s cwd path)

variable {e} {r : Executed}

theorem execve_some (h : e.execve = some r) :
    ∃ cwd path s dir name, e.found = some (cwd, path) ∧ e.loadPath cwd path = some (s, dir, name) ∧
      e.resolve s dir name = some r.node ∧ r.status = e.statNode cwd path ∧
      (r.uid, r.gid) = e.newIds r.status := by
  simp only [execve, bind_eq_bind, bind_eq_some_iff] at h
  obtain ⟨⟨cwd, path⟩, hfound, -, -, ⟨s, dir, name⟩, hload, node, hnode, h⟩ := h
  split_ifs at h
  cases h
  exact ⟨cwd, path, s, dir, name, hfound, hload, (filter_eq_some_iff.mp hnode).1, rfl, rfl⟩

theorem status_eq : e.status = run TreeOp.apply e.image (e.toInterpreter ++ e.toStatus) :=
  (run_append _ _ _ _).symm

theorem gives_of_newIds {cwd : Nat} {path : Name}
    (h : e.newIds (e.statNode cwd path) ≠ (e.caller.uid, e.caller.gid)) :
    e.Gives e.status cwd path := by
  cases hstat : e.statNode cwd path with
  | none =>
    rw [hstat] at h
    exact absurd rfl h
  | some target =>
    refine ⟨target, (filter_eq_some_iff.mp hstat).1, ?_⟩
    by_contra hnone
    rw [not_or] at hnone
    apply h
    rw [hstat, newIds, setId, setId]
    split_ifs <;> simp_all

/-- Bytes that are not an interpreter's come from the node that the path led to. -/
theorem loadPath_plain {cwd dir : Nat} {path name : Name} {s : State}
    (hplain : ∀ target, e.resolve e.image cwd path = some target →
      e.interpreterPath (e.image.nodes target) = .ok none)
    (hload : e.loadPath cwd path = some (s, dir, name)) :
    (s, dir, name) = (e.image, cwd, path) := by
  obtain ⟨target, hnode, hload⟩ := bind_eq_some_iff.mp hload
  rw [hplain target (filter_eq_some_iff.mp hnode).1] at hload
  exact (some.inj hload).symm

/-- Whatever happens to the files meanwhile: if every step after the lookup of the image keeps to
the condition, new ids come from the node whose bytes were loaded. -/
theorem privilege_follows_image {cwd : Nat} {path : Name} (hfound : e.found = some (cwd, path))
    (hsteps : e.Undisturbed cwd path) (h : e.execve = some r) : e.FollowsImage r := by
  obtain ⟨cwd', path', s, dir, name, hfound', hload, hnode, hstatus, hids⟩ := execve_some h
  obtain ⟨rfl, rfl⟩ := Prod.mk.inj (some.inj (hfound.symm.trans hfound'))
  rw [FollowsImage, hids, hstatus]
  intro hgiven
  rcases hsteps with ⟨hplain, hkept⟩ | ⟨hnone, hkept⟩
  · have hsame : e.resolve e.status cwd path = e.resolve e.image cwd path := by
      rw [status_eq]
      exact hkept.invariant (fun s => e.resolve s cwd path = e.resolve e.image cwd path)
        (fun s op hs hop => hop.trans hs) rfl
    cases loadPath_plain hplain hload
    cases hstat : e.statNode cwd path with
    | none =>
      rw [hstat] at hgiven
      exact absurd rfl hgiven
    | some target =>
      have hresolve := (filter_eq_some_iff.mp hstat).1
      rw [hsame, hnode] at hresolve
      exact hresolve.symm
  · have hstill : ¬ e.Gives e.status cwd path := by
      rw [status_eq]
      exact hkept.invariant (fun s => ¬ e.Gives s cwd path) (fun s op hs hop => fun h => hs (hop h))
        hnone
    exact absurd (gives_of_newIds hgiven) hstill

/-- A call by an ordinary user; `steps` come between the lookup of the image and the bits. -/
def ofUser (path : Name) (s : State) (steps : List TreeOp) : Exec :=
  ⟨⟨1000, 1000, fun _ => false, 1⟩, 0, path, s, [], [], [], [], steps, fun _ => .ok none, true⟩

/-- `/a` is an ordinary file and `/b` one with the set-user-id bit. -/
def twoPrograms : State := run TreeOp.apply bareTree
  [.openFile superuser 0 pathA oCreat 0o755, .openFile superuser 0 pathB oCreat 0o755,
    .chmod superuser 0 pathB 0o4755]

/-- The set-id program is executed while `/a` is removed. -/
def execB : Exec := ofUser pathB twoPrograms [.acquire 40, .unlink superuser 0 pathA]

theorem privilege_follows_image_steady : execB.FollowsImage ⟨40, some 40, 0, 1000⟩ := by
  have hfound : execB.found = some (0, pathB) := by decide +kernel
  have hacquired : execB.resolve (TreeOp.apply twoPrograms (.acquire 40)) 0 pathB =
      execB.resolve twoPrograms 0 pathB := by decide +kernel
  have hremoved : execB.resolve (TreeOp.apply (TreeOp.apply twoPrograms (.acquire 40))
      (.unlink superuser 0 pathA)) 0 pathB =
      execB.resolve (TreeOp.apply twoPrograms (.acquire 40)) 0 pathB := by decide +kernel
  exact privilege_follows_image hfound (.inl ⟨fun _ _ => rfl, hacquired, hremoved, trivial⟩)
    (by decide +kernel)

/-- `/b` replaces `/a` while the bytes of `/a` are being loaded. -/
theorem privilege_of_another_node :
    let e := ofUser pathA twoPrograms [.acquire 39, .rename superuser 0 pathB 0 pathA]
    e.execve = some ⟨39, some 40, 0, 1000⟩ ∧ ¬ e.FollowsImage ⟨39, some 40, 0, 1000⟩ := by
  refine ⟨by decide +kernel, fun h => ?_⟩
  cases h (by decide)

end Exec

end XsCore.Vfs
