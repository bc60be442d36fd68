import XsCore.Vfs.Path

/-!
# The vnode table and path resolution

The state of `vfs.c` that the tree operations read and write: the vnode table,
`node_count` and the node ids remembered for the generated procfs entries.  A
table index past the table stands for whatever memory lies there; the source
reads such entries for generated procfs ids.
-/

namespace XsCore.Vfs

def maxNodes : Nat := 8192
def procPidBase : Nat := 0x1000

inductive Errno where
  | eperm | enoent | eio | enomem | eacces | ebusy | eexist | enodev | enotdir | eisdir
  | einval | enfile | enospc | erofs | enotempty
  deriving DecidableEq

/-- The node ids `xscore_vfs_install_procfs` remembers. -/
structure Procfs where
  installed : Bool
  root : Nat
  self : Nat
  selfStatus : Nat
  processes : Nat
  mounts : Nat
  uptime : Nat
  realtime : Nat
  meminfo : Nat
  net : Nat
  netTcp : Nat
  netUdp : Nat
  netRoute : Nat
  netArp : Nat
  netDev : Nat
  cpuinfo : Nat
  gpuinfo : Nat
  pci : Nat
  asound : Nat
  asoundCards : Nat
  acpi : Nat
  acpiInfo : Nat
  acpiFadt : Nat
  acpiMadt : Nat

/-- The ids before installation: C statics start at zero. -/
def Procfs.absent : Procfs where
  installed := false
  root := 0
  self := 0
  selfStatus := 0
  processes := 0
  mounts := 0
  uptime := 0
  realtime := 0
  meminfo := 0
  net := 0
  netTcp := 0
  netUdp := 0
  netRoute := 0
  netArp := 0
  netDev := 0
  cpuinfo := 0
  gpuinfo := 0
  pci := 0
  asound := 0
  asoundCards := 0
  acpi := 0
  acpiInfo := 0
  acpiFadt := 0
  acpiMadt := 0

structure State where
  nodes : Nat → Vnode
  nodeCount : Nat
  procfs : Procfs

variable (s : State)

/-- What one call sees of the rest of the kernel: the caller's credentials, the
process ids that are visible and the pages the allocator can hand out. -/
structure Caller where
  uid : UInt32
  gid : UInt32
  visiblePid : Nat → Bool
  pages : Nat

/-- Boot code runs before any process exists. -/
def Caller.boot (pages : Nat) : Caller := ⟨0, 0, fun _ => false, pages⟩

def State.setNode (i : Nat) (node : Vnode) : State :=
  { s with nodes := Function.update s.nodes i node }

def nodeAllows (node : Vnode) (caller : Caller) (access : UInt32) : Bool :=
  if caller.uid = 0 then true
  else
    let shift : UInt32 :=
      if caller.uid = node.uid then 6 else if caller.gid = node.gid then 3 else 0
    (node.mode >>> shift) &&& access = access

/-! ## Table scans -/

def Vnode.used (node : Vnode) : Bool := node.type ≠ .unused

/-- `find_child`; an unlinked node is not skipped. -/
def findChild (parent : Nat) (name : Name) : Option Nat :=
  (List.range' 1 (s.nodeCount - 1)).find? fun i =>
    (s.nodes i).used && (s.nodes i).parent = parent && (s.nodes i).name = name

/-- The scan of `unlink` and `rename` for entries of a directory. -/
def hasChildren (directory : Nat) : Bool :=
  (List.range' 1 (s.nodeCount - 1)).any fun i =>
    (s.nodes i).used && (s.nodes i).parent = directory

def freeSlot (first : Nat) : Option Nat :=
  (List.range' first (maxNodes - first)).find? fun i => !(s.nodes i).used

/-! ## Path resolution -/

def ascii (text : List Char) : Name := text.map fun c => UInt8.ofNat c.toNat

/-- The names answered below `/proc` before the table is searched. -/
def procRootNames (p : Procfs) : List (Name × Nat) :=
  [(ascii ['s', 'e', 'l', 'f'], p.self),
   (ascii ['p', 'r', 'o', 'c', 'e', 's', 's', 'e', 's'], p.processes),
   (ascii ['m', 'o', 'u', 'n', 't', 's'], p.mounts),
   (ascii ['u', 'p', 't', 'i', 'm', 'e'], p.uptime),
   (ascii ['r', 'e', 'a', 'l', 't', 'i', 'm', 'e'], p.realtime),
   (ascii ['m', 'e', 'm', 'i', 'n', 'f', 'o'], p.meminfo),
   (ascii ['n', 'e', 't'], p.net),
   (ascii ['c', 'p', 'u', 'i', 'n', 'f', 'o'], p.cpuinfo),
   (ascii ['g', 'p', 'u', 'i', 'n', 'f', 'o'], p.gpuinfo),
   (ascii ['p', 'c', 'i'], p.pci),
   (ascii ['a', 's', 'o', 'u', 'n', 'd'], p.asound),
   (ascii ['a', 'c', 'p', 'i'], p.acpi)]

def procNetNames (p : Procfs) : List (Name × Nat) :=
  [(ascii ['t', 'c', 'p'], p.netTcp), (ascii ['u', 'd', 'p'], p.netUdp),
   (ascii ['r', 'o', 'u', 't', 'e'], p.netRoute),
   (ascii ['a', 'r', 'p'], p.netArp),
   (ascii ['d', 'e', 'v'], p.netDev)]

def procAsoundNames (p : Procfs) : List (Name × Nat) :=
  [(ascii ['c', 'a', 'r', 'd', 's'], p.asoundCards)]

def procAcpiNames (p : Procfs) : List (Name × Nat) :=
  [(ascii ['i', 'n', 'f', 'o'], p.acpiInfo), (ascii ['f', 'a', 'd', 't'], p.acpiFadt),
   (ascii ['m', 'a', 'd', 't'], p.acpiMadt)]

def statusName : Name := ascii ['s', 't', 'a', 't', 'u', 's']

/-- The 64-bit process id a component of digits spells. -/
def pidOf (comp : Name) : Option Nat :=
  if comp.all fun c => 48 ≤ c && c ≤ 57 then
    some (comp.foldl (fun pid c => (pid * 10 + (c.toNat - 48)) % 2 ^ 64) 0)
  else none

def inPidRange (id : Nat) : Bool := procPidBase ≤ id && id < procPidBase + 1000

def inStatusRange (id : Nat) : Bool := procPidBase + 0x1000 ≤ id && id < procPidBase + 0x2000

/-- The table lookup that ends most branches of the resolver. -/
def tableChild (current : Nat) (comp : Name) : Except Errno Nat :=
  match findChild s current comp with
  | some child => .ok child
  | none => .error .enoent

/-- A generated directory: fixed names first, then the table. -/
def namedChild (names : List (Name × Nat)) (current : Nat) (comp : Name) : Except Errno Nat :=
  match names.lookup comp with
  | some id => .ok id
  | none => tableChild s current comp

/-- A component below `/proc` that is no fixed name. -/
def procPidChild (caller : Caller) (current : Nat) (comp : Name) : Except Errno Nat :=
  match pidOf comp with
  | some pid =>
      if 0 < pid ∧ caller.visiblePid pid then .ok ((procPidBase + pid % 2 ^ 32) % 2 ^ 32)
      else tableChild s current comp
  | none => tableChild s current comp

/-- One component of `xscore_vfs_resolve_path_at`. -/
def walkStep (caller : Caller) (current : Nat) (comp : Name) : Except Errno Nat :=
  let p := s.procfs
  if nameMax < comp.length then .error .einval
  else if comp = [dot] then .ok current
  else if comp = [dot, dot] then
    if inPidRange current then .ok p.root
    else if current < maxNodes then .ok (s.nodes current).parent
    else .ok current
  else if p.installed ∧ current = p.root then
    match (procRootNames p).lookup comp with
    | some id => .ok id
    | none => procPidChild s caller current comp
  else if p.installed ∧ current = p.net then namedChild s (procNetNames p) current comp
  else if p.installed ∧ current = p.asound then namedChild s (procAsoundNames p) current comp
  else if p.installed ∧ current = p.acpi then namedChild s (procAcpiNames p) current comp
  else if p.installed ∧ inPidRange current then
    if comp = statusName then .ok (current + 0x1000) else .error .enoent
  else if p.installed ∧ current = p.self then
    if comp = statusName then .ok p.selfStatus else .error .enoent
  else if p.installed ∧ (current = p.selfStatus ∨ current = p.processes ∨ current = p.mounts ∨
      inStatusRange current) then .error .enotdir
  else if (s.nodes current).type ≠ .directory then .error .enotdir
  else if !nodeAllows (s.nodes current) caller 1 then .error .eacces
  else tableChild s current comp

/-- Where resolution starts: the root, or a working directory that still is one. -/
def startNode (cwd : Nat) (path : Name) : Nat :=
  let cwd :=
    if maxNodes ≤ cwd ∧ ¬ inPidRange cwd then 0
    else if cwd < maxNodes ∧ (s.nodes cwd).type ≠ .directory then 0
    else cwd
  if path.head? = some slash then 0 else cwd

def walk (s : State) (caller : Caller) : Nat → List Name → Except Errno Nat
  | current, [] => .ok current
  | current, comp :: rest =>
      match walkStep s caller current comp with
      | .ok next => walk s caller next rest
      | .error e => .error e

def resolvePathAt (caller : Caller) (cwd : Nat) (path : Name) : Except Errno Nat :=
  if path = [] then .error .einval
  else walk s caller (startNode s cwd path) (components path)

end XsCore.Vfs
