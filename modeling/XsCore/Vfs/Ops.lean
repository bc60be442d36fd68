import XsCore.Vfs.Tree

/-!
# Tree operations

The mutators of `vfs.c` on the vnode table.  Each returns the table afterwards
and the error, if any; a failed `rename`, `chmod` or `open` can still have
changed the table.  The persistence commit that ends a successful call reads
the table and never changes it; it is modelled with the disk.
-/

namespace XsCore.Vfs

variable (s : State) (caller : Caller) (cwd : Nat)

def modeDirectory : UInt32 := 0o040000
def modeCharacter : UInt32 := 0o020000
def modeRegular : UInt32 := 0o100000
def modeWrite : UInt32 := 0o222

def oWronly : UInt64 := 1
def oRdwr : UInt64 := 2
def oCreat : UInt64 := 0x40
def oTrunc : UInt64 := 0x200

abbrev Result (α : Type) := State × Except Errno α

/-! ## Creating entries -/

/-- A fresh table entry takes over a slot; `node_count` follows the highest slot. -/
def State.create (slot : Nat) (node : Vnode) : State :=
  { s with nodes := Function.update s.nodes slot node,
           nodeCount := if s.nodeCount ≤ slot then slot + 1 else s.nodeCount }

def freshNode (type : VnodeType) (parent : Nat) (name : Name) (mode uid gid : UInt32) : Vnode where
  type := type
  parent := parent
  name := name
  data := none
  size := 0
  mode := mode
  uid := uid
  gid := gid
  isDynamic := true
  references := 0
  unlinked := false
  blocks := noBlocks

/-- The directory a new entry goes to, and its name: the checks `mkdir` and
`open` share, between which each has its own. -/
def splitParent (path : Name) : Except Errno (Nat × Name) :=
  match splitPath path with
  | none => .error .einval
  | some (parentPath, name) =>
      match resolvePathAt s caller cwd parentPath with
      | .error e => .error e
      | .ok parent => .ok (parent, name)

/-- The rest of the creation: directory and permission checks and the slot. -/
def createIn (type : VnodeType) (parent : Nat) (name : Name) (mode : UInt32) : Result Nat :=
  if (s.nodes parent).type ≠ .directory then (s, .error .enotdir)
  else if !nodeAllows (s.nodes parent) caller 3 then (s, .error .eacces)
  else
    match freeSlot s 0 with
    | none => (s, .error .enfile)
    | some slot =>
        (s.create slot (freshNode type parent name mode caller.uid caller.gid), .ok slot)

def mkdirAt (path : Name) (mode : UInt32) : Result Nat :=
  if path = [] then (s, .error .einval)
  else
    match resolvePathAt s caller cwd path with
    | .ok _ => (s, .error .eexist)
    | .error _ =>
        match splitParent s caller cwd path with
        | .error e => (s, .error e)
        | .ok (parent, name) =>
            createIn s caller .directory parent name (modeDirectory ||| (mode &&& 0o777))

/-! ## Removing and moving entries -/

/-- What `unlink` and a replacing `rename` do to the entry: an open node keeps
its slot without a name, any other node gives the slot back. -/
def detach (node : Vnode) : Vnode :=
  if node.references ≠ 0 then { node with unlinked := true, parent := 0, name := [] }
  else
    { node with type := .unused, name := [], size := 0, data := none, uid := 0, gid := 0,
                isDynamic := false, unlinked := false, blocks := noBlocks }

def unlinkAt (path : Name) : Result Unit :=
  if path = [] then (s, .error .einval)
  else
    match resolvePathAt s caller cwd path with
    | .error e => (s, .error e)
    | .ok target =>
        if target = 0 then (s, .error .eperm)
        else if !nodeAllows (s.nodes (s.nodes target).parent) caller 3 then (s, .error .eacces)
        else if (s.nodes target).type = .directory ∧ hasChildren s target then
          (s, .error .enotempty)
        else (s.setNode target (detach (s.nodes target)), .ok ())

def isDotName (name : Name) : Bool := name = [dot] || name = [dot, dot]

def endsInSlash (path : Name) : Bool := 1 < path.length && path.getLast? = some slash

/-- The first half of `xscore_vfs_rename_at`: the node to move. -/
def renameSource (path : Name) : Except Errno Nat :=
  match splitPath path with
  | none => .error .einval
  | some (_, name) =>
      if isDotName name then .error .einval
      else
        match resolvePathAt s caller cwd path with
        | .error e => .error e
        | .ok src =>
            if src = 0 then .error .ebusy
            else if s.nodeCount ≤ src then .error .enoent
            else if (s.nodes src).type ≠ .regular ∧ (s.nodes src).type ≠ .directory then
              .error .eperm
            else if endsInSlash path ∧ (s.nodes src).type ≠ .directory then .error .enotdir
            else if maxNodes ≤ (s.nodes src).parent then .error .einval
            else if !nodeAllows (s.nodes (s.nodes src).parent) caller 3 then .error .eacces
            else .ok src

/-- The walk from the new parent to the root that keeps a directory out of its
own subtree: `some true` when it meets `src`, `none` when the fuel ends first. -/
def meetsOnWay (s : State) (src : Nat) : Nat → Nat → Option Bool
  | 0, _ => none
  | fuel + 1, cur =>
      if cur ≠ 0 ∧ cur < maxNodes then
        if cur = src then some true else meetsOnWay s src fuel (s.nodes cur).parent
      else some false

/-- The second half of `xscore_vfs_rename_at` up to the table change: the new
parent and name.  The fuel of the walk suffices in every tree. -/
def renameTarget (path : Name) (src : Nat) : Except Errno (Nat × Name) :=
  match splitPath path with
  | none => .error .einval
  | some (parentPath, name) =>
      if isDotName name then .error .einval
      else
        match resolvePathAt s caller cwd parentPath with
        | .error e => .error e
        | .ok parent =>
            if maxNodes ≤ parent ∨ (s.nodes parent).type ≠ .directory then .error .enotdir
            else if !nodeAllows (s.nodes parent) caller 3 then .error .eacces
            else if (s.nodes src).type = .directory ∧
                meetsOnWay s src (maxNodes + 1) parent ≠ some false then .error .einval
            else if endsInSlash path ∧ (s.nodes src).type ≠ .directory then .error .enotdir
            else .ok (parent, name)

/-- The entry a rename replaces, if it may be replaced. -/
def replaceCheck (src dst : Nat) : Option Errno :=
  if (s.nodes src).type = .directory then
    if (s.nodes dst).type ≠ .directory then some .enotdir
    else if hasChildren s dst then some .enotempty
    else none
  else if (s.nodes dst).type = .directory then some .eisdir
  else none

/-- The move itself; a boot image that cannot be converted stays where it is. -/
def moveNode (pages src parent : Nat) (name : Name) : Result Unit :=
  match convertToDynamic (s.nodes src) pages with
  | (node, _, false) => (s.setNode src node, .error .enomem)
  | (node, _, true) =>
      (s.setNode src { node with isDynamic := true, parent := parent, name := name }, .ok ())

def renameAt (oldCwd : Nat) (oldPath : Name) (newCwd : Nat) (newPath : Name) : Result Unit :=
  if oldPath = [] ∨ newPath = [] then (s, .error .einval)
  else
    match renameSource s caller oldCwd oldPath with
    | .error e => (s, .error e)
    | .ok src =>
        match renameTarget s caller newCwd newPath src with
        | .error e => (s, .error e)
        | .ok (parent, name) =>
            match findChild s parent name with
            | none => moveNode s caller.pages src parent name
            | some dst =>
                if src = dst then (s, .ok ())
                else
                  match replaceCheck s src dst with
                  | some e => (s, .error e)
                  | none =>
                      moveNode (s.setNode dst (detach (s.nodes dst))) caller.pages src parent name

/-! ## Opening -/

/-- The generated procfs directories `open` hands to the directory path. -/
def isProcDirectory (p : Procfs) (id : Nat) : Bool :=
  p.installed && (id = p.root || id = p.self || id = p.net || id = p.asound || id = p.acpi ||
    inPidRange id)

/-- The procfs entries whose content is generated on open. -/
def isGenerated (p : Procfs) (id : Nat) : Bool :=
  p.installed && (id = p.selfStatus || id = p.processes || id = p.mounts || id = p.uptime ||
    id = p.realtime || id = p.meminfo || id = p.netTcp || id = p.netUdp || id = p.netRoute ||
    id = p.netArp || id = p.netDev || id = p.cpuinfo || id = p.gpuinfo || id = p.pci ||
    id = p.asoundCards || id = p.acpiInfo || id = p.acpiFadt || id = p.acpiMadt ||
    inStatusRange id)

def opensForWrite (flags : UInt64) : Bool := flags &&& 3 = oWronly || flags &&& 3 = oRdwr

def requestedAccess (flags : UInt64) : UInt32 :=
  (if flags &&& 3 = 0 || flags &&& 3 = oRdwr then 4 else 0) |||
    (if opensForWrite flags then 2 else 0)

/-- The creation half of `xscore_vfs_open_at` for a path that does not resolve. -/
def openCreate (path : Name) (flags : UInt64) (mode : UInt32) : Result Nat :=
  if flags &&& oCreat = 0 then (s, .error .enoent)
  else
    match splitParent s caller cwd path with
    | .error e => (s, .error e)
    | .ok (parent, name) =>
        if procPidBase ≤ parent ∨
            (s.procfs.installed ∧ (parent = s.procfs.root ∨ parent = s.procfs.self)) then
          (s, .error .erofs)
        else createIn s caller .regular parent name (modeRegular ||| (mode &&& 0o777))

/-- The other half of `xscore_vfs_open_at`: type and permission checks and
`O_TRUNC`.  Opening the descriptor itself takes a reference, see `nodeAcquire`. -/
def openTarget (target : Nat) (flags : UInt64) : Result Nat :=
  let node := s.nodes target
  if isProcDirectory s.procfs target then
    (s, if opensForWrite flags then .error .eisdir else .ok target)
  else if target < maxNodes ∧ node.type = .directory then
    if opensForWrite flags then (s, .error .eisdir)
    else if !nodeAllows node caller 4 then (s, .error .eacces)
    else (s, .ok target)
  else if target < maxNodes ∧ node.type = .character then (s, .error .enodev)
  else if !nodeAllows node caller (requestedAccess flags) then (s, .error .eacces)
  else if opensForWrite flags ∧ node.mode &&& modeWrite = 0 ∧ ¬ node.isDynamic then
    (s, .error .erofs)
  else if flags &&& oTrunc ≠ 0 ∧ ¬ isGenerated s.procfs target then
    (s.setNode target (openTruncate node), .ok target)
  else (s, .ok target)

/-- `xscore_vfs_open_at` up to the descriptor. -/
def openAt (path : Name) (flags : UInt64) (mode : UInt32) : Result Nat :=
  if path = [] then (s, .error .einval)
  else
    match resolvePathAt s caller cwd path with
    | .ok target => openTarget s caller target flags
    | .error _ =>
        match openCreate s caller cwd path flags mode with
        | (s, .error e) => (s, .error e)
        | (s, .ok target) => openTarget s caller target flags

/-! ## References -/

/-- `xscore_vfs_node_acquire`: a descriptor, an executable image or a duplicate
takes a reference. -/
def nodeAcquire (id : Nat) : State × Bool :=
  if maxNodes ≤ id then (s, false)
  else
    let node := s.nodes id
    if node.used ∧ (¬ node.unlinked ∨ node.references ≠ 0) then
      (s.setNode id { node with references := node.references + 1 }, true)
    else (s, false)

def resetUnlinked (node : Vnode) : Vnode :=
  if ¬ node.unlinked ∨ node.references ≠ 0 then node
  else
    { node with type := .unused, parent := 0, name := [], data := none, size := 0, mode := 0,
                uid := 0, gid := 0, isDynamic := false, unlinked := false, blocks := noBlocks }

def nodeRelease (id : Nat) : State :=
  if maxNodes ≤ id then s
  else
    let node := s.nodes id
    let node := if 0 < node.references then { node with references := node.references - 1 } else node
    s.setNode id (resetUnlinked node)

/-! ## Attributes and content -/

/-- A changed attribute makes a boot image dynamic so that it is persisted. -/
def withAttributes (target : Nat) (node : Vnode) : Result Unit :=
  match convertToDynamic node caller.pages with
  | (node, _, false) => (s.setNode target node, .error .enomem)
  | (node, _, true) => (s.setNode target node, .ok ())

def chmodAt (path : Name) (mode : UInt32) : Result Unit :=
  if path = [] then (s, .error .einval)
  else
    match resolvePathAt s caller cwd path with
    | .error e => (s, .error e)
    | .ok target =>
        let node := s.nodes target
        if maxNodes ≤ target ∨ node.type = .unused then (s, .error .enoent)
        else if caller.uid ≠ 0 ∧ caller.uid ≠ node.uid then (s, .error .eperm)
        else
          let typeBits := node.mode &&& (modeDirectory ||| modeCharacter ||| modeRegular)
          withAttributes s caller target { node with mode := typeBits ||| (mode &&& 0o7777) }

def chownAt (path : Name) (uid gid : UInt32) : Result Unit :=
  if path = [] then (s, .error .einval)
  else
    match resolvePathAt s caller cwd path with
    | .error e => (s, .error e)
    | .ok target =>
        let node := s.nodes target
        if maxNodes ≤ target ∨ node.type = .unused then (s, .error .enoent)
        else if caller.uid ≠ 0 then (s, .error .eperm)
        else withAttributes s caller target { node with uid := uid, gid := gid }

def writeNodeAt (id : Nat) (offset length : UInt64) (src : Nat → UInt8) (pages : Nat) : State :=
  if maxNodes ≤ id then s else s.setNode id (writeNode (s.nodes id) offset length src pages).1

def truncateNodeAt (id : Nat) (length : UInt64) (pages : Nat) : State :=
  if maxNodes ≤ id then s else s.setNode id (truncateNode (s.nodes id) length pages).1

end XsCore.Vfs
