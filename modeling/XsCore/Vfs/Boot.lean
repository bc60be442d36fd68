import XsCore.Vfs.Ops

/-!
# Building the boot tree

`xscore_vfs_initialize`, the three functions that add entries of the boot
archive, and the installation of `/dev` and `/proc`.  The C statics are zero at
boot, but nothing below depends on what the table held before.
-/

namespace XsCore.Vfs

variable (s : State)

/-- `xscore_vfs_initialize`; slots keep the fields it does not reset. -/
def vfsInitialize (prior : State) : State where
  nodes := fun i =>
    if i = 0 then
      { prior.nodes 0 with
          type := .directory, parent := 0, name := [], data := none, size := 0, uid := 0,
          gid := 0, isDynamic := false, references := 0, unlinked := false,
          mode := modeDirectory ||| 0o777, blocks := noBlocks }
    else if i < maxNodes then
      { prior.nodes i with
          type := .unused, references := 0, unlinked := false, uid := 0, gid := 0,
          blocks := noBlocks }
    else prior.nodes i
  nodeCount := 1
  procfs := prior.procfs

/-- The entry `xscore_vfs_add_file` and `xscore_vfs_add_character_device` write. -/
def bootNode (type : VnodeType) (parent : Nat) (name : Name) (data : Option (List UInt8))
    (mode : UInt32) : Vnode where
  type := type
  parent := parent
  name := name
  data := data
  size := (data.getD []).length
  mode := mode
  uid := 0
  gid := 0
  isDynamic := false
  references := 0
  unlinked := false
  blocks := noBlocks

/-- The common body of the two: they differ in the slot the search starts from,
the type and the content. -/
def addNode (first : Nat) (type : VnodeType) (path : Name)
    (data : Option (List UInt8)) (mode : UInt32) : State × Bool :=
  if maxNodes ≤ s.nodeCount then (s, false)
  else
    match splitParent s (Caller.boot 0) 0 path with
    | .error _ => (s, false)
    | .ok (parent, name) =>
        if (s.nodes parent).type ≠ .directory then (s, false)
        else if (findChild s parent name).isSome then (s, false)
        else
          match freeSlot s first with
          | none => (s, false)
          | some slot => (s.create slot (bootNode type parent name data mode), true)

def addFile (path : Name) (data : List UInt8) (mode : UInt32) : State × Bool :=
  addNode s 0 .regular path (some data) (modeRegular ||| (mode &&& 0o7777))

def addCharacterDevice (path : Name) (mode : UInt32) : State × Bool :=
  addNode s 1 .character path none (modeCharacter ||| (mode &&& 0o7777))

/-- `xscore_vfs_add_directory` goes through `mkdir`, so the entry is dynamic. -/
def addDirectory (path : Name) (mode : UInt32) : State × Bool :=
  match mkdirAt s (Caller.boot 0) 0 path (mode &&& 0o7777) with
  | (s, .ok _) => (s, true)
  | (s, .error _) => (s, false)

/-- One entry of the boot archive or of the built-in namespaces. -/
inductive BootEntry where
  | directory (path : Name) (mode : UInt32)
  | file (path : Name) (data : List UInt8) (mode : UInt32)
  | device (path : Name) (mode : UInt32)

def BootEntry.path : BootEntry → Name
  | .directory path _ | .file path _ _ | .device path _ => path

def BootEntry.add (s : State) : BootEntry → State × Bool
  | .directory path mode => addDirectory s path mode
  | .file path data mode => addFile s path data mode
  | .device path mode => addCharacterDevice s path mode

def addAll (s : State) : List BootEntry → State × Bool
  | [] => (s, true)
  | entry :: rest =>
      match entry.add s with
      | (s, true) => addAll s rest
      | (s, false) => (s, false)

/-- The node a path names at boot; an unresolved path leaves the C variable at zero. -/
def bootLookup (path : Name) : Nat :=
  match resolvePathAt s (Caller.boot 0) 0 path with
  | .ok id => id
  | .error _ => 0

def clearDynamic (id : Nat) : State :=
  s.setNode id { s.nodes id with isDynamic := false }

def devPath (rest : List Char) : Name := ascii (['/', 'd', 'e', 'v'] ++ rest)

def devDirectories : List Name :=
  [devPath [], devPath ['/', 'i', 'n', 'p', 'u', 't'], devPath ['/', 'p', 't', 's']]

/-- The character devices; the two random devices exist on x86 only. -/
def devDevices (x86 : Bool) : List BootEntry :=
  [.device (devPath ['/', 't', 't', 'y', '1']) 0o620,
   .device (devPath ['/', 'n', 'u', 'l', 'l']) 0o666,
   .device (devPath ['/', 'z', 'e', 'r', 'o']) 0o666,
   .device (devPath ['/', 'f', 'b', '0']) 0o600,
   .device (devPath ['/', 'i', 'n', 'p', 'u', 't', '/', 'e', 'v', 'e', 'n', 't', '0']) 0o600,
   .device (devPath ['/', 'p', 't', 'm', 'x']) 0o666,
   .device (devPath ['/', 'a', 'u', 'd', 'i', 'o']) 0o666,
   .device (devPath ['/', 'd', 's', 'p']) 0o666,
   .device (devPath ['/', 'g', 'p', 'u', '0']) 0o666,
   .device (devPath ['/', 'n', 'e', 't']) 0o666] ++
  if x86 then
    [.device (devPath ['/', 'r', 'a', 'n', 'd', 'o', 'm']) 0o666,
     .device (devPath ['/', 'u', 'r', 'a', 'n', 'd', 'o', 'm']) 0o666]
  else []

def installDevfs (x86 : Bool) : State × Bool :=
  match addAll s (devDirectories.map (.directory · 0o755)) with
  | (s, false) => (s, false)
  | (s, true) =>
      addAll (devDirectories.foldl (fun s path => clearDynamic s (bootLookup s path)) s)
        (devDevices x86)

def procPath (rest : List Char) : Name := ascii (['/', 'p', 'r', 'o', 'c'] ++ rest)

def procDirectory (rest : List Char) : BootEntry := .directory (procPath rest) 0o555
def procFile (rest : List Char) : BootEntry := .file (procPath rest) [] 0o444

def procEntries : List BootEntry :=
  [procDirectory [], procDirectory ['/', 's', 'e', 'l', 'f'],
   procFile ['/', 's', 'e', 'l', 'f', '/', 's', 't', 'a', 't', 'u', 's'],
   procFile ['/', 'p', 'r', 'o', 'c', 'e', 's', 's', 'e', 's'],
   procFile ['/', 'm', 'o', 'u', 'n', 't', 's'],
   procFile ['/', 'u', 'p', 't', 'i', 'm', 'e'],
   procFile ['/', 'r', 'e', 'a', 'l', 't', 'i', 'm', 'e'],
   procFile ['/', 'm', 'e', 'm', 'i', 'n', 'f', 'o'],
   procFile ['/', 'c', 'p', 'u', 'i', 'n', 'f', 'o'],
   procFile ['/', 'g', 'p', 'u', 'i', 'n', 'f', 'o'],
   procFile ['/', 'p', 'c', 'i'],
   procDirectory ['/', 'a', 's', 'o', 'u', 'n', 'd'],
   procFile ['/', 'a', 's', 'o', 'u', 'n', 'd', '/', 'c', 'a', 'r', 'd', 's'],
   procDirectory ['/', 'a', 'c', 'p', 'i'],
   procFile ['/', 'a', 'c', 'p', 'i', '/', 'i', 'n', 'f', 'o'],
   procFile ['/', 'a', 'c', 'p', 'i', '/', 'f', 'a', 'd', 't'],
   procFile ['/', 'a', 'c', 'p', 'i', '/', 'm', 'a', 'd', 't'],
   procDirectory ['/', 'n', 'e', 't'],
   procFile ['/', 'n', 'e', 't', '/', 't', 'c', 'p'],
   procFile ['/', 'n', 'e', 't', '/', 'u', 'd', 'p'],
   procFile ['/', 'n', 'e', 't', '/', 'r', 'o', 'u', 't', 'e'],
   procFile ['/', 'n', 'e', 't', '/', 'a', 'r', 'p'],
   procFile ['/', 'n', 'e', 't', '/', 'd', 'e', 'v']]

/-- The ids `xscore_vfs_install_procfs` looks up once the entries exist. -/
def procLookups (s : State) : Procfs where
  installed := true
  root := bootLookup s (procPath [])
  self := bootLookup s (procPath ['/', 's', 'e', 'l', 'f'])
  selfStatus := bootLookup s
    (procPath ['/', 's', 'e', 'l', 'f', '/', 's', 't', 'a', 't', 'u', 's'])
  processes := bootLookup s (procPath ['/', 'p', 'r', 'o', 'c', 'e', 's', 's', 'e', 's'])
  mounts := bootLookup s (procPath ['/', 'm', 'o', 'u', 'n', 't', 's'])
  uptime := bootLookup s (procPath ['/', 'u', 'p', 't', 'i', 'm', 'e'])
  realtime := bootLookup s (procPath ['/', 'r', 'e', 'a', 'l', 't', 'i', 'm', 'e'])
  meminfo := bootLookup s (procPath ['/', 'm', 'e', 'm', 'i', 'n', 'f', 'o'])
  net := bootLookup s (procPath ['/', 'n', 'e', 't'])
  netTcp := bootLookup s (procPath ['/', 'n', 'e', 't', '/', 't', 'c', 'p'])
  netUdp := bootLookup s (procPath ['/', 'n', 'e', 't', '/', 'u', 'd', 'p'])
  netRoute := bootLookup s (procPath ['/', 'n', 'e', 't', '/', 'r', 'o', 'u', 't', 'e'])
  netArp := bootLookup s (procPath ['/', 'n', 'e', 't', '/', 'a', 'r', 'p'])
  netDev := bootLookup s (procPath ['/', 'n', 'e', 't', '/', 'd', 'e', 'v'])
  cpuinfo := bootLookup s (procPath ['/', 'c', 'p', 'u', 'i', 'n', 'f', 'o'])
  gpuinfo := bootLookup s (procPath ['/', 'g', 'p', 'u', 'i', 'n', 'f', 'o'])
  pci := bootLookup s (procPath ['/', 'p', 'c', 'i'])
  asound := bootLookup s (procPath ['/', 'a', 's', 'o', 'u', 'n', 'd'])
  asoundCards := bootLookup s
    (procPath ['/', 'a', 's', 'o', 'u', 'n', 'd', '/', 'c', 'a', 'r', 'd', 's'])
  acpi := bootLookup s (procPath ['/', 'a', 'c', 'p', 'i'])
  acpiInfo := bootLookup s (procPath ['/', 'a', 'c', 'p', 'i', '/', 'i', 'n', 'f', 'o'])
  acpiFadt := bootLookup s (procPath ['/', 'a', 'c', 'p', 'i', '/', 'f', 'a', 'd', 't'])
  acpiMadt := bootLookup s (procPath ['/', 'a', 'c', 'p', 'i', '/', 'm', 'a', 'd', 't'])

def installProcfs (s : State) : State × Bool :=
  match addAll s procEntries with
  | (s, false) => (s, false)
  | (s, true) =>
      let ids := procEntries.map fun entry => bootLookup s entry.path
      ({ ids.foldl clearDynamic s with procfs := procLookups s }, true)

/-- `xscore_initramfs_mount_archive` on a parsed archive. -/
def mountArchive (archive : List BootEntry) (x86 : Bool) : State × Bool :=
  match addAll s archive with
  | (s, false) => (s, false)
  | (s, true) =>
      match installDevfs s x86 with
      | (s, false) => (s, false)
      | (s, true) => installProcfs s

end XsCore.Vfs
