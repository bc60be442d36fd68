import XsCore.File.Sockets

/-! # Descriptor tables and open file descriptions

The model of `kernel/file.c`: a pool of descriptions with reference counts, tables of descriptors
that refer to them, and the calls that create, share and drop descriptions.  A call carries what
the kernel heap answers it (`heap c` is whether a table of capacity `c` can be had).

`held` are the references of calls at work, which may outlast the descriptor they were looked up
with.  `opened` and `released` record the handles whose description got its first reference and lost
its last one.
-/

namespace XsCore.File

open XsCore.Ipc Function List

variable (t : Nat) (heap : Nat → Bool)

def filePoolSize : Nat := 2048

def fdMax : Nat := 1024

def fdInlineMax : Nat := 16

def fdCloexec : Nat := 1

/-! ## Tables -/

structure Slot where
  file : Option Nat
  flags : Nat

def Slot.empty : Slot := ⟨none, 0⟩

structure Table where
  slots : List Slot

def Table.capacity (t : Table) : Nat := t.slots.length

def Table.storageReset : Table := ⟨replicate fdInlineMax .empty⟩

def Table.entry (t : Table) (d : Nat) : Option Nat := (t.slots[d]?).bind Slot.file

def Table.put (t : Table) (d : Nat) (slot : Slot) : Table := ⟨t.slots.set d slot⟩

def nextCapacity (capacity : Nat) : Nat := if fdMax / 2 < capacity then fdMax else capacity * 2

def doubled : Nat → Nat → Nat → Nat
  | 0, capacity, _ => capacity
  | n + 1, capacity, required =>
    if capacity < required ∧ capacity < fdMax then doubled n (nextCapacity capacity) required
    else capacity

def Table.grow (t : Table) (required : Nat) : Except FdError Table :=
  if fdMax < required then .error .tooManyFiles
  else if required ≤ t.capacity then .ok t
  else
    let capacity := doubled fdMax t.capacity required
    if capacity < required then .error .tooManyFiles
    else if heap capacity then
      .ok ⟨t.slots ++ replicate (capacity - t.capacity) .empty⟩
    else .error .noMemory

def Table.findFree (t : Table) (start : Nat) : Option Nat :=
  ((t.slots.drop start).findIdx? fun slot => slot.file.isNone).map (start + ·)

/-- The loop shared by `fd_install_with_flags`, `xscore_fd_dup` and `F_DUPFD`: a free entry from
`start` on, in a table that grows when there is none. -/
def Table.claim (heap : Nat → Bool) (start : Nat) : Nat → Table → Table × Except FdError Nat
  | 0, t => (t, .error .tooManyFiles)
  | n + 1, t =>
    match t.findFree start with
    | some d => (t, .ok d)
    | none =>
      if fdMax ≤ t.capacity then (t, .error .tooManyFiles)
      else
        match t.grow heap (nextCapacity t.capacity) with
        | .error e => (t, .error e)
        | .ok t => t.claim heap start n

def Table.freeIn (t : Table) (start stop : Nat) : List Nat :=
  (range' start (stop - start)).filter fun d => (t.entry d).isNone

def Table.claimMany (heap : Nat → Bool) (count : Nat) :
    Nat → Table → List Nat → Table × Except FdError (List Nat)
  | 0, t, _ => (t, .error .tooManyFiles)
  | n + 1, t, found =>
    if found.length < count ∧ t.capacity < fdMax then
      match t.grow heap (nextCapacity t.capacity) with
      | .error e => (t, .error e)
      | .ok t' =>
        t'.claimMany heap count n
          (found ++ (t'.freeIn (nextCapacity t.capacity / 2) t'.capacity).take
            (count - found.length))
    else if found.length = count then (t, .ok found)
    else (t, .error .tooManyFiles)

/-! ## Descriptions -/

inductive LockKind where
  | shared | exclusive
  deriving DecidableEq

/-- An open file description; no object stands for flags that are zero. -/
structure Description where
  object : Option Object
  readable : Bool
  writable : Bool
  nonblock : Bool
  append : Bool
  references : Nat
  flock : Option LockKind

def Description.blank : Description := ⟨none, false, false, false, false, 0, none⟩

def Description.handle (d : Description) : Option Handle :=
  d.object.map fun object => ⟨object, d.readable, d.writable⟩

/-- The descriptions of the pool, and after them those of the console, which are never released
(`FILE_IMMORTAL`). -/
structure Files where
  files : Nat → Description
  tables : List Table
  objects : Objects
  held : Multiset Nat
  opened : List Handle
  released : List Handle

variable (k : Files)

def consoleInput : Nat := filePoolSize

def consoleOutput : Nat := filePoolSize + 1

def consoleError : Nat := filePoolSize + 2

def Files.boot (nodes : Nat → Node) : Files where
  files f :=
    if f = consoleInput then { Description.blank with object := some .console, readable := true }
    else if f = consoleOutput ∨ f = consoleError then
      { Description.blank with object := some .output, writable := true }
    else .blank
  tables := []
  objects :=
    { pipes := fun _ => ⟨⟨fun _ => 0, 0, 0, 0⟩, 0, 0, false⟩
      ptys := fun _ => ⟨0, 0, false⟩
      nodes := nodes
      sockets := fun _ => { newSocket .unix .stream with inUse := false, localIp := 0 } }
  held := 0
  opened := []
  released := []

def Files.setFile (f : Nat) (d : Description) : Files :=
  { k with files := update k.files f d }

def Files.setTable (table : Table) : Files :=
  { k with tables := k.tables.set t table }

def Files.slot (d : Nat) : Option Slot := (k.tables[t]?).bind (·.slots[d]?)

def Files.putSlot (d : Nat) (slot : Slot) : Files :=
  match k.tables[t]? with
  | some table => k.setTable t (table.put d slot)
  | none => k

def Files.fileAcquire (f : Nat) : Files :=
  let d := k.files f
  { k.setFile f { d with references := d.references + 1 } with
    opened := if d.references = 0 ∧ f < filePoolSize then d.handle.toList ++ k.opened
      else k.opened }

def Files.releaseObject (h : Handle) : Files × List Nat :=
  let r := k.objects.release h
  ({ k with objects := r.1, released := h :: k.released }, r.2)

/-- `file_release`.  Releasing a socket releases the descriptions queued there, and so on; the
first argument bounds the depth. -/
def fileRelease : Nat → Files → Nat → Files
  | 0, k, _ => k
  | n + 1, k, f =>
    let d := k.files f
    if d.references = 0 then k
    else
      let k := k.setFile f { d with references := d.references - 1 }
      if d.references = 1 ∧ f < filePoolSize then
        match d.handle with
        | none => k.setFile f .blank
        | some h =>
          let r := k.releaseObject h
          (r.2.foldl (fileRelease n) r.1).setFile f .blank
      else k

/-- Every level of a release closes a socket. -/
def Files.release (f : Nat) : Files := fileRelease (socketMax + 2) k f

def Files.fileAllocate : Option Nat :=
  (range filePoolSize).find? fun i =>
    decide ((k.files i).references = 0 ∧ (k.files i).object = none)

def Files.fdInstall (f flags : Nat) : Files × Except FdError Nat :=
  match k.tables[t]? with
  | none => (k, .error .badFile)
  | some table =>
    match table.claim heap 0 fdMax with
    | (table, .error e) => (k.setTable t table, .error e)
    | (table, .ok d) => ((k.setTable t (table.put d ⟨some f, flags⟩)).fileAcquire f, .ok d)

/-! ## Creators -/

/-- The common course of the creators: a free description is filled in and installed, and cleared
again if no descriptor can be had. -/
def Files.openFile (d : Description) (flags : Nat) : Files × Except FdError Nat :=
  match k.fileAllocate with
  | none => (k, .error .fileTableFull)
  | some i =>
    match (k.setFile i d).fdInstall t heap i flags with
    | (k, .ok fd) => (k, .ok fd)
    | (k, .error e) => (k.setFile i .blank, .error e)

def describe (object : Object) (readable writable : Bool) : Description :=
  { Description.blank with object := some object, readable := readable, writable := writable }

def Files.openMemory : Files × Except FdError Nat :=
  k.openFile t heap (describe .memory true false) 0

/-- `xscore_fd_open_generated`; `room` is whether the heap takes the contents. -/
def Files.openGenerated (room : Bool) : Files × Except FdError Nat :=
  if k.fileAllocate = none then (k, .error .fileTableFull)
  else if room then k.openFile t heap (describe .generated true false) 0
  else (k, .error .noMemory)

/-- Take a reference to the node first, and give it back if the description cannot be had. -/
def Files.openNode (n : Nat) (d : Description) : Files × Except FdError Nat :=
  match k.objects.nodeAcquire n with
  | none => (k, .error .noEntry)
  | some objects =>
    match ({ k with objects := objects } : Files).openFile t heap d 0 with
    | (k, .ok fd) => (k, .ok fd)
    | (k, .error e) => ({ k with objects := k.objects.nodeRelease n }, .error e)

/-- `xscore_fd_open_directory`; directories outside the table hold no reference. -/
def Files.openDirectory (n : Nat) : Files × Except FdError Nat :=
  if n < maxNodes then k.openNode t heap n (describe (.directory n) true false)
  else k.openFile t heap (describe (.directory n) true false) 0

/-- `xscore_fd_open_vnode`; `mode` are the open flags, `append` their `O_APPEND` bit. -/
def Files.openVnode (n mode : Nat) (append : Bool) : Files × Except FdError Nat :=
  let readable := decide (mode % 4 ≠ 1)
  let writable := decide (mode % 4 = 1 ∨ mode % 4 = 2)
  k.openNode t heap n { describe (.vnode n) readable writable with append := append }

def Files.openShm (id : Nat) (readable writable : Bool) (flags : Nat) : Files × Except FdError Nat :=
  if !readable && !writable then (k, .error .badFile)
  else k.openFile t heap (describe (.shm id) readable writable) flags

def Files.openInput : Files × Except FdError Nat :=
  k.openFile t heap (describe .input true false) 0

/-- `xscore_fd_open_framebuffer`; `present` is whether there is a display. -/
def Files.openFramebuffer (present readable writable : Bool) : Files × Except FdError Nat :=
  if present then k.openFile t heap (describe .framebuffer readable writable) 0
  else (k, .error .noDevice)

def Files.openCharacter (kind : Object) (readable writable : Bool) : Files × Except FdError Nat :=
  if !readable && !writable then (k, .error .badFile)
  else k.openFile t heap (describe kind readable writable) 0

inductive Character where
  | tty | null | zero | random | audio | net

def Character.object : Character → Object
  | .tty => .console
  | .null => .null
  | .zero => .zero
  | .random => .random
  | .audio => .audio
  | .net => .net

def Files.openSignalfd (nonblock cloexec : Bool) : Files × Except FdError Nat :=
  k.openFile t heap { describe .signalfd true false with nonblock := nonblock }
    (if cloexec then fdCloexec else 0)

def Files.setPty (n : Nat) (pty : Pty) : Files :=
  { k with objects := { k.objects with ptys := update k.objects.ptys n pty } }

/-- `xscore_fd_open_ptmx`; `device` is whether the slave's device node exists or can be made. -/
def Files.openPtmx (device : Bool) : Files × Except FdError Nat :=
  match (range ptyMax).find? fun n => !(k.objects.ptys n).inUse with
  | none => (k, .error .again)
  | some n =>
    let k := k.setPty n freshPty
    if !device then (k.setPty n { freshPty with inUse := false }, .error .fileTableFull)
    else
      match k.openFile t heap (describe (.ptyMaster n) true true) 0 with
      | (k, .ok fd) => (k, .ok fd)
      | (k, .error e) => (k.setPty n { k.objects.ptys n with inUse := false }, .error e)

def Files.openPts (n : Nat) (readable writable : Bool) : Files × Except FdError Nat :=
  if ptyMax ≤ n ∨ (k.objects.ptys n).inUse = false ∨ (!readable && !writable) = true then
    (k, .error .noDevice)
  else
    match k.fileAllocate with
    | none => (k, .error .fileTableFull)
    | some i =>
      let opened := k.setPty n (k.objects.ptys n).addSlave
      match (opened.setFile i (describe (.ptySlave n) readable writable)).fdInstall t heap i 0 with
      | (k, .ok fd) => (k, .ok fd)
      | (k, .error e) =>
        let pty := k.objects.ptys n
        ((k.setPty n { pty with slaves := pty.slaves - 1 }).setFile i .blank, .error e)

/-- `xscore_fd_open_socket`.  When no descriptor can be had, the description is handed to
`file_release` although it has no reference yet. -/
def Files.openSocket (s : Nat) : Files × Except FdError Nat :=
  match k.fileAllocate with
  | none => (k, .error .fileTableFull)
  | some i =>
    match (k.setFile i (describe (.socket s) true true)).fdInstall t heap i 0 with
    | (k, .ok fd) => (k, .ok fd)
    | (k, .error e) => (k.release i, .error e)

def Files.setSockets (sockets : Nat → Socket) : Files :=
  { k with objects := { k.objects with sockets := sockets } }

def Files.socketClose (s : Nat) : Files :=
  let r := socketCloseCollect k.objects.sockets s
  r.2.foldl Files.release (k.setSockets r.1)

def Files.socket (domain : Domain) (kind : SocketKind) : Files × Except FdError Nat :=
  if k.tables[t]? = none then (k, .error .badFile)
  else if domain = .unix ∧ kind ≠ .stream then (k, .error .notSupported)
  else
    match freeSocket k.objects.sockets with
    | none => (k, .error .tooManyFiles)
    | some s =>
      match (k.setSockets (update k.objects.sockets s (newSocket domain kind))).openSocket
          t heap s with
      | (k, .ok fd) => (k, .ok fd)
      | (k, .error e) => (k.socketClose s, .error e)

def Files.setPipe (p : Nat) (pipe : Pipe) : Files :=
  { k with objects := { k.objects with pipes := update k.objects.pipes p pipe } }

def Files.pipeCreate (cloexec nonblock : Bool) : Files × Except FdError (Nat × Nat) :=
  match (range pipePoolSize).find? fun p => !(k.objects.pipes p).inUse with
  | none => (k, .error .fileTableFull)
  | some p =>
    match (range filePoolSize).filter fun i =>
        decide ((k.files i).references = 0 ∧ (k.files i).object = none) with
    | i :: j :: _ =>
      let flags := if cloexec then fdCloexec else 0
      let k := k.setPipe p (freshPipe (k.objects.pipes p).ring)
      let k := k.setFile i { describe (.pipe p) true false with nonblock := nonblock }
      let k := k.setFile j { describe (.pipe p) false true with nonblock := nonblock }
      match k.fdInstall t heap i flags with
      | (k, .error e) =>
        let k := k.setPipe p { k.objects.pipes p with inUse := false }
        ((k.setFile i .blank).setFile j .blank, .error e)
      | (k, .ok rfd) =>
        match k.fdInstall t heap j flags with
        | (k, .ok wfd) => (k, .ok (rfd, wfd))
        | (k, .error e) =>
          let k := (k.putSlot t rfd .empty).release i
          let k := k.setPipe p { k.objects.pipes p with inUse := false }
          (k.setFile j .blank, .error e)
    | _ => (k, .error .fileTableFull)

/-! ## Sharing and dropping -/

def Files.lookup (d : Nat) : Option Nat :=
  if fdMax ≤ d then none else (k.tables[t]?).bind (·.entry d)

def Files.share (table : Table) (d f flags : Nat) : Files :=
  (k.setTable t (table.put d ⟨some f, flags⟩)).fileAcquire f

def Files.close (d : Nat) : Files × Except FdError Nat :=
  match k.lookup t d with
  | none => (k, .error .badFile)
  | some f => ((k.putSlot t d .empty).release f, .ok 0)

def Files.dup (d : Nat) (heap : Nat → Bool) : Files × Except FdError Nat :=
  match k.lookup t d, k.tables[t]? with
  | some f, some table =>
    match table.claim heap 0 fdMax with
    | (table, .error e) => (k.setTable t table, .error e)
    | (table, .ok target) => (k.share t table target f 0, .ok target)
  | _, _ => (k, .error .badFile)

def Files.dupFrom (d : Nat) (heap : Nat → Bool) (start : Nat) (cloexec : Bool) :
    Files × Except FdError Nat :=
  if fdMax ≤ d then (k, .error .badFile)
  else if fdMax ≤ start then (k, .error .invalid)
  else
    match k.lookup t d, k.tables[t]? with
    | some f, some table =>
      match table.grow heap (start + 1) with
      | .error e => (k, .error e)
      | .ok table =>
        match table.claim heap start fdMax with
        | (table, .error e) => (k.setTable t table, .error e)
        | (table, .ok target) =>
          (k.share t table target f (if cloexec then fdCloexec else 0), .ok target)
    | _, _ => (k, .error .badFile)

def Files.dup2 (old new : Nat) (heap : Nat → Bool) : Files × Except FdError Nat :=
  if fdMax ≤ old ∨ fdMax ≤ new then (k, .error .badFile)
  else
    match k.tables[t]? with
    | none => (k, .error .badFile)
    | some table =>
      match (if table.capacity ≤ new then table.grow heap (new + 1) else .ok table) with
      | .error e => (k, .error e)
      | .ok table =>
        match table.entry old with
        | none => (k.setTable t table, .error .badFile)
        | some f =>
          if old = new then (k.setTable t table, .ok new)
          else
            -- The description replaced is released before the entry is overwritten.
            let dropped := (table.entry new).elim (k.setTable t table) (k.setTable t table).release
            ((dropped.putSlot t new ⟨some f, 0⟩).fileAcquire f, .ok new)

/-- Release the entries of a table from `start` on that a test selects, one after the other. -/
def Files.closeWhere (select : Nat → Slot → Bool) : Files :=
  ((k.tables[t]?).elim [] fun table => range table.capacity).foldl (fun k d =>
    match k.slot t d with
    | some slot =>
      if select d slot then (slot.file.elim k k.release).putSlot t d .empty else k
    | none => k) k

def Files.closeRange (first : Nat) : Files × Except FdError Nat :=
  if fdMax < first then (k, .error .invalid)
  else (k.closeWhere t fun d _ => decide (first ≤ d), .ok 0)

def Files.closeCloexec (t : Nat) : Files :=
  k.closeWhere t fun _ slot => slot.file.isSome && decide (slot.flags % 2 = 1)

def Files.closeAll (t : Nat) : Files :=
  let k := k.closeWhere t fun _ _ => true
  if t < k.tables.length then k.setTable t .storageReset else k

def Files.tableInitialize : Files :=
  let slots := (Table.storageReset.slots.set 0 ⟨some consoleInput, 0⟩).set 1
    ⟨some consoleOutput, 0⟩
  let table : Table := ⟨slots.set 2 ⟨some consoleError, 0⟩⟩
  ((({ k with tables := k.tables ++ [table] } : Files).fileAcquire consoleInput).fileAcquire
    consoleOutput).fileAcquire consoleError

def Files.tableClone : Files × Except FdError Nat :=
  match k.tables[t]? with
  | none => ({ k with tables := k.tables ++ [.storageReset] }, .ok 0)
  | some src =>
    match Table.storageReset.grow heap src.capacity with
    | .error e => ({ k with tables := k.tables ++ [.storageReset] }, .error e)
    | .ok dest =>
      let table : Table := ⟨src.slots ++ dest.slots.drop src.capacity⟩
      ((src.slots.filterMap Slot.file).foldl Files.fileAcquire
        { k with tables := k.tables ++ [table] }, .ok 0)

def Files.setFd (d flags : Nat) : Files × Except FdError Nat :=
  match k.slot t d with
  | some slot =>
    if fdMax ≤ d ∨ slot.file = none then (k, .error .badFile)
    else if 1 < flags then (k, .error .invalid)
    else (k.putSlot t d { slot with flags := flags }, .ok 0)
  | none => (k, .error .badFile)

def Files.lookupRef (d : Nat) : Option (Files × Nat) :=
  (k.lookup t d).map fun f => (k.fileAcquire f, f)

def Files.setFl (d : Nat) (append nonblock : Bool) : Files × Except FdError Nat :=
  match k.lookupRef t d with
  | none => (k, .error .badFile)
  | some (k, f) =>
    ((k.setFile f { k.files f with append := append, nonblock := nonblock }).release f, .ok 0)

/-! ## Passing descriptors over sockets -/

def Files.transferAcquire (d : Nat) : Files × Except FdError Nat :=
  match k.lookupRef t d with
  | none => (k, .error .badFile)
  | some (k, f) =>
    match (k.files f).object with
    | some (.socket _) => (k.release f, .error .notSupported)
    | _ => (k, .ok f)

/-- Acquire the descriptors of a message; those acquired are released if one of them fails. -/
def Files.transferAcquireAll (t : Nat) : List Nat → List Nat → Files →
    Files × Except FdError (List Nat)
  | [], acquired, k => (k, .ok acquired)
  | d :: ds, acquired, k =>
    match k.transferAcquire t d with
    | (k, .error e) => (acquired.foldl Files.release k, .error e)
    | (k, .ok f) => Files.transferAcquireAll t ds (acquired ++ [f]) k

def Files.socketAcquire (d : Nat) : Files × Except FdError (Nat × Nat) :=
  match k.lookupRef t d with
  | none => (k, .error .badFile)
  | some (k, f) =>
    match (k.files f).object with
    | some (.socket s) =>
      if s < socketMax then (k, .ok (s, f)) else (k.release f, .error .notSocket)
    | _ => (k.release f, .error .notSocket)

def peerOf (sockets : Nat → Socket) (s : Nat) : Option Nat :=
  (sockets s).peer.filter fun p => decide (p < socketMax)

/-- `xscore_socket_sendmsg`; a message without descriptors on an internet socket goes out over the
network. -/
def socketSendmsg (sockets : Nat → Socket) (s : Nat) (bytes : List UInt8) (files : List Nat) :
    Except SocketError ((Nat → Socket) × Nat) :=
  if files = [] ∧ (sockets s).domain = .inet then .ok (sockets, bytes.length)
  else
    match peerOf sockets s with
    | none =>
      match unixSendmsg (sockets s) none bytes files with
      | .error e => .error e
      | .ok (_, n) => .ok (sockets, n)
    | some p =>
      match unixSendmsg (sockets s) (some (sockets p)) bytes files with
      | .error e => .error e
      | .ok (none, n) => .ok (sockets, n)
      | .ok (some peer, n) => .ok (update sockets p peer, n)

def Files.sendmsg (d : Nat) (bytes : List UInt8) (ds : List Nat) : Files × Except FdError Nat :=
  match Files.transferAcquireAll t ds [] k with
  | (k, .error e) => (k, .error e)
  | (k, .ok transfers) =>
    match k.socketAcquire t d with
    | (k, .error e) => (transfers.foldl Files.release k, .error e)
    | (k, .ok (s, reference)) =>
      match socketSendmsg k.objects.sockets s bytes transfers with
      | .ok (sockets, n) => ((k.setSockets sockets).release reference, .ok n)
      | .error e => (transfers.foldl Files.release (k.release reference), .error (.socket e))

def Files.installMany (files : List Nat) : Files × Except FdError (List Nat) :=
  match k.tables[t]? with
  | none => (k, .error .invalid)
  | some table =>
    match table.claimMany heap files.length fdMax
        ((table.freeIn 0 table.capacity).take files.length) with
    | (table, .error e) => (k.setTable t table, .error e)
    | (table, .ok found) =>
      -- The descriptor flags of the entries stay as they are.
      ((found.zip files).foldl (fun k (d, f) =>
        (k.putSlot t d ⟨some f, (k.slot t d).elim 0 Slot.flags⟩).fileAcquire f)
        (k.setTable t table), .ok found)

/-- Descriptors just received are marked, or closed again if the message cannot be copied out. -/
def Files.deliver (found : List Nat) (cloexec faults : Bool) : Files :=
  let k := if cloexec then found.foldl (fun k d => (k.setFd t d fdCloexec).1) k else k
  if faults then found.foldl (fun k d => (k.close t d).1) k else k

/-- The recvmsg call; `faults` is whether the caller's memory refuses the message. -/
def Files.recvmsg (d capacity fdCapacity : Nat) (heap : Nat → Bool) (cloexec faults : Bool) :
    Files × Except FdError Nat :=
  match k.socketAcquire t d with
  | (k, .error e) => (k, .error e)
  | (k, .ok (s, reference)) =>
    match recvmsgBegin (k.objects.sockets s) capacity fdCapacity with
    | .inl (.error e) => (k.release reference, .error (.socket e))
    | .inl (.ok n) => (k.release reference, .ok n)
    | .inr receipt =>
      match k.installMany t heap (receipt.files.take receipt.delivered) with
      | (k, .error e) => (k.release reference, .error e)
      | (k, .ok found) =>
        let sock := k.objects.sockets s
        let k := k.setSockets (update k.objects.sockets s (recvmsgCommit sock receipt).1)
        let k := ((receipt.released sock).foldl Files.release k).release reference
        (k.deliver t found cloexec faults, if faults then .error .fault else .ok receipt.toCopy)

/-- Receiving without room for descriptors: those that come with the bytes are released. -/
def Files.recv (d len : Nat) : Files × Except FdError Nat :=
  match k.socketAcquire t d with
  | (k, .error e) => (k, .error e)
  | (k, .ok (s, reference)) =>
    let r := recvfrom (k.objects.sockets s) len
    let k := k.setSockets (update k.objects.sockets s r.1)
    let k := (r.2.discarded.flatMap RightsRecord.files).foldl Files.release k
    (k.release reference,
      match r.2.result with | .ok bytes => .ok bytes.length | .error e => .error (.socket e))

def Files.socketId (d : Nat) : Files × Option Nat :=
  match k.lookupRef t d with
  | none => (k, none)
  | some (k, f) =>
    (k.release f, match (k.files f).object with | some (.socket s) => some s | _ => none)

def Files.listen (d : Nat) : Files × Except FdError Nat :=
  match k.socketId t d with
  | (k, none) => (k, .error .badFile)
  | (k, some s) =>
    let sock := k.objects.sockets s
    if !sock.inUse then (k, .error .badFile)
    else if sock.kind ≠ .stream then (k, .error .notSupported)
    else
      (k.setSockets (update k.objects.sockets s { sock with state := .listen }), .ok 0)

def Files.connect (d l : Nat) : Files × Except FdError Nat :=
  match k.socketId t d with
  | (k, none) => (k, .error .badFile)
  | (k, some s) =>
    match connectUnix k.objects.sockets s l with
    | .error e => (k, .error e)
    | .ok sockets => (k.setSockets sockets, .ok 0)

def Files.accept (d : Nat) (heap : Nat → Bool) : Files × Except FdError Nat :=
  match k.socketId t d with
  | (k, none) => (k, .error .badFile)
  | (k, some l) =>
    match acceptPending k.objects.sockets l with
    | none => (k, .error .invalid)
    | some (sockets, none) => (k.setSockets sockets, .error .again)
    | some (sockets, some c) =>
      match (k.setSockets sockets).openSocket t heap c with
      | (k, .ok fd) => (k, .ok fd)
      | (k, .error e) => (k.socketClose c, .error e)

/-! ## Histories -/

inductive Op where
  | tableInitialize
  | tableClone (t : Nat) (heap : Nat → Bool)
  | openMemory (t : Nat) (heap : Nat → Bool)
  | openGenerated (t : Nat) (heap : Nat → Bool) (room : Bool)
  | openDirectory (t : Nat) (heap : Nat → Bool) (n : Nat)
  | openVnode (t : Nat) (heap : Nat → Bool) (n mode : Nat) (append : Bool)
  | openShm (t : Nat) (heap : Nat → Bool) (id : Nat) (readable writable : Bool) (flags : Nat)
  | openInput (t : Nat) (heap : Nat → Bool)
  | openFramebuffer (t : Nat) (heap : Nat → Bool) (present readable writable : Bool)
  | openCharacter (t : Nat) (heap : Nat → Bool) (kind : Character) (readable writable : Bool)
  | openSignalfd (t : Nat) (heap : Nat → Bool) (nonblock cloexec : Bool)
  | openPtmx (t : Nat) (heap : Nat → Bool) (device : Bool)
  | openPts (t : Nat) (heap : Nat → Bool) (n : Nat) (readable writable : Bool)
  | socket (t : Nat) (heap : Nat → Bool) (domain : Domain) (kind : SocketKind)
  | pipeCreate (t : Nat) (heap : Nat → Bool) (cloexec nonblock : Bool)
  | close (t d : Nat)
  | closeRange (t first : Nat)
  | closeCloexec (t : Nat)
  | closeAll (t : Nat)
  | dup (t d : Nat) (heap : Nat → Bool)
  | dupFrom (t d : Nat) (heap : Nat → Bool) (start : Nat) (cloexec : Bool)
  | dup2 (t old new : Nat) (heap : Nat → Bool)
  | setFd (t d flags : Nat)
  | setFl (t d : Nat) (append nonblock : Bool)
  | listen (t d : Nat)
  | connect (t d l : Nat)
  | accept (t d : Nat) (heap : Nat → Bool)
  | sendmsg (t d : Nat) (bytes : List UInt8) (ds : List Nat)
  | recvmsg (t d capacity fdCapacity : Nat) (heap : Nat → Bool) (cloexec faults : Bool)
  | recv (t d len : Nat)
  /-- A call looks a descriptor up and goes to work on the description. -/
  | hold (t d : Nat)
  /-- A call is done with a description it holds (`file_put`). -/
  | put (f : Nat)

def Files.step : Op → Files
  | .tableInitialize => k.tableInitialize
  | .tableClone t heap => (k.tableClone t heap).1
  | .openMemory t heap => (k.openMemory t heap).1
  | .openGenerated t heap room => (k.openGenerated t heap room).1
  | .openDirectory t heap n => (k.openDirectory t heap n).1
  | .openVnode t heap n mode append => (k.openVnode t heap n mode append).1
  | .openShm t heap id readable writable flags => (k.openShm t heap id readable writable flags).1
  | .openInput t heap => (k.openInput t heap).1
  | .openFramebuffer t heap present readable writable =>
    (k.openFramebuffer t heap present readable writable).1
  | .openCharacter t heap kind readable writable =>
    (k.openCharacter t heap kind.object readable writable).1
  | .openSignalfd t heap nonblock cloexec => (k.openSignalfd t heap nonblock cloexec).1
  | .openPtmx t heap device => (k.openPtmx t heap device).1
  | .openPts t heap n readable writable => (k.openPts t heap n readable writable).1
  | .socket t heap domain kind => (k.socket t heap domain kind).1
  | .pipeCreate t heap cloexec nonblock => (k.pipeCreate t heap cloexec nonblock).1
  | .close t d => (k.close t d).1
  | .closeRange t first => (k.closeRange t first).1
  | .closeCloexec t => k.closeCloexec t
  | .closeAll t => k.closeAll t
  | .dup t d heap => (k.dup t d heap).1
  | .dupFrom t d heap start cloexec => (k.dupFrom t d heap start cloexec).1
  | .dup2 t old new heap => (k.dup2 t old new heap).1
  | .setFd t d flags => (k.setFd t d flags).1
  | .setFl t d append nonblock => (k.setFl t d append nonblock).1
  | .listen t d => (k.listen t d).1
  | .connect t d l => (k.connect t d l).1
  | .accept t d heap => (k.accept t d heap).1
  | .sendmsg t d bytes ds => (k.sendmsg t d bytes ds).1
  | .recvmsg t d capacity fdCapacity heap cloexec faults =>
    (k.recvmsg t d capacity fdCapacity heap cloexec faults).1
  | .recv t d len => (k.recv t d len).1
  | .hold t d =>
    match k.lookupRef t d with
    | some (k, f) => { k with held := f ::ₘ k.held }
    | none => k
  | .put f =>
    if f ∈ k.held then ({ k with held := k.held.erase f } : Files).release f else k

end XsCore.File
