import XsCore.Libc.Format
import XsCore.Vfs.Path

/-! # The archive tool

`userspace/bin/tar/main.c`: what it writes for a directory tree, and what it makes of an archive.
The file system is a tree; reads and writes of regular files are complete.  `getdents` of
`userspace/libc/src/syscall.c` takes a number of entries, which the kernel bounds, and returns a
number of entries; the tool passes the size of its buffer in bytes.

`path_buf` and `dir_entry_buf` are shared by all levels of the recursion, and the path that a nested
call gets is `path_buf` itself.
-/

namespace XsCore.Tools

open Libc List

variable (source : DirectoryTree) (stat : Stat) (others : Entries) (size : Nat) (relPath : Name)
  (st : Stat) (sum fuel : Nat)
open Vfs (Name components slash dot)

/-! ## Directory trees -/

/-- The fields of `struct akaos_stat` that a header holds, without the size. -/
structure Stat where
  mode : Nat
  uid : Nat
  gid : Nat

mutual

inductive Tree where
  | file (stat : Stat) (content : List UInt8)
  | directory (stat : Stat) (entries : Entries)

/-- The entries of a directory, in the order the kernel lists them. -/
inductive Entries where
  | nil
  | cons (name : Name) (tree : Tree) (rest : Entries)

end

def Entries.find : Entries → Name → Option Tree
  | .nil, _ => none
  | .cons name tree rest, wanted => if name = wanted then some tree else rest.find wanted

def Entries.names : Entries → List Name
  | .nil => []
  | .cons name _ rest => name :: rest.names

def Entries.put : Entries → Name → Tree → Entries
  | .nil, wanted, new => .cons wanted new .nil
  | .cons name tree rest, wanted, new =>
    if name = wanted then .cons name new rest else .cons name tree (rest.put wanted new)

def Tree.walk : Tree → List Name → Option Tree
  | tree, [] => some tree
  | .file .., _ :: _ => none
  | .directory _ entries, name :: path =>
    match entries.find name with
    | none => none
    | some tree => tree.walk path

/-- What is compared of a tree: the kind of its nodes, and the content of files. -/
inductive Kind where
  | directory
  | file (content : List UInt8)
  deriving DecidableEq

def Tree.kind : Tree → Kind
  | .file _ content => .file content
  | .directory .. => .directory

def Tree.kindAt (tree : Tree) (path : List Name) : Option Kind := (tree.walk path).map Tree.kind

def ValidName (name : Name) : Prop :=
  name ≠ [] ∧ name.length ≤ 255 ∧ slash ∉ name ∧ 0 ∉ name ∧ name ≠ [dot] ∧ name ≠ [dot, dot]

instance (name : Name) : Decidable (ValidName name) := by
  unfold ValidName
  infer_instance

mutual

def Tree.ValidNames : Tree → Prop
  | .file .. => True
  | .directory _ entries => entries.ValidNames

def Entries.ValidNames : Entries → Prop
  | .nil => True
  | .cons name tree rest =>
    ValidName name ∧ name ∉ rest.names ∧ tree.ValidNames ∧ rest.ValidNames

end

structure DirectoryTree where
  name : Name
  stat : Stat
  entries : Entries
  name_valid : ValidName name
  entries_valid : entries.ValidNames

def DirectoryTree.tree (source : DirectoryTree) : Tree := .directory source.stat source.entries

def DirectoryTree.cwd (source : DirectoryTree) (stat : Stat) (others : Entries) : Tree :=
  .directory stat (.cons source.name source.tree others)

/-! ## Headers -/

abbrev Block := List UInt8

def tarBlockSize : Nat := 512

def zeroed (size : Nat) (text : List UInt8) : List UInt8 :=
  text.take size ++ List.replicate (size - text.length) 0

/-- The digits that `format_octal` writes. -/
def octalDigits : Nat → Nat → List UInt8
  | 0, _ => []
  | count + 1, val => octalDigits count (val / 8) ++ [UInt8.ofNat (48 + val % 8)]

def formatOctal : Nat → Nat → List UInt8
  | 0, _ => []
  | 1, _ => [0]
  | size + 2, val => octalDigits size val ++ [32, 0]

def parseDigits : Nat → List UInt8 → Nat
  | val, [] => val
  | val, c :: src =>
    if 48 ≤ c ∧ c ≤ 55 then parseDigits ((val * 8 + (c.toNat - 48)) % 2 ^ 64) src else val

def parseOctal (src : List UInt8) : Nat := parseDigits 0 (src.dropWhile fun c => c = 32 ∨ c = 0)

def chksumOffset : Nat := 148

def checksumLoop : Nat → Nat → List UInt8 → Nat
  | _, sum, [] => sum
  | i, sum, byte :: bytes =>
    if chksumOffset ≤ i ∧ i < chksumOffset + 8 then checksumLoop (i + 1) ((sum + 32) % 2 ^ 32) bytes
    else checksumLoop (i + 1) ((sum + byte.toNat) % 2 ^ 32) bytes

def calculateChecksum (block : Block) : Nat := checksumLoop 0 0 block

/-- `snprintf` with string arguments or one integer argument: the text it leaves in the buffer. -/
def snprintf (size : Nat) (format : List UInt8) (strings : List (List UInt8)) (value : Nat) :
    List UInt8 :=
  let args : FormatArguments :=
    { wide := true
      skipped := fun _ => 0
      word := fun i => if strings = [] then BitVec.ofNat 64 value else BitVec.ofNat 64 (i + 1)
      string := fun address => strings.getD (address.toNat - 1) []
      float := fun _ _ _ _ _ _ _ => [] }
  ((vsnprintf args size (some format)).map fun out => out.1.takeWhile (· ≠ 0)).getD []

def directoryFormat : List UInt8 := [37, 115, 47]

def entryFormat : List UInt8 := [37, 115, 47, 37, 115]

def chksumFormat : List UInt8 := [37, 48, 54, 111]

def ustarMagic : List UInt8 := [117, 115, 116, 97, 114]

def rootName : List UInt8 := [114, 111, 111, 116]

def typeRegular : UInt8 := 48
def typeDirectory : UInt8 := 53

def headerName (relPath : Name) (type : UInt8) : List UInt8 :=
  if type = typeDirectory ∧ relPath ≠ [] ∧ relPath.getLast? ≠ some slash then
    zeroed 100 (snprintf 100 directoryFormat [relPath] 0)
  else zeroed 100 (relPath.take 99)

def headerFront (relPath : Name) (st : Stat) (size : Nat) (type : UInt8) : List UInt8 :=
  headerName relPath type ++ formatOctal 8 (st.mode % 0o10000) ++ formatOctal 8 st.uid ++
    formatOctal 8 st.gid ++ formatOctal 12 (if type = typeDirectory then 0 else size) ++
    formatOctal 12 0

/-- The fields behind the checksum: the type, an empty link name, the magic, the version, the names
of the owner and of the group, and fields that stay zero. -/
def headerBack (type : UInt8) : List UInt8 :=
  [type] ++ zeroed 100 [] ++ zeroed 6 ustarMagic ++ [48, 48] ++ zeroed 32 rootName ++
    zeroed 32 rootName ++ zeroed 8 [] ++ zeroed 8 [] ++ zeroed 155 [] ++ zeroed 12 []

def headerChksum (sum : Nat) : List UInt8 :=
  ((zeroed 8 (snprintf 8 chksumFormat [] sum)).set 6 0).set 7 32

def writeHeader (relPath : Name) (st : Stat) (size : Nat) (type : UInt8) : Block :=
  let front := headerFront relPath st size type
  let back := headerBack type
  let sum := calculateChecksum (front ++ zeroed 8 [] ++ back)
  front ++ headerChksum sum ++ back

/-! ## Creation -/

/-- A block of an archive, as it was written. -/
inductive ArchiveBlock where
  | header (block : Block)
  | data (block : Block)

def ArchiveBlock.block : ArchiveBlock → Block
  | .header block => block
  | .data block => block

/-- What the recursion shares: the archive so far, `path_buf`, and the names in `dir_entry_buf`. -/
structure Archiver where
  written : List ArchiveBlock
  pathBuf : Name
  dirEntryBuf : List Name

def Archiver.write (s : Archiver) (blocks : List ArchiveBlock) : Archiver :=
  { s with written := s.written ++ blocks }

def direntSize : Nat := 272

def syscallMaxIo : Nat := 32768

/-- `getdents` for a directory with the given names, at an offset: the entries, of which `.` and
`..` are the first, and the next offset.  The kernel refuses a capacity whose entries are more than
one transfer. -/
def getdents (names : List Name) (offset capacity : Nat) : Option (List Name × Nat) :=
  if capacity = 0 ∨ syscallMaxIo / direntSize < capacity then none
  else
    let entries := ((([dot] : Name) :: [dot, dot] :: names).drop offset).take capacity
    some (entries, offset + entries.length)

def dirEntryBufSize : Nat := 1024

section Recursion

/-! The path of an entry is an operand of the command, or what `path_buf` holds when it is used. -/

variable (recurse : Archiver → Option Archiver) (operand : Option Name)

/-- The loop over what `getdents` returned.  An entry that was never read has no name. -/
def entryLoop (nread : Nat) : Nat → Nat → Archiver → Option Archiver
  | 0, _, s => some s
  | fuel + 1, pos, s =>
    if pos < nread then
      if nread < pos + direntSize then some s
      else
        match s.dirEntryBuf[pos / direntSize]? with
        | none => none
        | some name =>
          if name ≠ [dot] ∧ name ≠ [dot, dot] then
            let path := snprintf 512 entryFormat [operand.getD s.pathBuf, name] 0
            match recurse { s with pathBuf := path } with
            | none => none
            | some s => entryLoop nread fuel (pos + direntSize) s
          else entryLoop nread fuel (pos + direntSize) s
    else some s

def directoryLoop (names : List Name) : Nat → Nat → Archiver → Option Archiver
  | 0, _, _ => none
  | fuel + 1, offset, s =>
    match getdents names offset dirEntryBufSize with
    | none => some s
    | some (entries, next) =>
      if entries = [] then some s
      else
        let s := { s with dirEntryBuf := entries ++ s.dirEntryBuf.drop entries.length }
        match entryLoop recurse operand entries.length entries.length 0 s with
        | none => none
        | some s => directoryLoop names fuel next s

end Recursion

def dataBlocks : Nat → List UInt8 → List ArchiveBlock
  | 0, _ => []
  | _ + 1, [] => []
  | fuel + 1, byte :: content =>
    .data (zeroed tarBlockSize (byte :: content)) ::
      dataBlocks fuel ((byte :: content).drop tarBlockSize)

def archiveEntry (cwd : Tree) : Nat → Option Name → Archiver → Option Archiver
  | 0, _, _ => none
  | fuel + 1, operand, s =>
    let entryPath := operand.getD s.pathBuf
    match cwd.walk (components entryPath) with
    | none => some s
    | some (.directory st entries) =>
      directoryLoop (archiveEntry cwd fuel none) operand entries.names (fuel + 1) 0
        (s.write [.header (writeHeader entryPath st 0 typeDirectory)])
    | some (.file st content) =>
      some (s.write (.header (writeHeader entryPath st content.length typeRegular) ::
        dataBlocks content.length content))

def archiveOperands (cwd : Tree) (fuel : Nat) : List Name → Archiver → Option Archiver
  | [], s => some s
  | operand :: operands, s =>
    match archiveEntry cwd fuel (some operand) s with
    | none => none
    | some s => archiveOperands cwd fuel operands s

def zeroBlock : Block := zeroed tarBlockSize []

def createArchive (cwd : Tree) (fuel : Nat) (operands : List Name) : Option (List ArchiveBlock) :=
  (archiveOperands cwd fuel operands ⟨[], [], []⟩).map fun s =>
    s.written ++ [.data zeroBlock, .data zeroBlock]

/-! ## Extraction -/

def newStat : Stat := ⟨0o755, 0, 0⟩

/-- `mkdir`; it does nothing if the name is taken or its parent is not there. -/
def Tree.makeDirectory : Tree → List Name → Tree
  | .directory st entries, [name] =>
    match entries.find name with
    | none => .directory st (entries.put name (.directory newStat .nil))
    | some _ => .directory st entries
  | .directory st entries, name :: path =>
    match entries.find name with
    | none => .directory st entries
    | some tree => .directory st (entries.put name (tree.makeDirectory path))
  | tree, _ => tree

/-- `open` for writing with creation and truncation, and the writes of the content. -/
def Tree.createFile : Tree → List Name → List UInt8 → Option Tree
  | .directory st entries, [name], content =>
    match entries.find name with
    | none => some (.directory st (entries.put name (.file newStat content)))
    | some (.file old _) => some (.directory st (entries.put name (.file old content)))
    | some (.directory ..) => none
  | .directory st entries, name :: path, content =>
    match entries.find name with
    | none => none
    | some tree =>
      (tree.createFile path content).map fun tree => .directory st (entries.put name tree)
  | _, _, _ => none

/-- `ensure_parent_dirs`: the directories in front of the slashes of a path, the leading ones
apart. -/
def ensureParentDirs (target : Tree) (filePath : Name) : Tree :=
  let tmp := filePath.take 255
  let leading := (tmp.takeWhile (· = slash)).length
  let slashes := (List.range tmp.length).filter fun p => leading ≤ p ∧ tmp[p]? = some slash
  slashes.foldl (fun target p => target.makeDirectory (components (tmp.take p))) target

def readPayload : Nat → List Block → List UInt8 × List Block
  | _, [] => ([], [])
  | rem, block :: blocks =>
    if rem = 0 then ([], block :: blocks)
    else
      let toWrite := if tarBlockSize < rem then tarBlockSize else rem
      let (bytes, rest) := readPayload (rem - toWrite) blocks
      (block.take toWrite ++ bytes, rest)

def blockName (block : Block) : Name := (block.take 127).takeWhile (· ≠ 0)

def blockSize (block : Block) : Nat := parseOctal ((block.drop 124).take 12)

def blockType (block : Block) : UInt8 :=
  let typeflag := block.getD 156 0
  if typeflag ≠ 0 then typeflag else typeRegular

/-- The loop of `tar -x` over the blocks of an archive. -/
def extractLoop : Nat → Nat → List Block → Tree → Tree
  | 0, _, _, target => target
  | _ + 1, _, [], target => target
  | fuel + 1, zeroBlocks, block :: blocks, target =>
    if block.all (· = 0) then
      if 2 ≤ zeroBlocks + 1 then target else extractLoop fuel (zeroBlocks + 1) blocks target
    else if blockType block = typeDirectory then
      extractLoop fuel 0 blocks (target.makeDirectory (components (blockName block)))
    else
      let size := blockSize block
      let target := ensureParentDirs target (blockName block)
      let (content, rest) := readPayload size blocks
      match target.createFile (components (blockName block)) content with
      | some target => extractLoop fuel 0 rest target
      | none =>
        extractLoop fuel 0 (blocks.drop ((size + tarBlockSize - 1) / tarBlockSize)) target

def extractArchive (blocks : List Block) (target : Tree) : Tree :=
  extractLoop blocks.length 0 blocks target

/-! ## What the tool is for -/

def headerSum (block : Block) : Nat :=
  ((block.take chksumOffset).map UInt8.toNat).sum + 8 * 32 +
    ((block.drop (chksumOffset + 8)).map UInt8.toNat).sum

/-- The checksum field holds the sum in octal. -/
def CarriesChecksum (block : Block) : Prop :=
  parseOctal ((block.drop chksumOffset).take 8) = headerSum block

def emptyDirectory : Tree := .directory newStat .nil

/-- Every directory and every file of a tree is in another directory, under the same path and with
the same content. -/
def Recreates (source : DirectoryTree) (target : Tree) : Prop :=
  ∀ path kind, source.tree.kindAt path = some kind →
    target.kindAt (source.name :: path) = some kind

/-- The archive of a tree is made, its extraction recreates the tree, and its headers carry their
checksums. -/
def RoundTrips (source : DirectoryTree) (stat : Stat) (others : Entries) : Prop :=
  ∃ fuel archive, createArchive (source.cwd stat others) fuel [source.name] = some archive ∧
    Recreates source (extractArchive (archive.map ArchiveBlock.block) emptyDirectory) ∧
    ∀ block, .header block ∈ archive → CarriesChecksum block

/-! ## The checksum -/

@[simp] theorem zeroed_length (text : List UInt8) : (zeroed size text).length = size := by
  rw [zeroed, length_append, length_take, length_replicate]
  omega

@[simp] theorem octalDigits_length (count val : Nat) : (octalDigits count val).length = count := by
  induction count generalizing val with
  | zero => rfl
  | succ count ih => rw [octalDigits, length_append, ih, length_singleton]

@[simp] theorem formatOctal_length (val : Nat) : (formatOctal size val).length = size := by
  unfold formatOctal
  split
  · rfl
  · rfl
  · rw [length_append, octalDigits_length]
    rfl

@[simp] theorem headerName_length (type : UInt8) : (headerName relPath type).length = 100 := by
  unfold headerName
  split <;> exact zeroed_length _ _

@[simp] theorem headerFront_length (size : Nat) (type : UInt8) :
    (headerFront relPath st size type).length = chksumOffset := by
  simp only [headerFront, length_append, headerName_length, formatOctal_length]
  rfl

/-- Without an octal conversion, `snprintf` leaves the letter of the conversion. -/
theorem writeHeader_eq (size : Nat) (type : UInt8) : writeHeader relPath st size type =
      headerFront relPath st size type ++ [111, 0, 0, 0, 0, 0, 0, 32] ++ headerBack type := by
  rfl

theorem chksum_writeHeader (size : Nat) (type : UInt8) :
    ((writeHeader relPath st size type).drop chksumOffset).take 8 =
      [111, 0, 0, 0, 0, 0, 0, 32] := by
  rw [writeHeader_eq, append_assoc, drop_left' (headerFront_length relPath st size type)]
  rfl

theorem writeHeader_not_carries (size : Nat) (type : UInt8) :
    ¬ CarriesChecksum (writeHeader relPath st size type) := by
  intro hcarries
  rw [CarriesChecksum, chksum_writeHeader] at hcarries
  have hvalue : parseOctal [111, 0, 0, 0, 0, 0, 0, 32] = 0 := by decide
  rw [hvalue, headerSum] at hcarries
  omega

/-! ## The archive of a directory -/

/-- The size of the buffer in bytes is more than the number of entries the kernel accepts. -/
theorem getdents_refused (names : List Name) (offset : Nat) :
    getdents names offset dirEntryBufSize = none := by
  unfold getdents
  exact if_pos (Or.inr (by decide))

def DirectoryTree.header (source : DirectoryTree) : Block :=
  writeHeader source.name source.stat 0 typeDirectory

theorem DirectoryTree.walk_name :
    (source.cwd stat others).walk (components source.name) = some source.tree := by
  obtain ⟨hne, -, hslash, -⟩ := source.name_valid
  rw [Vfs.components_of_notMem hslash hne]
  simp [DirectoryTree.cwd, Tree.walk, Entries.find]

theorem createArchive_directory : createArchive (source.cwd stat others) (fuel + 1) [source.name] =
      some [.header source.header, .data zeroBlock, .data zeroBlock] := by
  have hentry : archiveEntry (source.cwd stat others) (fuel + 1) (some source.name) ⟨[], [], []⟩ =
      some ⟨[.header source.header], [], []⟩ := by
    simp only [archiveEntry, Option.getD_some, source.walk_name, DirectoryTree.tree,
      directoryLoop, getdents_refused]
    rfl
  simp only [createArchive, archiveOperands, hentry]
  rfl

/-- No directory tree survives: the header of its root never carries its checksum. -/
theorem tar_never_roundTrips (source : DirectoryTree) (stat : Stat) (others : Entries) :
    ¬ RoundTrips source stat others := by
  rintro ⟨fuel, archive, hcreate, -, hheaders⟩
  cases fuel with
  | zero => cases hcreate
  | succ fuel =>
    rw [createArchive_directory] at hcreate
    cases hcreate
    exact writeHeader_not_carries _ _ _ _ (hheaders _ mem_cons_self)

def smallTree : DirectoryTree where
  name := [97]
  stat := ⟨0o755, 0, 0⟩
  entries := .cons [98] (.file ⟨0o644, 0, 0⟩ [120]) .nil
  name_valid := by decide
  entries_valid := ⟨by decide, not_mem_nil, trivial, trivial⟩

/-- The file is not restored. -/
theorem smallTree_not_roundTrips : ¬ RoundTrips smallTree newStat .nil := by
  rintro ⟨fuel, archive, hcreate, hrecreates, -⟩
  rcases fuel with _ | fuel
  · cases hcreate
  rw [createArchive_directory] at hcreate
  cases hcreate
  have hfile := hrecreates [[98]] (.file [120]) rfl
  revert hfile
  decide +kernel

end XsCore.Tools
