import XsCore.Foundation.Alignment
import XsCore.Foundation.Bytes
import XsCore.Memory.Exec

/-! # ELF files

The headers, dynamic entries and relocations of an executable, read from its bytes as
`kernel/process.c` reads them.  The two file classes differ in the width and place of their fields.
-/

namespace XsCore.Elf

open Memory Option

/-- `sizeof` and layout go by the class of the file. -/
inductive Class where
  | elf32 | elf64
  deriving DecidableEq

variable (c : Class)

abbrev File := List UInt8

def field (file : File) (offset width : Nat) : Nat :=
  Bytes.leValue ((file.drop offset).take width)

/-! ## Headers -/

structure Header where
  type : Nat
  machine : Nat
  version : Nat
  entry : Nat
  phoff : Nat
  ehsize : Nat
  phentsize : Nat
  phnum : Nat

def Class.headerSize : Class → Nat
  | .elf32 => 52
  | .elf64 => 64

def Class.programHeaderSize : Class → Nat
  | .elf32 => 32
  | .elf64 => 56

def Class.header (file : File) : Class → Header
  | .elf32 =>
    { type := field file 16 2
      machine := field file 18 2
      version := field file 20 4
      entry := field file 24 4
      phoff := field file 28 4
      ehsize := field file 40 2
      phentsize := field file 42 2
      phnum := field file 44 2 }
  | .elf64 =>
    { type := field file 16 2
      machine := field file 18 2
      version := field file 20 4
      entry := field file 24 8
      phoff := field file 32 8
      ehsize := field file 52 2
      phentsize := field file 54 2
      phnum := field file 56 2 }

structure ProgramHeader where
  type : Nat
  flags : Nat
  offset : Nat
  vaddr : Nat
  filesz : Nat
  memsz : Nat
  deriving DecidableEq

def Class.programHeader (file : File) (start : Nat) : Class → ProgramHeader
  | .elf32 =>
    { type := field file start 4
      flags := field file (start + 24) 4
      offset := field file (start + 4) 4
      vaddr := field file (start + 8) 4
      filesz := field file (start + 16) 4
      memsz := field file (start + 20) 4 }
  | .elf64 =>
    { type := field file start 4
      flags := field file (start + 4) 4
      offset := field file (start + 8) 8
      vaddr := field file (start + 16) 8
      filesz := field file (start + 32) 8
      memsz := field file (start + 40) 8 }

def classOf (file : File) : Option Class :=
  if file.length < 16 ∨ file.take 4 ≠ [0x7f, 0x45, 0x4c, 0x46] then none
  else
    let kind := field file 4 1
    if kind = 1 then if file.length < Class.elf32.headerSize then none else some .elf32
    else if kind = 2 then if file.length < Class.elf64.headerSize then none else some .elf64
    else none

def Class.machines : Class → List Nat
  | .elf32 => [0x03, 0x28, 0xF3]
  | .elf64 => [0x3E, 0xB7, 0xF3]

/-- What `load_elf_image` asks of a header. -/
def Header.valid (h : Header) (c : Class) (size : Nat) : Bool :=
  (decide (h.type = 2) || decide (h.type = 3)) && c.machines.contains h.machine &&
    decide (h.version = 1) && decide (h.ehsize = c.headerSize) &&
    decide (h.phentsize = c.programHeaderSize) && rangeInside h.phoff (h.phnum * h.phentsize) size

def Header.dynamic (h : Header) : Bool := decide (h.type = 3)

def programHeaders (file : File) : List ProgramHeader :=
  let h := c.header file
  (List.range h.phnum).map fun i => c.programHeader file (h.phoff + i * h.phentsize)

def ptLoad : Nat := 1

def ptDynamic : Nat := 2

def ptInterp : Nat := 3

def ProgramHeader.loadable (s : ProgramHeader) : Bool :=
  decide (s.type = ptLoad) && decide (s.memsz ≠ 0)

def ProgramHeader.pageFlags (s : ProgramHeader) : PageFlags :=
  ⟨decide (s.flags / 2 % 2 = 1), decide (s.flags % 2 = 0)⟩

/-! ## The dynamic section -/

/-- `struct process_dynamic_metadata` without the bitmap. -/
structure Dynamic where
  enabled : Bool
  relaVaddr : Nat
  relaSize : Nat
  relaEnt : Nat
  relVaddr : Nat
  relSize : Nat
  relEnt : Nat

def Dynamic.none : Dynamic := ⟨false, 0, 0, 0, 0, 0, 0⟩

def dynamicTagSupported (tag : Nat) : Bool :=
  [0, 4, 5, 6, 10, 11, 21, 30, 0x6ffffffa, 0x6ffffff9, 0x6ffffffb, 0x6ffffef5, 7, 8, 9, 17, 18,
    19].contains tag

def Dynamic.set (d : Dynamic) (tag value : Nat) : Dynamic :=
  match tag with
  | 7 => { d with relaVaddr := value }
  | 8 => { d with relaSize := value }
  | 9 => { d with relaEnt := value }
  | 17 => { d with relVaddr := value }
  | 18 => { d with relSize := value }
  | 19 => { d with relEnt := value }
  | _ => d

def Class.width : Class → Nat
  | .elf32 => 4
  | .elf64 => 8

def parseEntries (c : Class) (file : File) : Nat → Nat → Dynamic → Option Dynamic
  | 0, _, _ => none
  | n + 1, offset, d =>
    let tag := field file offset c.width
    if !dynamicTagSupported tag then none
    else if tag = 0 then some d
    else
      parseEntries c file n (offset + 2 * c.width)
        (d.set tag (field file (offset + c.width) c.width))

def tableOk (vaddr size ent expected : Nat) : Bool :=
  decide (size = 0) ||
    (decide (vaddr ≠ 0) && decide (ent = expected) && decide (size % ent = 0))

def Class.entrySize (addend : Bool) : Nat := if addend then 3 * c.width else 2 * c.width

def parseDynamicSegment (file : File) (s : ProgramHeader) (d : Dynamic) : Option Dynamic :=
  if s.filesz = 0 ∨ s.filesz % (2 * c.width) ≠ 0 ∨
      rangeInside s.offset s.filesz file.length = false then none
  else
    match parseEntries c file (s.filesz / (2 * c.width)) s.offset { d with enabled := true } with
    | none => none
    | some d =>
      if tableOk d.relaVaddr d.relaSize d.relaEnt (c.entrySize true) &&
          tableOk d.relVaddr d.relSize d.relEnt (c.entrySize false) then some d
      else none

def gatherDynamic (file : File) (headers : List ProgramHeader) (d : Dynamic) : Dynamic :=
  (headers.filter fun s => decide (s.type = ptDynamic)).foldl
    (fun d s => (parseDynamicSegment c file s d).getD d) d

def fileDynamic (file : File) : Dynamic :=
  gatherDynamic c file (programHeaders c file) Dynamic.none

/-! ## Relocations -/

/-- A table entry; the addend is the number its bytes stand for without a sign. -/
structure Relocation where
  target : Nat
  info : Nat
  addend : Option Nat

def imageVaddrToOffset (file : File) (vaddr length : Nat) : Option Nat :=
  (programHeaders c file).findSome? fun s =>
    let stop := (s.vaddr + s.filesz) % 2 ^ 64
    let offset := (s.offset + (vaddr - s.vaddr)) % 2 ^ 64
    if s.type = ptLoad ∧ s.vaddr ≤ stop ∧ s.vaddr ≤ vaddr ∧ vaddr ≤ stop ∧
        length ≤ stop - vaddr ∧ s.offset ≤ offset ∧
        rangeInside offset length file.length = true then
      some offset
    else none

def relocationTable (file : File) (addend : Bool) (vaddr size : Nat) : Option (List Relocation) :=
  if size = 0 then some []
  else
    (imageVaddrToOffset c file vaddr size).map fun offset =>
      (List.range (size / c.entrySize addend)).map fun i =>
        let entry := offset + i * c.entrySize addend
        { target := field file entry c.width
          info := field file (entry + c.width) c.width
          addend := if addend then some (field file (entry + 2 * c.width) c.width)
            else none }

def relocations (file : File) (d : Dynamic) : Option (List Relocation) :=
  if !d.enabled then some []
  else
    match relocationTable c file true d.relaVaddr d.relaSize,
        relocationTable c file false d.relVaddr d.relSize with
    | some relas, some rels => some (relas ++ rels)
    | _, _ => none

def fileRelocations (file : File) : List Relocation :=
  (relocations c file (fileDynamic c file)).getD []

end XsCore.Elf
