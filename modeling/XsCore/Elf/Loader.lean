import XsCore.Elf.Format

/-! # Loading an ELF file

`load_elf_image`, for files of both classes and types on every port.  Position-independent images
go to the user base; fixed ones, recognised by type and machine, to the addresses they ask for.
The pages of the segments are reserved here and filled on their first access.
-/

namespace XsCore.Elf

open Alignment Memory

/-! ## Ports -/

inductive Arch where
  | x86_64 | x86_32 | aarch64 | arm32 | riscv64 | riscv32

variable (a : Arch)

def Arch.wide : Arch → Bool
  | .x86_64 | .aarch64 | .riscv64 => true
  | .x86_32 | .arm32 | .riscv32 => false

def Arch.userCode : Arch → Nat
  | .x86_32 | .riscv32 => 0x40000000
  | .arm32 => 0x10000000
  | .riscv64 => 0x2000000000
  | .x86_64 | .aarch64 => 0x8000000000

def Arch.trampolineOffset : Nat := if a.wide then 0x2800000 else 0xf00000

def Arch.maxHeapPages : Nat := if a.wide then 8192 else 256

structure Window where
  lo : Nat
  hi : Nat
  deriving DecidableEq

def Arch.imageWindow : Window := ⟨a.userCode, a.userCode + imageLoadWindow⟩

/-- From the lowest page the stack may grow to, up to `USER_STACK_TOP`. -/
def Arch.stack : Window :=
  ⟨a.userCode + 0x201000 - maxStackPages * pageSize, a.userCode + 0x201000⟩

def Arch.heap : Window :=
  ⟨a.userCode + 0x400000, a.userCode + 0x400000 + a.maxHeapPages * pageSize⟩

def Arch.trampoline : Window :=
  ⟨a.userCode + a.trampolineOffset, a.userCode + a.trampolineOffset + pageSize⟩

def Arch.mmap : Window :=
  match a with
  | .arm32 => ⟨a.userCode + 0x600000, a.userCode + 0xe00000⟩
  | .x86_64 | .aarch64 | .riscv64 => ⟨a.userCode + 0x3000000, a.userCode + 0x13000000⟩
  | .x86_32 | .riscv32 => ⟨a.userCode + 0x2000000, a.userCode + 0x3000000⟩

/-! ## Segments -/

def Header.fixed (h : Header) : Class → Bool
  | .elf32 => !h.dynamic && [0x03, 0x28, 0xF3].contains h.machine
  | .elf64 => !h.dynamic && [0xB7, 0xF3].contains h.machine

def loadBase (c : Class) (h : Header) : Nat := if h.fixed c then 0 else a.userCode

/-- `segment->vaddr + segment->memsz`: for the narrow class a sum of 32 bits without a check, for
the wide one with a check. -/
def ProgramHeader.stop (s : ProgramHeader) : Class → Option Nat
  | .elf32 => some ((s.vaddr + s.memsz) % 2 ^ 32)
  | .elf64 => if 2 ^ 64 - 1 - s.memsz < s.vaddr then none else some (s.vaddr + s.memsz)

/-- The checks of a segment that occupies memory, and the range of its pages before relocation. -/
def ProgramHeader.extent (s : ProgramHeader) (a : Arch) (c : Class) (base size : Nat) :
    Option Window :=
  if s.memsz < s.filesz ∨ rangeInside s.offset s.filesz size = false then none
  else
    match s.stop c with
    | none => none
    | some stop =>
      let limit := if base ≠ 0 then imageLoadWindow else a.userCode + imageLoadWindow
      let signal := if base ≠ 0 then a.trampolineOffset else a.userCode + a.trampolineOffset
      if limit < stop then none
      else if alignDown pageSize s.vaddr ≤ signal ∧ signal < alignUp pageSize stop then none
      else some ⟨alignDown pageSize s.vaddr, alignUp pageSize stop⟩

def reservePages (base : Nat) (flags : PageFlags) :
    Nat → Nat → List MappedPage → Option (List MappedPage)
  | 0, _, mapped => some mapped
  | n + 1, offset, mapped =>
    if imageMaxPages ≤ mapped.length then none
    else
      match reserveImagePage mapped ((base + offset) / pageSize) flags with
      | none => none
      | some mapped => reservePages base flags n (offset + pageSize) mapped

structure LoadState where
  mapped : List MappedPage
  dynamic : Dynamic
  found : Bool
  entryPage : Nat

def loadSegment (c : Class) (file : File) (st : LoadState) (s : ProgramHeader) : Option LoadState :=
  let h := c.header file
  let base := loadBase a c h
  if s.type = ptInterp then none
  else if s.type = ptDynamic then
    if h.dynamic then
      (parseDynamicSegment c file s st.dynamic).map fun d => { st with dynamic := d }
    else none
  else if s.loadable then
    match s.extent a c base file.length with
    | none => none
    | some w =>
      match reservePages base s.pageFlags ((w.hi - w.lo) / pageSize) w.lo st.mapped with
      | none => none
      | some mapped =>
        some { st with
          mapped := mapped
          found := true
          entryPage := if w.lo ≤ alignDown pageSize h.entry ∧ alignDown pageSize h.entry < w.hi then
            base + alignDown pageSize h.entry else st.entryPage }
  else some st

def loadSegments (a : Arch) (c : Class) (file : File) :
    List ProgramHeader → LoadState → Option LoadState
  | [], st => some st
  | s :: rest, st =>
    match loadSegment a c file st s with
    | none => none
    | some st => loadSegments a c file rest st

/-- `process_build_relocation_page_bitmap`: the pages that have relocations. -/
def buildRelocationPages (c : Class) (file : File) (d : Dynamic) : Option (List Nat) :=
  match relocations c file d with
  | none => none
  | some rs =>
    if rs.all fun r => decide (r.target < imageLoadWindow) then
      some (rs.map fun r => r.target / pageSize)
    else none

/-- What `load_elf_image` leaves for the page faults to come. -/
structure Loaded where
  file : File
  kind : Class
  base : Nat
  reserved : List MappedPage
  dynamic : Dynamic
  relocated : List Nat

/-- `load_elf_image`; `ready` is whether the stack with the arguments and the trampoline can be set
up after that. -/
def loadElfImage (file : File) (ready : Bool) : Option Loaded :=
  match classOf file with
  | none => none
  | some c =>
    let h := c.header file
    if !h.valid c file.length then none
    else
      match loadSegments a c file (programHeaders c file) ⟨[], .none, false, 0⟩ with
      | none => none
      | some st =>
        if st.found = false ∨ st.entryPage = 0 then none
        else
          match buildRelocationPages c file st.dynamic with
          | none => none
          | some relocated =>
            if 2 ^ 64 - 1 - h.entry < loadBase a c h then none
            else if ready then
              some ⟨file, c, loadBase a c h, st.mapped, st.dynamic, relocated⟩
            else none

end XsCore.Elf
