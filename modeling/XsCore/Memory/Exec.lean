import XsCore.Memory.Fault

/-! # Loading programs

`load_elf_image` fills an empty process: it reserves the pages of the segments, which become
resident on their first access, and maps a stack page and the signal trampoline.
-/

namespace XsCore.Memory

/-- Where two segments meet in a page, it is writable or executable if either asks for it. -/
def MappedPage.merge (s : MappedPage) (flags : PageFlags) : MappedPage :=
  { s with
    flags := ⟨s.flags.writable || flags.writable, s.flags.noExecute && flags.noExecute⟩
    cow_writable := fun h => by simp [s.cow_writable h] }

def reserveImagePage (mapped : List MappedPage) (page : Nat) (flags : PageFlags) :
    Option (List MappedPage) :=
  match findSlot (fun s => s.page = page) mapped with
  | some (i, slot) => some (mapped.set i (slot.merge flags))
  | none => trackPage mapped page none flags

def rangeInside (offset length size : Nat) : Bool := offset ≤ size ∧ length ≤ size - offset

def signalExitTrampoline : List UInt8 := [0x48, 0xc7, 0xc0, 0x02, 0x00, 0x00, 0x00, 0xcd, 0x80]

def trampolineFlags : PageFlags := ⟨false, false⟩

/-- The initial stack page, which gets the arguments.  `arguments` is what
`setup_user_stack_arguments` makes of it, unless they do not fit. -/
def loadStack (m : Mem) (p : Process) (arguments : Option (Nat → UInt8)) : Mem × Process × Bool :=
  match mapNewPage m p stackPage stackFlags with
  | (m, p, none) => (m, p, false)
  | (m, p, some frame) =>
    match arguments with
    | none => (m, p, false)
    | some bytes => (m.fill frame bytes, p, true)

def loadTrampoline (m : Mem) (p : Process) : Mem × Process × Bool :=
  match mapNewPage m p trampolinePage trampolineFlags with
  | (m, p, none) => (m, p, false)
  | (m, p, some frame) => (m.fill frame fun i => signalExitTrampoline.getD i 0, p, true)

/-- The end of `load_elf_image`, when the pages of the segments are reserved. -/
def startImage (m : Mem) (p : Process) (image : Image) (arguments : Option (Nat → UInt8)) :
    Mem × Process × Bool :=
  match loadStack m p arguments with
  | (m, p, false) => (m, p, false)
  | (m, p, true) =>
    match loadTrampoline m p with
    | (m, p, false) => (m, p, false)
    | (m, p, true) =>
      (m, { p with stackBottom := stackPage, image := some image, stack_le := le_rfl }, true)

def blankProcess (space : Space) : Process where
  running := true
  space := space
  mapped := []
  heap := []
  heapBreak := heapStartPage * pageSize
  mmaps := []
  stackBottom := 0
  image := none
  stack_le := Nat.zero_le _

end XsCore.Memory
