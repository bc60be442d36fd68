import XsCore.Memory.Physical

/-! # Processes and page records

The state `kernel/process.c` keeps about memory on the x86-64 port: per process a page table and the
three arrays of page records (image and stack pages, heap pages, mappings), and next to the
processes the page cache, the shared-memory backings and the allocator.  Addresses are page numbers
where the code only ever stores page-aligned ones.
-/

namespace XsCore.Memory

/-! ## Address-space layout -/

def userCodePage : Nat := 0x8000000

def stackTopPage : Nat := userCodePage + 0x201

def stackPage : Nat := userCodePage + 0x200

def maxStackPages : Nat := 64

def imageMaxPages : Nat := 512

def trackedPageCapacity : Nat := imageMaxPages + maxStackPages + 2

def imageLoadWindow : Nat := 0x1000000

def heapStartPage : Nat := userCodePage + 0x400

def trampolinePage : Nat := userCodePage + 0x2800

def mmapStartPage : Nat := userCodePage + 0x3000

def pageCacheCapacity : Nat := 2048

def pageSize : Nat := 4096

/-! ## Page tables -/

/-- The flags of an entry or record that differ between user pages. -/
structure PageFlags where
  writable : Bool
  noExecute : Bool

structure Pte where
  frame : Nat
  flags : PageFlags

/-- A table page below the root: the table of `level` for all pages with this index. -/
structure Table where
  level : Nat
  index : Nat
  frame : Nat

/-- `address_is_canonical`, on page numbers. -/
def isCanonical (page : Nat) : Bool :=
  if page / 2 ^ 35 % 2 = 1 then page / 2 ^ 36 = 0xffff else page / 2 ^ 36 = 0

def hasTable (tables : List Table) (level index : Nat) : Bool :=
  tables.any fun t => t.level = level ∧ t.index = index

def tableLevels : List Nat := [3, 2, 1]

def Walkable (tables : List Table) (page : Nat) : Prop :=
  ∀ level ∈ tableLevels, hasTable tables level (page / 512 ^ level) = true

structure Space where
  root : Nat
  tables : List Table
  entries : Nat → Option Pte
  walkable : ∀ page, entries page ≠ none →
    page ≠ 0 ∧ isCanonical page = true ∧ Walkable tables page

/-! ## Page records -/

structure MappedPage where
  page : Nat
  frame : Option Nat
  flags : PageFlags
  cow : Bool
  cow_writable : cow = true → flags.writable = true
  cow_resident : cow = true → frame ≠ none

structure HeapPage where
  frame : Option Nat
  cow : Bool
  cow_resident : cow = true → frame ≠ none

def HeapPage.own (frame : Nat) : HeapPage where
  frame := some frame
  cow := false
  cow_resident h := absurd h Bool.false_ne_true

structure Protection where
  read : Bool
  write : Bool
  exec : Bool
  deriving DecidableEq

def Protection.none : Protection := ⟨false, false, false⟩

/-- A pointer to a backing; `MMAP_BACKING_SHARED` tells the two kinds apart. -/
inductive BackingRef where
  | shared (id : Nat)
  | snapshot (id : Nat)

/-- A page of a mapping; `mmap_page_flags` is always what the protection asks for. -/
structure MmapPage where
  page : Nat
  protection : Protection
  frame : Option Nat
  cow : Bool
  backing : Option BackingRef
  offset : Nat
  cow_resident : cow = true → frame ≠ none

def Protection.flags (protection : Protection) : PageFlags :=
  ⟨protection.write, !protection.exec⟩

def MmapPage.flags (s : MmapPage) : PageFlags := s.protection.flags

/-! ## Images -/

/-- An executable that was loaded. -/
structure Image where
  /-- The address of its bytes, which is what the page cache knows it by. -/
  source : Nat
  /-- Whether the page at an offset has relocations; `none` if the table is malformed. -/
  relocated : Nat → Option Bool
  /-- The bytes of the page at an offset, unless applying its relocations fails. -/
  contents : Nat → Option (Nat → UInt8)

/-! ## Processes -/

structure Process where
  running : Bool
  space : Space
  mapped : List MappedPage
  heap : List HeapPage
  heapBreak : Nat
  mmaps : List MmapPage
  stackBottom : Nat
  image : Option Image
  stack_le : stackBottom ≤ stackPage

/-! ## Memory outside the processes -/

structure CachedPage where
  image : Nat
  offset : Nat
  frame : Nat

/-- A backing with `MMAP_BACKING_SHARED`: the pages themselves are common to its mappings. -/
structure SharedBacking where
  pages : List (Option Nat)

/-- A backing that is copied from: the bytes of a file or object at the time of the mapping. -/
structure Snapshot where
  length : Nat
  data : Nat → UInt8

structure Mem where
  pmm : Pmm
  ram : Nat → Nat → UInt8
  cache : List CachedPage
  backings : List SharedBacking
  snapshots : List Snapshot

/-- A page that is resident is in the page table, and mappings lie above everything else. -/
structure ProcessOk (p : Process) : Prop where
  mapped : ∀ s ∈ p.mapped, s.frame ≠ none → p.space.entries s.page ≠ none
  heap : ∀ i s, p.heap[i]? = some s → s.frame ≠ none → p.space.entries (heapStartPage + i) ≠ none
  mmaps : ∀ s ∈ p.mmaps, mmapStartPage ≤ s.page

/-! ## Taking and dropping frames -/

variable (m : Mem)

def Mem.withPmm (pmm : Pmm) : Mem := { m with pmm := pmm }

def Mem.allocate : Mem × Option Nat :=
  (m.withPmm (allocatePage m.pmm).1, (allocatePage m.pmm).2)

def Mem.free (frame : Nat) : Mem := m.withPmm (freePage m.pmm frame)

def Mem.inc (frame : Nat) : Mem := m.withPmm (refcountInc m.pmm frame)

def Mem.dec (frame : Nat) : Mem := m.withPmm (refcountDec m.pmm frame)

def Mem.fill (frame : Nat) (bytes : Nat → UInt8) : Mem :=
  { m with ram := Function.update m.ram frame bytes }

def Mem.zero (frame : Nat) : Mem := m.fill frame fun _ => 0

def Mem.Allocated (m' : Mem) : Prop := m' = { m with pmm := m'.pmm, ram := m'.ram }

end XsCore.Memory
