import XsCore.Foundation.Bytes
import XsCore.Libc.Strtol

/-! # The heap of the C library

`malloc`, `calloc`, `realloc`, `aligned_alloc`, `posix_memalign` and `free` of
`userspace/libc/src/malloc.c`.  The doubly linked list of blocks is a list of headers in its order,
the list of free blocks the list of their addresses.  The pointer back to the header that stands
before every pointer handed out is kept in memory, where the program could reach it.

What the kernel answers when the heap has to grow is a parameter of each call.
-/

namespace XsCore.Libc

open Bytes

def alignment : Nat := 16

def align (size : Nat) : Nat := (size + 15) / 16 * 16

def headerSize : Nat := 64

def pointerSize : Nat := 8

def sizeMax : Nat := 2 ^ 64 - 1

def intptrMax : Nat := 2 ^ 63 - 1

/-- `struct block_header`, with its own address; the links are the lists it is in. -/
structure Block where
  addr : Nat
  size : Nat
  free : Bool
  user : Nat
  deriving DecidableEq

def Block.extent (b : Block) : Nat := headerSize + b.size

def Block.stop (b : Block) : Nat := b.addr + b.extent

structure Region where
  base : Nat
  length : Nat

structure Heap where
  blocks : List Block
  freeList : List Nat
  memory : Nat → UInt8
  given : List Region

/-- The kernel's answers to `sbrk` and, when that fails, to `mmap`. -/
structure Grant where
  brk : Option Nat
  map : Option Nat

structure Place where
  before : List Block
  block : Block
  after : List Block

def locate (a : Nat) : List Block → Option Place
  | [] => none
  | b :: rest =>
    if b.addr = a then some ⟨[], b, rest⟩
    else (locate a rest).map fun place => { place with before := b :: place.before }

def loadPointer (memory : Nat → UInt8) (a : Nat) : Nat := leValue (load memory a pointerSize)

def storePointer (memory : Nat → UInt8) (a value : Nat) : Nat → UInt8 :=
  store memory a (leBytes pointerSize value)

def Heap.fit (h : Heap) (size : Nat) : Option Place :=
  h.freeList.findSome? fun a => (locate a h.blocks).filter fun place => size ≤ place.block.size

def Block.remainder (b : Block) (size : Nat) : Block :=
  { addr := b.addr + headerSize + size
    size := b.size - size - headerSize
    free := true
    user := 0 }

/-- Take a block into use: split it when enough is left over, and set the user pointer. -/
def Heap.take (h : Heap) (place : Place) (size : Nat) : Heap × Nat :=
  let user := place.block.addr + headerSize
  let memory := storePointer h.memory (user - pointerSize) place.block.addr
  if headerSize + alignment ≤ place.block.size - size then
    let used : Block := { place.block with size := size, free := false, user := user }
    let rest := place.block.remainder size
    ({ h with blocks := place.before ++ used :: rest :: place.after
              freeList := rest.addr :: h.freeList
              memory := memory }, user)
  else
    let used : Block := { place.block with free := false, user := user }
    ({ h with blocks := place.before ++ used :: place.after, memory := memory }, user)

def Grant.region (grant : Grant) (size : Nat) : Option Region :=
  let request := if size + headerSize < 4096 then 4096 else size + headerSize
  match grant.brk with
  | some base => some ⟨base, request⟩
  | none => grant.map.map fun base => ⟨base, (request + 4095) / 4096 * 4096⟩

def Heap.allocate (h : Heap) (size : Nat) (grant : Grant) : Heap × Option Nat :=
  match h.fit size with
  | some place =>
    let (h, user) := { h with freeList := h.freeList.erase place.block.addr : Heap }.take place size
    (h, some user)
  | none =>
    if sizeMax - headerSize < size ∨ intptrMax < size + headerSize then (h, none)
    else
      match grant.region size with
      | none => (h, none)
      | some region =>
        let block : Block := ⟨region.base, region.length - headerSize, false, 0⟩
        let place : Place := ⟨h.blocks, block, []⟩
        let (h, user) := { h with given := h.given ++ [region] : Heap }.take place size
        (h, some user)

def Heap.findAllocated (h : Heap) (p : Nat) : Option Place :=
  match h.blocks.head?, h.blocks.getLast? with
  | some first, some last =>
    if p = 0 then none
    else if p < first.addr + headerSize ∨ last.stop ≤ p then none
    else if p - pointerSize < first.addr ∨ last.stop - pointerSize < p - pointerSize then none
    else
      let a := loadPointer h.memory (p - pointerSize)
      if a = 0 ∨ a < first.addr ∨ last.stop - headerSize < a ∨ a % alignment ≠ 0 then none
      else (locate a h.blocks).filter fun place => !place.block.free && place.block.user = p
  | _, _ => none

def Heap.joinNext (h : Heap) (place : Place) : Heap × Place :=
  match place.after with
  | next :: after =>
    if next.free then
      ({ h with freeList := h.freeList.erase next.addr },
        { place with block := { place.block with
                       size := place.block.size + (headerSize + next.size) }
                     after := after })
    else (h, place)
  | [] => (h, place)

def Heap.joinPrevious (h : Heap) (place : Place) : Heap × Place :=
  match place.before.getLast? with
  | some previous =>
    if previous.free then
      ({ h with freeList := h.freeList.erase previous.addr },
        { place with before := place.before.dropLast
                     block := { previous with
                       size := previous.size + (headerSize + place.block.size) } })
    else (h, place)
  | none => (h, place)

def Place.blocks (place : Place) : List Block := place.before ++ place.block :: place.after

def Heap.freeLocked (h : Heap) (p : Nat) : Heap :=
  match h.findAllocated p with
  | none => h
  | some place =>
    let h := { h with memory := storePointer h.memory (p - pointerSize) 0 }
    let block := { place.block with free := true, user := 0 }
    let (h, place) := h.joinNext { place with block := block }
    let (h, place) := h.joinPrevious place
    { h with blocks := place.blocks, freeList := place.block.addr :: h.freeList }

inductive Reply where
  | pointer (p : Nat)
  | null (errno : Option Errno)
  /-- `memcpy` reads memory that is not of the heap. -/
  | fault
  deriving DecidableEq

def alignAllocationSize (size : Nat) : Option Nat :=
  if sizeMax - (alignment - 1) < size then none else some (align size)

def Heap.malloc (h : Heap) (size : Nat) (grant : Grant) : Heap × Reply :=
  if size = 0 then (h, .null none)
  else
    match alignAllocationSize size with
    | none => (h, .null (some .noMemory))
    | some aligned =>
      match h.allocate aligned grant with
      | (h, some p) => (h, .pointer p)
      | (h, none) => (h, .null (some .noMemory))

def Heap.free (h : Heap) (p : Nat) : Heap := if p = 0 then h else h.freeLocked p

def Heap.calloc (h : Heap) (count size : Nat) (grant : Grant) : Heap × Reply :=
  if count ≠ 0 ∧ sizeMax / count < size then (h, .null (some .noMemory))
  else
    match h.malloc (count * size) grant with
    | (h, .pointer p) =>
      ({ h with memory := store h.memory p (List.replicate (count * size) 0) }, .pointer p)
    | out => out

def Heap.holds (h : Heap) (a : Nat) : Bool :=
  h.given.any fun region => region.base ≤ a && a < region.base + region.length

def Heap.realloc (h : Heap) (p size : Nat) (grant : Grant) : Heap × Reply :=
  if p = 0 then h.malloc size grant
  else if size = 0 then (h.free p, .null none)
  else
    match alignAllocationSize size with
    | none => (h, .null (some .noMemory))
    | some aligned =>
      match h.findAllocated p with
      | none => (h, .null (some .invalid))
      | some place =>
        if aligned ≤ place.block.size then (h, .pointer p)
        else
          let joined := h.joinNext place
          if aligned ≤ joined.2.block.size ∧ joined.2.block.size ≤ sizeMax then
            ({ joined.1 with blocks := joined.2.blocks }, .pointer p)
          else
            match h.allocate aligned grant with
            | (h, none) => (h, .null (some .noMemory))
            | (h', some q) =>
              let length := if place.block.size < size then place.block.size else size
              if (List.range length).all fun i => h'.holds (p + i) then
                let memory := store h'.memory q (load h'.memory p length)
                (({ h' with memory := memory } : Heap).freeLocked p, .pointer q)
              else (h, .fault)

def Heap.alignedAlloc (h : Heap) (boundary size : Nat) (grant : Grant) : Heap × Reply :=
  if boundary = 0 ∨ boundary &&& (boundary - 1) ≠ 0 ∨ size % boundary ≠ 0 then
    (h, .null (some .invalid))
  else if boundary ≤ alignment then h.malloc size grant
  else
    let overhead := boundary - 1
    if sizeMax - pointerSize < overhead ∨ sizeMax - overhead - pointerSize < size then
      (h, .null (some .noMemory))
    else
      let length := size + overhead + pointerSize
      match h.malloc length grant with
      | (h, .pointer base) =>
        if sizeMax - length < base ∨ sizeMax - overhead < base + pointerSize then
          (h.free base, .null (some .noMemory))
        else
          -- the mask is a division, the boundary being a power of two
          let p := (base + pointerSize + overhead) / boundary * boundary
          match h.findAllocated base with
          | none => (h.free base, .null (some .invalid))
          | some place =>
            let moved : Place := { place with block := { place.block with user := p } }
            let memory := storePointer h.memory (p - pointerSize) place.block.addr
            ({ h with blocks := moved.blocks, memory := memory }, .pointer p)
      | out => out

def padded (boundary size : Nat) : Nat :=
  if size % boundary = 0 then size else size + (boundary - size % boundary)

/-- `posix_memalign`; `errno` is what an earlier call left there. -/
def Heap.posixMemalign (h : Heap) (boundary size : Nat) (errno : Option Errno) (grant : Grant) :
    Heap × Reply :=
  if boundary < pointerSize ∨ boundary &&& (boundary - 1) ≠ 0 then (h, .null (some .invalid))
  else if sizeMax < padded boundary size then (h, .null (some .noMemory))
  else
    match h.alignedAlloc boundary (padded boundary size) grant with
    | (h, .null e) => (h, .null (some ((e.or errno).getD .noMemory)))
    | out => out

/-! ## A program at work -/

/-- The heap and the pointers the program holds, each with the size it asked for. -/
structure Arena where
  heap : Heap
  live : List (Nat × Nat)

inductive HeapOp where
  | malloc (size : Nat) (grant : Grant)
  | calloc (count size : Nat) (grant : Grant)
  | realloc (p size : Nat) (grant : Grant)
  | alignedAlloc (boundary size : Nat) (grant : Grant)
  | posixMemalign (boundary size : Nat) (errno : Option Errno) (grant : Grant)
  | free (p : Nat)
  | write (p offset : Nat) (bytes : List UInt8)

def Arena.receive (s : Arena) (size : Nat) : Heap × Reply → Arena
  | (heap, .pointer p) => ⟨heap, (p, size) :: s.live⟩
  | (heap, _) => { s with heap := heap }

def Arena.drop (s : Arena) (p : Nat) : Arena :=
  { s with live := s.live.filter fun entry => entry.1 ≠ p }

def Arena.realloc (s : Arena) (p size : Nat) (grant : Grant) : Arena :=
  match s.heap.realloc p size grant with
  | (heap, .pointer q) => ⟨heap, (q, size) :: (s.drop p).live⟩
  | (heap, .null _) => { (if size = 0 then s.drop p else s) with heap := heap }
  | (_, .fault) => s

/-- A program hands only its own pointers back and writes only within the sizes it asked for. -/
def Arena.step (s : Arena) : HeapOp → Arena
  | .malloc size grant => s.receive size (s.heap.malloc size grant)
  | .calloc count size grant => s.receive (count * size) (s.heap.calloc count size grant)
  | .realloc p size grant =>
    if p = 0 ∨ p ∈ s.live.map Prod.fst then s.realloc p size grant else s
  | .alignedAlloc boundary size grant => s.receive size (s.heap.alignedAlloc boundary size grant)
  | .posixMemalign boundary size errno grant =>
    s.receive size (s.heap.posixMemalign boundary size errno grant)
  | .free p =>
    if p ∈ s.live.map Prod.fst then { s.drop p with heap := s.heap.free p } else s
  | .write p offset bytes =>
    if ∃ entry ∈ s.live, entry.1 = p ∧ offset + bytes.length ≤ entry.2 then
      { s with heap := { s.heap with memory := store s.heap.memory (p + offset) bytes } }
    else s

def Arena.boot (memory : Nat → UInt8) : Arena := ⟨⟨[], [], memory, []⟩, []⟩

end XsCore.Libc
