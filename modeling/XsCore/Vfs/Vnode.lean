import XsCore.Foundation.SparseBytes
import Mathlib.Algebra.Group.Nat.Defs

/-!
# Vnodes and their content blocks

A vnode keeps its content either as the read-only image bytes of the boot
archive (`data`, not dynamic) or in up to 32 lazily allocated 4 KiB pages.  The
functions here are the content half of `vfs.c`: block lookup and allocation,
conversion to dynamic content, read, write and truncate of one vnode.

The page allocator is represented by `pages`, the number of pages it can still
hand out during the operation; a page that is handed out is cleared and belongs
to the vnode alone.
-/

namespace XsCore.Vfs

def blockSize : Nat := 4096
def directBlocks : Nat := 32
def fileMaxSize : Nat := directBlocks * blockSize
def nameMax : Nat := 255

abbrev Name := List UInt8

inductive VnodeType where
  | unused
  | directory
  | regular
  | character
  deriving DecidableEq

abbrev Block := Nat → UInt8

/-- `block_pages`: the allocated page of each block index, if any. -/
abbrev Blocks := Nat → Option Block

structure Vnode where
  type : VnodeType
  parent : Nat
  name : Name
  data : Option (List UInt8)
  size : Nat
  mode : UInt32
  uid : UInt32
  gid : UInt32
  isDynamic : Bool
  references : UInt32
  unlinked : Bool
  blocks : Blocks

/-! ## Blocks -/

def noBlocks : Blocks := fun _ => none

/-- The byte of the content pages at a file position; a missing page is a hole. -/
def blockByte (blocks : Blocks) (pos : Nat) : UInt8 :=
  match blocks (pos / blockSize) with
  | some block => block (pos % blockSize)
  | none => 0

/-- `get_vnode_block_buffer` with `allocate` set: the block's page, the page
table with the page in it, and the pages left in the allocator. -/
def getBlock (blocks : Blocks) (index pages : Nat) : Option (Block × Nat) :=
  if directBlocks ≤ index then none
  else
    match blocks index with
    | some block => some (block, pages)
    | none => if pages = 0 then none else some (fun _ => 0, pages - 1)

/-- What a copy loop leaves behind: the blocks, the pages left and the number of
bytes copied. -/
structure Copied where
  blocks : Blocks
  pages : Nat
  count : Nat

/-- The block-wise copy loop shared by `convert_to_dynamic` and
`xscore_vfs_write_node`: `count` bytes of `length` are already copied, and the
loop stops early when a block has no page and none can be allocated. -/
def copyLoop (src : Nat → UInt8) (offset length : Nat) : Nat → Copied → Copied
  | 0, acc => acc
  | fuel + 1, acc =>
      if acc.count < length then
        let pos := (offset + acc.count) % 2 ^ 64
        let index := pos / blockSize
        let start := pos % blockSize
        let chunk := min (length - acc.count) (blockSize - start)
        match getBlock acc.blocks index acc.pages with
        | none => acc
        | some (block, pages) =>
            let filled := SparseBytes.overlay block start chunk fun i => src (acc.count + i)
            copyLoop src offset length fuel
              ⟨Function.update acc.blocks index (some filled), pages, acc.count + chunk⟩
      else acc

/-- Every turn of the loop but the last uses another block index, so one turn
more than there are blocks is always enough. -/
def copyIn (src : Nat → UInt8) (offset length : Nat) (blocks : Blocks) (pages : Nat) : Copied :=
  copyLoop src offset length (directBlocks + 1) ⟨blocks, pages, 0⟩

/-! ## Content operations -/

def Vnode.dataByte (node : Vnode) (i : Nat) : UInt8 :=
  match node.data with
  | some bytes => bytes.getD i 0
  | none => 0

/-- `convert_to_dynamic`: the vnode afterwards, the pages left and the result. -/
def convertToDynamic (node : Vnode) (pages : Nat) : Vnode × Nat × Bool :=
  if node.type ≠ .regular ∨ node.isDynamic then (node, pages, true)
  else if fileMaxSize < node.size then (node, pages, false)
  else
    let copied := copyIn node.dataByte 0 node.size node.blocks pages
    if copied.count < node.size then ({ node with blocks := noBlocks }, pages, false)
    else
      ({ node with blocks := copied.blocks, data := none, isDynamic := true }, copied.pages, true)

/-- The bytes one turn of the read loop takes out of one block. -/
def readChunk (blocks : Blocks) (pos chunk : Nat) : List UInt8 :=
  match blocks (pos / blockSize) with
  | some block => (List.range chunk).map fun i => block (pos % blockSize + i)
  | none => List.replicate chunk 0

/-- The copy loop of `xscore_vfs_read_node` over the content pages. -/
def readLoop (blocks : Blocks) : Nat → Nat → Nat → List UInt8
  | 0, _, _ => []
  | fuel + 1, pos, remaining =>
      if remaining = 0 then []
      else
        let chunk := min remaining (blockSize - pos % blockSize)
        readChunk blocks pos chunk ++ readLoop blocks fuel (pos + chunk) (remaining - chunk)

/-- `get_vnode_block_buffer` without `allocate`: indices past the table have no page. -/
def visibleBlocks (blocks : Blocks) : Blocks :=
  fun index => if index < directBlocks then blocks index else none

/-- `xscore_vfs_read_node` on an in-range node id; `none` is the failure result. -/
def readNode (node : Vnode) (offset length : UInt64) : Option (List UInt8) :=
  if node.type ≠ .regular then none
  else if node.size ≤ offset.toNat then some []
  else
    let count := min length.toNat (node.size - offset.toNat)
    if !node.isDynamic && node.data.isSome then
      some ((List.range count).map fun i => node.dataByte (offset.toNat + i))
    else
      some (readLoop (visibleBlocks node.blocks) count offset.toNat count)

/-- The clipped length of a write, or `none` when the offset is already past the
limit.  The sum is the 64-bit one of the source. -/
def clippedLength (offset length : UInt64) : Option Nat :=
  if fileMaxSize < (offset + length).toNat then
    if fileMaxSize ≤ offset.toNat then none else some (fileMaxSize - offset.toNat)
  else some length.toNat

/-- `xscore_vfs_write_node` up to the persistence commit: the vnode afterwards
and the number of bytes stored, or `none` for an early failure. -/
def writeNode (node : Vnode) (offset length : UInt64) (src : Nat → UInt8) (pages : Nat) :
    Vnode × Option Nat :=
  if node.type ≠ .regular then (node, none)
  else
    match convertToDynamic node pages with
    | (node, _, false) => (node, none)
    | (node, pages, true) =>
        match clippedLength offset length with
        | none => (node, none)
        | some length =>
            let copied := copyIn src offset.toNat length node.blocks pages
            let stop := (offset.toNat + copied.count) % 2 ^ 64
            ({ node with blocks := copied.blocks, size := max node.size stop }, some copied.count)

/-- The tail of the last kept block is cleared and all later blocks are freed. -/
def discardBlocks (blocks : Blocks) (length : Nat) : Blocks := fun index =>
  let firstDiscarded := (length + blockSize - 1) / blockSize
  let tail := length % blockSize
  if firstDiscarded ≤ index ∧ index < directBlocks then none
  else if tail ≠ 0 ∧ firstDiscarded ≠ 0 ∧ index = firstDiscarded - 1 ∧ index < directBlocks then
    (blocks index).map fun block => fun i => if tail ≤ i ∧ i < blockSize then 0 else block i
  else blocks index

/-- `xscore_vfs_truncate_node` up to the persistence commit; the flag is the
success of the call. -/
def truncateNode (node : Vnode) (length : UInt64) (pages : Nat) : Vnode × Bool :=
  if fileMaxSize < length.toNat then (node, false)
  else if node.type ≠ .regular then (node, false)
  else if length.toNat = node.size then (node, true)
  else
    match convertToDynamic node pages with
    | (node, _, false) => (node, false)
    | (node, _, true) =>
        let blocks :=
          if length.toNat < node.size then discardBlocks node.blocks length.toNat else node.blocks
        ({ node with blocks := blocks, size := length.toNat }, true)

/-- The `O_TRUNC` half of `xscore_vfs_open_at` on a regular vnode. -/
def openTruncate (node : Vnode) : Vnode :=
  { node with isDynamic := true, data := if node.isDynamic then node.data else none,
              blocks := noBlocks, size := 0 }

end XsCore.Vfs
